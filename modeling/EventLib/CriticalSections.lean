import EventLib.LabelledRuns
import Mathlib.Logic.Function.Basic

namespace CriticalSections
open LabelledRuns

-- A lock word, one atomic attempt to take it and one store that gives it back.
structure Mutex (ℓ : Type) where
  attempt : ℓ → ℓ × Bool
  release : ℓ → ℓ
  free : ℓ → Prop
  taken : ∀ word, (attempt word).2 = true ↔ free word
  kept : ∀ word, ¬ free (attempt word).1
  released : ∀ word, free (release word)

-- The code between the two calls: `κ` is where a thread stands in it, with its
-- locals, and `access` is one load or store of the data the lock protects.
-- `none` is an access with no defined result.
structure Region (σ κ : Type) where
  finished : κ → Bool
  access : σ → κ → Option (σ × κ)

inductive Pc (κ : Type) where
  | out
  | spinning (entry : κ)
  | inside (entry now : κ)

def Pc.within : Pc κ → Bool
  | .inside _ _ => true
  | _ => false

-- `history` lists the sections left so far with where each began and ended.
structure State (ℓ τ σ κ : Type) where
  lock : ℓ
  shared : σ
  pc : τ → Pc κ
  history : List (τ × κ × κ)

inductive Label (τ κ : Type) where
  | call (thread : τ) (entry : κ)
  | run (thread : τ)

def start (lock : ℓ) (shared : σ) : State ℓ τ σ κ := ⟨lock,shared,fun _ => .out,[]⟩

section Model
variable {ℓ τ σ κ : Type} [DecidableEq τ]

def State.move (s : State ℓ τ σ κ) (t : τ) (pc : Pc κ) : State ℓ τ σ κ := {s with pc:=Function.update s.pc t pc}

theorem move_cases (s : State ℓ τ σ κ) (t : τ) (pc : Pc κ) (u : τ) :
    u = t ∧ (s.move t pc).pc u = pc ∨ u ≠ t ∧ (s.move t pc).pc u = s.pc u := by
  by_cases here : u = t
  · subst here
    exact Or.inl ⟨rfl,Function.update_self ..⟩
  · exact Or.inr ⟨here,Function.update_of_ne here ..⟩

def step (mutex : Mutex ℓ) (region : Region σ κ) (s : State ℓ τ σ κ) : Label τ κ → Option (State ℓ τ σ κ)
  | .call t entry =>
    match s.pc t with
    | .out => some (s.move t (.spinning entry))
    | _ => none
  | .run t =>
    match s.pc t with
    | .out => none
    | .spinning entry =>
      some {s.move t (if (mutex.attempt s.lock).2 then .inside entry entry else .spinning entry) with
        lock:=(mutex.attempt s.lock).1}
    | .inside entry now =>
      if region.finished now then
        some {s.move t .out with lock:=mutex.release s.lock,history:=s.history++[(t,entry,now)]}
      else (region.access s.shared now).map fun (shared,now) => {s.move t (.inside entry now) with shared:=shared}

variable {mutex : Mutex ℓ} {region : Region σ κ}

-- Everything a step can do.
inductive Stepped (mutex : Mutex ℓ) (region : Region σ κ) (s : State ℓ τ σ κ) : Label τ κ → State ℓ τ σ κ → Prop where
  | call : s.pc t = .out → Stepped mutex region s (.call t entry) (s.move t (.spinning entry))
  | spin : s.pc t = .spinning entry → ¬ mutex.free s.lock →
      Stepped mutex region s (.run t) {s.move t (.spinning entry) with lock:=(mutex.attempt s.lock).1}
  | enter : s.pc t = .spinning entry → mutex.free s.lock →
      Stepped mutex region s (.run t) {s.move t (.inside entry entry) with lock:=(mutex.attempt s.lock).1}
  | access : s.pc t = .inside entry now → region.finished now = false →
      region.access s.shared now = some (shared,later) →
      Stepped mutex region s (.run t) {s.move t (.inside entry later) with shared:=shared}
  | leave : s.pc t = .inside entry now → region.finished now = true →
      Stepped mutex region s (.run t)
        {s.move t .out with lock:=mutex.release s.lock,history:=s.history++[(t,entry,now)]}

theorem step_stepped {s next : State ℓ τ σ κ} {label : Label τ κ} (ran : step mutex region s label = some next) :
    Stepped mutex region s label next := by
  cases label with
  | call t entry =>
    cases here : s.pc t with
    | out =>
      simp only [step,here] at ran
      cases Option.some.inj ran
      exact .call here
    | spinning entry => simp [step,here] at ran
    | inside entry now => simp [step,here] at ran
  | run t =>
    cases here : s.pc t with
    | out => simp [step,here] at ran
    | spinning entry =>
      simp only [step,here] at ran
      cases Option.some.inj ran
      cases got : (mutex.attempt s.lock).2 with
      | true => exact .enter here ((mutex.taken _).mp got)
      | false =>
        refine .spin here ?_
        intro free
        rw [(mutex.taken _).mpr free] at got
        cases got
    | inside entry now =>
      simp only [step,here] at ran
      cases ended : region.finished now with
      | true =>
        rw [ended] at ran
        cases Option.some.inj ran
        exact .leave here ended
      | false =>
        rw [ended] at ran
        obtain ⟨⟨shared,later⟩,accessed,rfl⟩ := Option.map_eq_some_iff.mp ran
        exact .access here ended accessed

end Model

section Serial
variable {σ κ τ : Type}

-- What one thread alone makes of the data.
inductive Reaches (region : Region σ κ) : σ → κ → σ → κ → Prop where
  | refl : Reaches region a k a k
  | next : region.finished k = false → region.access a k = some (b,m) → Reaches region b m c n → Reaches region a k c n

-- The sections executed one after the other, each from its first access to its end.
inductive Serial (region : Region σ κ) : σ → List (τ × κ × κ) → σ → Prop where
  | nil : Serial region a [] a
  | snoc : Serial region a done b → Reaches region b entry c exit → region.finished exit = true →
      Serial region a (done++[(t,entry,exit)]) c

variable {region : Region σ κ}

theorem Reaches.trans (first : Reaches region a k b m) (second : Reaches region b m c n) : Reaches region a k c n := by
  induction first with
  | refl => exact second
  | next going one _ ih => exact .next going one (ih second)

theorem Reaches.snoc (ran : Reaches region a k b m) (going : region.finished m = false)
    (one : region.access b m = some (c,n)) : Reaches region a k c n :=
  ran.trans (.next going one .refl)

-- Accesses are functions, so a section that ends ends the same way from
-- wherever it stands.
theorem Reaches.rest (part : Reaches region a k b m) (whole : Reaches region a k c n) (ended : region.finished n = true) :
    Reaches region b m c n := by
  induction part with
  | refl => exact whole
  | next going one _ ih =>
    cases whole with
    | refl =>
      rw [going] at ended
      cases ended
    | next _ same rest =>
      cases Option.some.inj (one.symm.trans same)
      exact ih rest

theorem Reaches.end_unique (one : Reaches region a k b m) (other : Reaches region a k c n)
    (ended : region.finished m = true) (ended' : region.finished n = true) : b = c ∧ m = n := by
  cases one.rest other ended' with
  | refl => exact ⟨rfl,rfl⟩
  | next going _ _ =>
    rw [ended] at going
    cases going

-- Every section a thread may enter comes to its end from data that satisfies
-- `holds`, and leaves such data behind.
def Returns (region : Region σ κ) (entered : τ → κ → Prop) (holds : σ → Prop) : Prop :=
  ∀ a t k, holds a → entered t k → ∃ b m, Reaches region a k b m ∧ region.finished m = true ∧ holds b

theorem Serial.invariant {entered : τ → κ → Prop} {holds : σ → Prop} (returns : Returns region entered holds)
    (ran : Serial region first done last) (start : holds first) (entries : ∀ one ∈ done, entered one.1 one.2.1) : holds last := by
  induction ran with
  | nil => exact start
  | @snoc done b entry c exit t _ body ended ih =>
    have before := ih fun one member => entries one (List.mem_append_left _ member)
    have mine := entries (t,entry,exit) (List.mem_append_right _ (List.mem_singleton_self _))
    obtain ⟨b',m,whole,ended',kept⟩ := returns b t entry before mine
    rw [(body.end_unique whole ended ended').1]
    exact kept

end Serial

section Serialised
variable {ℓ τ σ κ : Type} {mutex : Mutex ℓ} {region : Region σ κ}

-- `base` is the data as the sections left so far made it, one after the other;
-- the section under way, if there is one, started from it.
structure Serialised (mutex : Mutex ℓ) (region : Region σ κ) (first : σ) (s : State ℓ τ σ κ) (base : σ) : Prop where
  held : ∀ t, (s.pc t).within = true → ¬ mutex.free s.lock
  owner : ¬ mutex.free s.lock → ∃ t, (s.pc t).within = true
  single : ∀ t u, (s.pc t).within = true → (s.pc u).within = true → t = u
  serial : Serial region first s.history base
  settled : mutex.free s.lock → s.shared = base
  partly : ∀ t entry now, s.pc t = .inside entry now → Reaches region base entry s.shared now

def InTurn (mutex : Mutex ℓ) (region : Region σ κ) (first : σ) (s : State ℓ τ σ κ) : Prop :=
  ∃ base, Serialised mutex region first s base

theorem start_serialised {lock : ℓ} {first : σ} (free : mutex.free lock) :
    Serialised mutex region first (start (τ:=τ) lock first) first :=
  ⟨nofun,fun taken => absurd free taken,nofun,.nil,fun _ => rfl,nofun⟩

theorem within_of_inside {pc : Pc κ} (here : pc = .inside entry now) : pc.within = true := by
  rw [here]
  rfl

theorem Serialised.alone {s : State ℓ τ σ κ} {first base : σ} (serialised : Serialised mutex region first s base)
    (here : (s.pc t).within = true) (away : u ≠ t) : (s.pc u).within = false := by
  rw [Bool.eq_false_iff]
  intro other
  exact away (serialised.single u t other here)

theorem Serialised.empty {s : State ℓ τ σ κ} {first base : σ} (serialised : Serialised mutex region first s base)
    (free : mutex.free s.lock) (u : τ) : (s.pc u).within = false := by
  rw [Bool.eq_false_iff]
  intro inside
  exact serialised.held u inside free

variable [DecidableEq τ]

-- A step that neither enters nor leaves moves one thread between places
-- outside the region.
theorem Serialised.outside {s : State ℓ τ σ κ} {first base : σ} {t : τ} {pc : Pc κ} {lock : ℓ}
    (serialised : Serialised mutex region first s base) (was : (s.pc t).within = false) (now : pc.within = false)
    (same : mutex.free lock ↔ mutex.free s.lock) : Serialised mutex region first {s.move t pc with lock:=lock} base := by
  have others : ∀ u, ((s.move t pc).pc u).within = true → (s.pc u).within = true := by
    intro u inside
    rcases move_cases s t pc u with ⟨_,here⟩ | ⟨_,there⟩
    · rw [here,now] at inside
      cases inside
    · rw [there] at inside
      exact inside
  refine ⟨?_,?_,?_,serialised.serial,?_,?_⟩
  · intro u inside free
    exact serialised.held u (others u inside) (same.mp free)
  · intro taken
    obtain ⟨u,inside⟩ := serialised.owner fun free => taken (same.mpr free)
    refine ⟨u,?_⟩
    rcases move_cases s t pc u with ⟨rfl,_⟩ | ⟨_,there⟩
    · rw [was] at inside
      cases inside
    · show ((s.move t pc).pc u).within = true
      rw [there]
      exact inside
  · intro u v first second
    exact serialised.single u v (others u first) (others v second)
  · intro free
    exact serialised.settled (same.mp free)
  · intro u entry later inside
    rcases move_cases s t pc u with ⟨_,here⟩ | ⟨_,there⟩
    · rw [← here,within_of_inside inside] at now
      cases now
    · exact serialised.partly u entry later (there.symm.trans inside)

theorem enter_serialised {s : State ℓ τ σ κ} {first base : σ} {t : τ} {entry : κ}
    (serialised : Serialised mutex region first s base) (free : mutex.free s.lock) :
    Serialised mutex region first {s.move t (.inside entry entry) with lock:=(mutex.attempt s.lock).1} base := by
  have only : ∀ u, ((s.move t (.inside entry entry)).pc u).within = true → u = t := by
    intro u inside
    rcases move_cases s t (.inside entry entry) u with ⟨same,_⟩ | ⟨_,there⟩
    · exact same
    · rw [there,serialised.empty free] at inside
      cases inside
  refine ⟨fun _ _ => mutex.kept _,?_,?_,serialised.serial,fun again => absurd again (mutex.kept _),?_⟩
  · intro _
    exact ⟨t,within_of_inside (Function.update_self ..)⟩
  · intro u v first second
    rw [only u first,only v second]
  · intro u entry' now inside
    have same := only u (within_of_inside inside)
    subst same
    cases (Function.update_self ..).symm.trans inside
    rw [← serialised.settled free]
    exact .refl

theorem access_serialised {s : State ℓ τ σ κ} {first base shared : σ} {t : τ} {entry now later : κ}
    (serialised : Serialised mutex region first s base) (here : s.pc t = .inside entry now)
    (going : region.finished now = false) (one : region.access s.shared now = some (shared,later)) :
    Serialised mutex region first {s.move t (.inside entry later) with shared:=shared} base := by
  have mine := within_of_inside here
  have only : ∀ u, ((s.move t (.inside entry later)).pc u).within = true → u = t := by
    intro u inside
    rcases move_cases s t (.inside entry later) u with ⟨same,_⟩ | ⟨away,there⟩
    · exact same
    · rw [there,serialised.alone mine away] at inside
      cases inside
  refine ⟨fun _ _ => serialised.held t mine,?_,?_,serialised.serial,fun free => absurd free (serialised.held t mine),?_⟩
  · intro _
    exact ⟨t,within_of_inside (Function.update_self ..)⟩
  · intro u v first second
    rw [only u first,only v second]
  · intro u entry' now' inside
    have same := only u (within_of_inside inside)
    subst same
    cases (Function.update_self ..).symm.trans inside
    exact (serialised.partly u entry now here).snoc going one

theorem leave_serialised {s : State ℓ τ σ κ} {first base : σ} {t : τ} {entry now : κ}
    (serialised : Serialised mutex region first s base) (here : s.pc t = .inside entry now)
    (ended : region.finished now = true) :
    Serialised mutex region first
      {s.move t .out with lock:=mutex.release s.lock,history:=s.history++[(t,entry,now)]} s.shared := by
  have nobody : ∀ u, ((s.move t .out).pc u).within = false := by
    intro u
    rcases move_cases s t .out u with ⟨_,there⟩ | ⟨away,there⟩
    · rw [there]
      rfl
    · rw [there]
      exact serialised.alone (within_of_inside here) away
  have none_inside : ∀ u, ((s.move t .out).pc u).within ≠ true := by
    intro u inside
    rw [nobody u] at inside
    cases inside
  refine ⟨fun u inside => absurd inside (none_inside u),fun taken => absurd (mutex.released _) taken,
    fun u _ inside => absurd inside (none_inside u),?_,fun _ => rfl,fun u _ _ inside => absurd (within_of_inside inside) (none_inside u)⟩
  exact .snoc serialised.serial (serialised.partly t entry now here) ended

theorem stepped_serialised {s next : State ℓ τ σ κ} {label : Label τ κ} {first base : σ}
    (serialised : Serialised mutex region first s base) (stepped : Stepped mutex region s label next) :
    InTurn mutex region first next := by
  cases stepped with
  | call out => exact ⟨base,serialised.outside (by rw [out]; rfl) rfl Iff.rfl⟩
  | spin here taken =>
    refine ⟨base,serialised.outside (by rw [here]; rfl) rfl ?_⟩
    exact ⟨fun free => absurd free (mutex.kept _),fun free => absurd free taken⟩
  | enter _ free => exact ⟨base,enter_serialised serialised free⟩
  | access here going one => exact ⟨base,access_serialised serialised here going one⟩
  | leave here ended => exact ⟨s.shared,leave_serialised serialised here ended⟩

theorem exec_inTurn {labels : List (Label τ κ)} {lock : ℓ} {first : σ} {last : State ℓ τ σ κ} (free : mutex.free lock)
    (ran : exec (step mutex region) (start lock first) labels = some last) : InTurn mutex region first last := by
  have begin : InTurn mutex region first (start (τ:=τ) lock first) := ⟨first,start_serialised free⟩
  refine exec_guarded ?_ begin along_true ran
  rintro s label next ⟨base,serialised⟩ _ one
  exact stepped_serialised serialised (step_stepped one)

end Serialised

section Progress
variable {ℓ τ σ κ : Type} {mutex : Mutex ℓ} {region : Region σ κ} {entered : τ → κ → Prop}

def Called (entered : τ → κ → Prop) : Label τ κ → Prop
  | .call t entry => entered t entry
  | .run _ => True

structure Entered (entered : τ → κ → Prop) (s : State ℓ τ σ κ) : Prop where
  spinning : ∀ t entry, s.pc t = .spinning entry → entered t entry
  inside : ∀ t entry now, s.pc t = .inside entry now → entered t entry
  past : ∀ one ∈ s.history, entered one.1 one.2.1

theorem start_entered {lock : ℓ} {first : σ} : Entered entered (start lock first) := ⟨nofun,nofun,nofun⟩

variable [DecidableEq τ]

theorem Entered.move {s : State ℓ τ σ κ} (all : Entered entered s) (t : τ) (pc : Pc κ)
    (spinning : ∀ entry, pc = .spinning entry → entered t entry)
    (inside : ∀ entry now, pc = .inside entry now → entered t entry) : Entered entered (s.move t pc) := by
  refine ⟨?_,?_,all.past⟩
  · intro u entry here
    rcases move_cases s t pc u with ⟨rfl,same⟩ | ⟨_,there⟩
    · exact spinning entry (same.symm.trans here)
    · exact all.spinning u entry (there.symm.trans here)
  · intro u entry now here
    rcases move_cases s t pc u with ⟨rfl,same⟩ | ⟨_,there⟩
    · exact inside entry now (same.symm.trans here)
    · exact all.inside u entry now (there.symm.trans here)

theorem stepped_entered {s next : State ℓ τ σ κ} {label : Label τ κ} (all : Entered entered s) (called : Called entered label)
    (stepped : Stepped mutex region s label next) : Entered entered next := by
  cases stepped with
  | call _ => exact all.move _ _ (fun _ same => by cases same; exact called) nofun
  | @spin t entry here _ =>
    have moved := all.move t (.spinning entry) (fun _ same => by cases same; exact all.spinning t entry here) nofun
    exact ⟨moved.spinning,moved.inside,moved.past⟩
  | @enter t entry here _ =>
    have moved := all.move t (.inside entry entry) nofun fun _ _ same => by cases same; exact all.spinning t entry here
    exact ⟨moved.spinning,moved.inside,moved.past⟩
  | @access t entry now shared later here _ _ =>
    have moved := all.move t (.inside entry later) nofun fun _ _ same => by cases same; exact all.inside t entry now here
    exact ⟨moved.spinning,moved.inside,moved.past⟩
  | @leave t entry now here _ =>
    have moved := all.move t .out nofun nofun
    refine ⟨moved.spinning,moved.inside,?_⟩
    intro one member
    rcases List.mem_append.mp member with old | new
    · exact all.past one old
    · rw [List.mem_singleton.mp new]
      exact all.inside t entry now here

theorem exec_entered {labels : List (Label τ κ)} {lock : ℓ} {first : σ} {last : State ℓ τ σ κ}
    (called : ∀ label ∈ labels, Called entered label)
    (ran : exec (step mutex region) (start lock first) labels = some last) : Entered entered last := by
  refine exec_guarded ?_ start_entered (along_of_forall called) ran
  intro s label next all called one
  exact stepped_entered all called (step_stepped one)

-- The thread inside, run alone, gets out.
theorem inside_leaves (mutex : Mutex ℓ) {s : State ℓ τ σ κ} {t : τ} {entry now exit : κ} {shared : σ} (here : s.pc t = .inside entry now)
    (whole : Reaches region s.shared now shared exit) (ended : region.finished exit = true) :
    ∃ count next, exec (step mutex region) s (List.replicate count (.run t)) = some next ∧ next.pc t = .out ∧
      mutex.free next.lock ∧ next.shared = shared ∧ ∀ u, u ≠ t → next.pc u = s.pc u := by
  generalize began : s.shared = a at whole
  induction whole generalizing s with
  | @refl a k =>
    let after := {s.move t .out with lock:=mutex.release s.lock,history:=s.history++[(t,entry,k)]}
    have stepped : step mutex region s (.run t) = some after := by
      simp only [step,here,ended,if_true]
      rfl
    exact ⟨1,after,exec_cons.mpr ⟨after,stepped,rfl⟩,Function.update_self ..,mutex.released _,began,
      fun u away => Function.update_of_ne away ..⟩
  | @next k a b m c n going one _ ih =>
    subst began
    let after := {s.move t (.inside entry m) with shared:=b}
    have stepped : step mutex region s (.run t) = some after := by
      simp only [step,here,going,one]
      rfl
    obtain ⟨count,next,ran,out,free,result,others⟩ := ih (s:=after) (Function.update_self ..) ended rfl
    refine ⟨count+1,next,?_,out,free,result,?_⟩
    · rw [List.replicate_succ]
      exact exec_cons.mpr ⟨after,stepped,ran⟩
    · intro u away
      rw [others u away]
      exact Function.update_of_ne away ..

-- And so does a thread at the lock, once it is free.
theorem spinning_leaves (mutex : Mutex ℓ) {s : State ℓ τ σ κ} {t : τ} {entry exit : κ} {shared : σ} (here : s.pc t = .spinning entry)
    (free : mutex.free s.lock) (whole : Reaches region s.shared entry shared exit) (ended : region.finished exit = true) :
    ∃ count next, exec (step mutex region) s (List.replicate count (.run t)) = some next ∧ next.pc t = .out := by
  let after := {s.move t (.inside entry entry) with lock:=(mutex.attempt s.lock).1}
  have stepped : step mutex region s (.run t) = some after := by
    simp only [step,here,(mutex.taken _).mpr free,if_true]
    rfl
  obtain ⟨count,next,ran,out,_⟩ := inside_leaves mutex (s:=after) (Function.update_self ..) whole ended
  refine ⟨count+1,next,?_,out⟩
  rw [List.replicate_succ]
  exact exec_cons.mpr ⟨after,stepped,ran⟩

theorem Serialised.owner_leaves {holds : σ → Prop} {first base : σ} {s : State ℓ τ σ κ} {t : τ} {entry now : κ}
    (serialised : Serialised mutex region first s base) (returns : Returns region entered holds) (sound : holds base)
    (all : Entered entered s) (here : s.pc t = .inside entry now) :
    ∃ count next, exec (step mutex region) s (List.replicate count (.run t)) = some next ∧ next.pc t = .out ∧
      mutex.free next.lock ∧ holds next.shared ∧ ∀ u, u ≠ t → next.pc u = s.pc u := by
  obtain ⟨b,exit,whole,ended,kept⟩ := returns base t entry sound (all.inside t entry now here)
  have rest := (serialised.partly t entry now here).rest whole ended
  obtain ⟨count,next,ran,out,free,result,others⟩ := inside_leaves mutex here rest ended
  exact ⟨count,next,ran,out,free,result ▸ kept,others⟩

-- Whatever the interleaving so far, any thread can still be brought out: the
-- owner first, then the thread itself.
theorem can_leave {holds : σ → Prop} {first base : σ} {s : State ℓ τ σ κ} (returns : Returns region entered holds)
    (begin : holds first) (serialised : Serialised mutex region first s base) (all : Entered entered s) (t : τ) :
    ∃ (threads : List τ) (next : State ℓ τ σ κ), exec (step mutex region) s (threads.map .run) = some next ∧ next.pc t = .out := by
  have sound : holds base := serialised.serial.invariant returns begin all.past
  cases here : s.pc t with
  | out => exact ⟨[],s,rfl,here⟩
  | inside entry now =>
    obtain ⟨count,next,ran,out,_⟩ := serialised.owner_leaves returns sound all here
    exact ⟨List.replicate count t,next,by rw [List.map_replicate]; exact ran,out⟩
  | spinning entry =>
    have may := all.spinning t entry here
    by_cases free : mutex.free s.lock
    · obtain ⟨b,exit,whole,ended,_⟩ := returns s.shared t entry (serialised.settled free ▸ sound) may
      obtain ⟨count,next,ran,out⟩ := spinning_leaves mutex here free whole ended
      exact ⟨List.replicate count t,next,by rw [List.map_replicate]; exact ran,out⟩
    · obtain ⟨u,inside⟩ := serialised.owner free
      cases there : s.pc u with
      | out => rw [there] at inside; cases inside
      | spinning _ => rw [there] at inside; cases inside
      | inside entry' now =>
        have away : t ≠ u := by
          rintro rfl
          rw [here] at there
          cases there
        obtain ⟨count,middle,ran,_,free,kept,others⟩ := serialised.owner_leaves returns sound all there
        obtain ⟨b,exit,whole,ended,_⟩ := returns middle.shared t entry kept may
        obtain ⟨count',next,ran',out⟩ := spinning_leaves mutex ((others t away).trans here) free whole ended
        refine ⟨List.replicate count u++List.replicate count' t,next,?_,out⟩
        rw [List.map_append,List.map_replicate,List.map_replicate,exec_append,ran]
        exact ran'

end Progress
end CriticalSections

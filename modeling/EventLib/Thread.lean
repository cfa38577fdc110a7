import EventLib.LabelledRuns
import Mathlib.Logic.Function.Basic

namespace EventLib.Threads
open LabelledRuns

-- `τ` names threads, never reused; `δ` addresses descriptors, which the
-- allocator may hand out again. `self` is `__thread_self`, `specific` the value
-- under `__thread_key`, `tid` the field of each allocated descriptor.
structure Table (τ δ : Type) where
  self : τ → Option δ
  specific : τ → Option δ
  tid : δ → Option τ

section Model
variable {τ δ : Type} [DecidableEq τ] [DecidableEq δ]

-- `answer` is what `alloc` returns if it is asked. The first argument says
-- whether HAVE___THREAD is defined.
def threadSelf (cached : Bool) (s : Table τ δ) (t : τ) (answer : Option δ) : Option δ × Table τ δ :=
  match if cached then s.self t else none with
  | some thrd => (some thrd,s)
  | none =>
    match s.specific t with
    | some thrd => (some thrd,s)
    | none =>
      match answer with
      | none => (none,s)
      | some thrd => (some thrd,{
          self:=if cached then Function.update s.self t (some thrd) else s.self
          specific:=Function.update s.specific t (some thrd)
          tid:=Function.update s.tid thrd (some t)})

-- What the end of a thread does through the key's destructor, which is not
-- called for NULL.
def threadFree (cached : Bool) (s : Table τ δ) (t : τ) : Table τ δ :=
  match s.specific t with
  | none => s
  | some thrd => {
      self:=if cached then Function.update s.self t none else s.self
      specific:=Function.update s.specific t none
      tid:=Function.update s.tid thrd none}

end Model

-- `loop` is a loop with the thread that ran `eventloop_init` and its `me`.
structure Process (τ δ : Type) where
  table : Table τ δ
  gone : τ → Bool
  loop : Option (τ × Option δ)

inductive Label (τ δ : Type) where
  | self (thread : τ) (answer : Option δ)
  | init (thread : τ) (answer : Option δ)
  | exit (thread : τ)

variable {τ δ : Type}

def start : Process τ δ := ⟨⟨fun _ => none,fun _ => none,fun _ => none⟩,fun _ => false,none⟩

-- The allocator hands out only what is not in use.
def Fresh (s : Table τ δ) (answer : Option δ) : Prop := ∀ thrd, answer = some thrd → s.tid thrd = none

instance (s : Table τ δ) (answer : Option δ) : Decidable (Fresh s answer) :=
  match answer with
  | none => isTrue nofun
  | some thrd =>
    match used : s.tid thrd with
    | none => isTrue fun _ same => by cases same; exact used
    | some _ => isFalse fun fresh => by have free := fresh thrd rfl; rw [used] at free; cases free

-- A descriptor in use is the value of exactly the thread it names.
def Owned (specific : τ → Option δ) (tid : δ → Option τ) : Prop := ∀ t thrd, specific t = some thrd ↔ tid thrd = some t

-- The cache, in the build that has one, agrees with the key wherever it is
-- filled; a loop's `me` is its thread's descriptor while that thread lives.
structure Sound (cached : Bool) (s : Process τ δ) : Prop where
  own : Owned s.table.specific s.table.tid
  cache : ∀ t thrd, s.table.self t = some thrd → cached = true ∧ s.table.specific t = some thrd
  gone : ∀ t, s.gone t = true → s.table.specific t = none
  loop : ∀ t thrd, s.loop = some (t,some thrd) → s.gone t = false → s.table.specific t = some thrd

theorem start_sound (cached : Bool) : Sound cached (start (τ:=τ) (δ:=δ)) := ⟨fun _ _ => ⟨nofun,nofun⟩,nofun,nofun,nofun⟩

section Runs
variable [DecidableEq τ] [DecidableEq δ] {cached : Bool}

def step (cached : Bool) (s : Process τ δ) : Label τ δ → Option (Process τ δ)
  | .self t answer =>
    if s.gone t = false ∧ Fresh s.table answer then some {s with table:=(threadSelf cached s.table t answer).2} else none
  | .init t answer =>
    if s.gone t = false ∧ Fresh s.table answer then
      some {s with table:=(threadSelf cached s.table t answer).2,loop:=some (t,(threadSelf cached s.table t answer).1)}
    else none
  | .exit t =>
    if s.gone t = false then some {s with table:=threadFree cached s.table t,gone:=Function.update s.gone t true} else none

theorem owned_enter {specific : τ → Option δ} {tid : δ → Option τ} {t : τ} {thrd : δ} (own : Owned specific tid)
    (missing : specific t = none) (unused : tid thrd = none) :
    Owned (Function.update specific t (some thrd)) (Function.update tid thrd (some t)) := by
  intro u other
  have absent : tid other ≠ some t := by
    intro owned
    rw [(own t other).mpr owned] at missing
    cases missing
  have absent' : specific u ≠ some thrd := by
    intro owned
    rw [(own u thrd).mp owned] at unused
    cases unused
  by_cases me : u = t
  · subst me
    by_cases same : other = thrd
    · simp [same]
    · simp [same,Ne.symm same,absent]
  · by_cases same : other = thrd
    · subst same
      simp [me,Ne.symm me,absent']
    · simpa [me,same] using own u other

theorem owned_remove {specific : τ → Option δ} {tid : δ → Option τ} {t : τ} {thrd : δ} (own : Owned specific tid)
    (held : specific t = some thrd) : Owned (Function.update specific t none) (Function.update tid thrd none) := by
  intro u other
  by_cases me : u = t
  · subst me
    by_cases same : other = thrd
    · simp [same]
    · have absent : tid other ≠ some u := by
        intro owned
        rw [(own u other).mpr owned] at held
        exact same (Option.some.inj held)
      simp [same,absent]
  · by_cases same : other = thrd
    · subst same
      have absent : specific u ≠ some other := by
        intro owned
        have theirs := (own u other).mp owned
        rw [(own t other).mp held] at theirs
        exact me (Option.some.inj theirs).symm
      simp [me,absent]
    · simpa [me,same] using own u other

-- Everything a call can do: find the caller's descriptor, get none, or enter a
-- new one.
inductive Called (cached : Bool) (s : Table τ δ) (t : τ) (answer : Option δ) : Option δ × Table τ δ → Prop where
  | found : s.specific t = some thrd → Called cached s t answer (some thrd,s)
  | refused : s.specific t = none → answer = none → Called cached s t answer (none,s)
  | entered : s.specific t = none → answer = some thrd → Called cached s t answer (some thrd,{
      self:=if cached then Function.update s.self t (some thrd) else s.self
      specific:=Function.update s.specific t (some thrd)
      tid:=Function.update s.tid thrd (some t)})

theorem threadSelf_called {s : Process τ δ} (sound : Sound cached s) (t : τ) (answer : Option δ) :
    Called cached s.table t answer (threadSelf cached s.table t answer) := by
  unfold threadSelf
  split
  · rename_i thrd hit
    have filled : s.table.self t = some thrd := by
      cases cached with
      | true => exact hit
      | false => cases hit
    exact .found (sound.cache t thrd filled).2
  · split
    · rename_i found
      exact .found found
    · rename_i missing
      split
      · exact .refused missing rfl
      · exact .entered missing rfl

section Call
variable {s : Process τ δ} {t : τ} {answer : Option δ} {result : Option δ × Table τ δ}

theorem called_result (called : Called cached s.table t answer result) : result.1 = (s.table.specific t).or answer := by
  cases called with
  | found found => rw [found]; rfl
  | refused missing none_ => rw [missing,none_]; rfl
  | entered missing some_ => rw [missing,some_]; rfl

theorem called_here (called : Called cached s.table t answer result) : result.2.specific t = result.1 := by
  cases called with
  | found found => exact found
  | refused missing none_ => exact missing
  | entered missing some_ => exact Function.update_self ..

theorem called_keeps (called : Called cached s.table t answer result) (held : s.table.specific u = some thrd) :
    result.2.specific u = some thrd := by
  cases called with
  | found found => exact held
  | refused missing none_ => exact held
  | entered missing some_ =>
    have away : u ≠ t := by
      rintro rfl
      rw [missing] at held
      cases held
    exact (Function.update_of_ne away ..).trans held

theorem called_sound (sound : Sound cached s) (here : s.gone t = false) (fresh : Fresh s.table answer)
    (called : Called cached s.table t answer result) : Sound cached {s with table:=result.2} := by
  cases called with
  | found found => exact sound
  | refused missing none_ => exact sound
  | @entered thrd missing some_ =>
    refine ⟨owned_enter sound.own missing (fresh thrd some_),?_,?_,?_⟩
    · intro u other hit
      by_cases me : u = t
      · subst me
        cases cached with
        | true =>
          have same : Function.update s.table.self u (some thrd) u = some other := hit
          rw [Function.update_self] at same
          exact ⟨rfl,(Function.update_self ..).trans same⟩
        | false => exact absurd (sound.cache u other hit).1 Bool.false_ne_true
      · have old : s.table.self u = some other := by
          cases cached with
          | true => exact (Function.update_of_ne me ..).symm.trans hit
          | false => exact hit
        obtain ⟨build,held⟩ := sound.cache u other old
        exact ⟨build,(Function.update_of_ne me ..).trans held⟩
    · intro u left
      have away : u ≠ t := by
        rintro rfl
        rw [here] at left
        cases left
      exact (Function.update_of_ne away ..).trans (sound.gone u left)
    · intro u other made alive
      have held := sound.loop u other made alive
      have away : u ≠ t := by
        rintro rfl
        rw [missing] at held
        cases held
      exact (Function.update_of_ne away ..).trans held

end Call

theorem free_specific (s : Table τ δ) (t u : τ) :
    (threadFree cached s t).specific u = if u = t then none else s.specific u := by
  unfold threadFree
  cases held : s.specific t with
  | none =>
    by_cases me : u = t
    · rw [if_pos me,me]
      exact held
    · rw [if_neg me]
  | some thrd =>
    by_cases me : u = t
    · rw [if_pos me,me]
      exact Function.update_self ..
    · rw [if_neg me]
      exact Function.update_of_ne me ..

theorem free_sound {s : Process τ δ} {t : τ} (sound : Sound cached s) :
    Sound cached {s with table:=threadFree cached s.table t,gone:=Function.update s.gone t true} := by
  refine ⟨?_,?_,?_,?_⟩
  · unfold threadFree
    cases held : s.table.specific t with
    | none => exact sound.own
    | some thrd => exact owned_remove sound.own held
  · intro u other hit
    have kept : u ≠ t ∧ s.table.self u = some other := by
      unfold threadFree at hit
      cases held : s.table.specific t with
      | none =>
        rw [held] at hit
        refine ⟨?_,hit⟩
        rintro rfl
        rw [(sound.cache u other hit).2] at held
        cases held
      | some thrd =>
        rw [held] at hit
        cases cached with
        | false => exact absurd (sound.cache u other hit).1 Bool.false_ne_true
        | true =>
          by_cases me : u = t
          · subst me
            cases (Function.update_self ..).symm.trans hit
          · exact ⟨me,(Function.update_of_ne me ..).symm.trans hit⟩
    obtain ⟨build,held⟩ := sound.cache u other kept.2
    refine ⟨build,?_⟩
    rw [free_specific,if_neg kept.1]
    exact held
  · intro u left
    rw [free_specific]
    split
    · rfl
    · rename_i away
      exact sound.gone u ((Function.update_of_ne away ..).symm.trans left)
  · intro u other made alive
    have away : u ≠ t := by
      rintro rfl
      cases (Function.update_self ..).symm.trans alive
    rw [free_specific,if_neg away]
    exact sound.loop u other made ((Function.update_of_ne away ..).symm.trans alive)

theorem step_sound {s next : Process τ δ} {label : Label τ δ} (sound : Sound cached s) (ran : step cached s label = some next) :
    Sound cached next := by
  cases label with
  | self t answer =>
    obtain ⟨⟨here,fresh⟩,⟨⟩⟩ := Option.ite_none_right_eq_some.mp ran
    exact called_sound sound here fresh (threadSelf_called sound t answer)
  | init t answer =>
    obtain ⟨⟨here,fresh⟩,⟨⟩⟩ := Option.ite_none_right_eq_some.mp ran
    have called := threadSelf_called sound t answer
    have after := called_sound sound here fresh called
    refine ⟨after.own,after.cache,after.gone,?_⟩
    intro u thrd made _
    obtain ⟨rfl,result⟩ := Prod.mk.inj (Option.some.inj made)
    exact (called_here called).trans result
  | exit t =>
    obtain ⟨_,⟨⟩⟩ := Option.ite_none_right_eq_some.mp ran
    exact free_sound sound

theorem exec_sound {s : Process τ δ} {labels : List (Label τ δ)} (ran : exec (step cached) start labels = some s) : Sound cached s :=
  exec_guarded (fun _ _ _ sound _ one => step_sound sound one) (start_sound cached) along_true ran

theorem step_keeps {s next : Process τ δ} {label : Label τ δ} {t : τ} {thrd : δ} (sound : Sound cached s)
    (held : s.table.specific t = some thrd) (stays : ∀ u, label = .exit u → u ≠ t) (ran : step cached s label = some next) :
    next.table.specific t = some thrd := by
  cases label with
  | self u answer =>
    obtain ⟨_,⟨⟩⟩ := Option.ite_none_right_eq_some.mp ran
    exact called_keeps (threadSelf_called sound u answer) held
  | init u answer =>
    obtain ⟨_,⟨⟩⟩ := Option.ite_none_right_eq_some.mp ran
    exact called_keeps (threadSelf_called sound u answer) held
  | exit u =>
    obtain ⟨_,⟨⟩⟩ := Option.ite_none_right_eq_some.mp ran
    show (threadFree cached s.table u).specific t = some thrd
    rw [free_specific,if_neg (Ne.symm (stays u rfl))]
    exact held

theorem exec_keeps {s last : Process τ δ} {labels : List (Label τ δ)} {t : τ} {thrd : δ} (sound : Sound cached s)
    (held : s.table.specific t = some thrd) (stays : ∀ label ∈ labels, label ≠ .exit t) (ran : exec (step cached) s labels = some last) :
    Sound cached last ∧ last.table.specific t = some thrd := by
  induction labels generalizing s with
  | nil =>
    cases Option.some.inj ran
    exact ⟨sound,held⟩
  | cons label rest ih =>
    obtain ⟨next,one,tail⟩ := exec_cons.mp ran
    obtain ⟨here,later⟩ := List.forall_mem_cons.mp stays
    refine ih (step_sound sound one) (step_keeps sound held ?_ one) later tail
    rintro u rfl same
    exact here (by rw [same])

theorem others_differ {s : Process τ δ} {t u : τ} {thrd : δ} {answer : Option δ} (sound : Sound cached s)
    (held : s.table.specific t = some thrd) (away : u ≠ t) (fresh : Fresh s.table answer) :
    (threadSelf cached s.table u answer).1 ≠ some thrd := by
  have owner := (sound.own t thrd).mp held
  rw [called_result (threadSelf_called sound u answer)]
  intro same
  cases theirs : s.table.specific u with
  | none =>
    rw [theirs] at same
    rw [fresh thrd same] at owner
    cases owner
  | some other =>
    rw [theirs] at same
    cases Option.some.inj same
    rw [(sound.own u thrd).mp theirs] at owner
    exact away (Option.some.inj owner)

theorem held_found {s : Process τ δ} {t : τ} {thrd : δ} (sound : Sound cached s) (held : s.table.specific t = some thrd)
    (answer : Option δ) : threadSelf cached s.table t answer = (some thrd,s.table) := by
  have called := threadSelf_called sound t answer
  generalize threadSelf cached s.table t answer = result at called
  cases called with
  | found found =>
    rw [held] at found
    cases found
    rfl
  | refused missing _ =>
    rw [held] at missing
    cases missing
  | entered missing _ =>
    rw [held] at missing
    cases missing

-- From the first call that gets a descriptor until the caller's end.
theorem thread_self_identifies {labels more : List (Label τ δ)} {s next last : Process τ δ} {t : τ} {answer : Option δ} {thrd : δ}
    (reached : exec (step cached) start labels = some s) (called : step cached s (.self t answer) = some next)
    (got : (threadSelf cached s.table t answer).1 = some thrd) (ran : exec (step cached) next more = some last)
    (stays : ∀ label ∈ more, label ≠ .exit t) :
    last.table.tid thrd = some t ∧ (∀ answer, threadSelf cached last.table t answer = (some thrd,last.table)) ∧
      ∀ u answer, u ≠ t → Fresh last.table answer → (threadSelf cached last.table u answer).1 ≠ some thrd := by
  have sound := exec_sound reached
  have held : next.table.specific t = some thrd := by
    obtain ⟨_,⟨⟩⟩ := Option.ite_none_right_eq_some.mp called
    exact (called_here (threadSelf_called sound t answer)).trans got
  obtain ⟨final,kept⟩ := exec_keeps (step_sound sound called) held stays ran
  exact ⟨(final.own t thrd).mp kept,held_found final kept,fun u answer away fresh => others_differ final kept away fresh⟩

-- `eventloop_apply` compares `me` with `thread_self()` to tell the loop's own
-- thread. There is a thread that has not asked for its descriptor yet.
theorem own_thread_told_iff {labels : List (Label τ δ)} {s : Process τ δ} {owner newcomer : τ} {me : Option δ}
    (reached : exec (step cached) start labels = some s) (made : s.loop = some (owner,me))
    (other : newcomer ≠ owner) (alive : s.gone newcomer = false) (blank : s.table.specific newcomer = none) :
    (∀ t answer, s.gone t = false → Fresh s.table answer → ((threadSelf cached s.table t answer).1 = me ↔ t = owner)) ↔
      me ≠ none ∧ s.gone owner = false := by
  have sound := exec_sound reached
  have results : ∀ t answer, (threadSelf cached s.table t answer).1 = (s.table.specific t).or answer := fun t answer =>
    called_result (threadSelf_called sound t answer)
  constructor
  · intro told
    have filled : me ≠ none := by
      rintro rfl
      have stray := (told newcomer none alive nofun).mp (by rw [results,blank]; rfl)
      exact other stray
    refine ⟨filled,?_⟩
    rw [← Bool.not_eq_true]
    intro left
    obtain ⟨thrd,rfl⟩ := Option.ne_none_iff_exists'.mp filled
    cases holder : s.table.tid thrd with
    | none =>
      -- the address of the dead thread's descriptor is handed out again
      have fresh : Fresh s.table (some thrd) := fun _ same => by cases same; exact holder
      exact other ((told newcomer (some thrd) alive fresh).mp (by rw [results,blank]; rfl))
    | some u =>
      have theirs := (sound.own u thrd).mpr holder
      have there : s.gone u = false := by
        rw [← Bool.not_eq_true]
        intro dead
        rw [sound.gone u dead] at theirs
        cases theirs
      have same := (told u none there nofun).mp (by rw [results,theirs]; rfl)
      rw [same,left] at there
      cases there
  · rintro ⟨filled,there⟩ t answer _ fresh
    obtain ⟨thrd,rfl⟩ := Option.ne_none_iff_exists'.mp filled
    have held := sound.loop owner thrd made there
    constructor
    · intro same
      by_contra away
      exact others_differ sound held away fresh same
    · rintro rfl
      rw [held_found sound held]

-- The process as the build without the cache has it.
def uncached (s : Process τ δ) : Process τ δ := {s with table:={s.table with self:=fun _ => none}}

theorem threadSelf_uncached {s : Process τ δ} (sound : Sound true s) (t : τ) (answer : Option δ) :
    threadSelf false (uncached s).table t answer =
      ((threadSelf true s.table t answer).1,{(threadSelf true s.table t answer).2 with self:=fun _ => none}) := by
  have called := threadSelf_called sound t answer
  generalize threadSelf true s.table t answer = result at called
  cases called with
  | found found => simp [threadSelf,uncached,found]
  | refused missing none_ => simp [threadSelf,uncached,missing,none_]
  | entered missing some_ => simp [threadSelf,uncached,missing,some_]

theorem threadFree_uncached (s : Process τ δ) (t : τ) :
    threadFree false (uncached s).table t = {threadFree true s.table t with self:=fun _ => none} := by
  unfold threadFree
  cases held : s.table.specific t with
  | none => simp [uncached,held]
  | some thrd => simp [uncached,held]

theorem step_uncached {s : Process τ δ} (sound : Sound true s) (label : Label τ δ) :
    (step true s label).map uncached = step false (uncached s) label := by
  cases label with
  | self t answer =>
    simp only [step,threadSelf_uncached sound]
    by_cases may : s.gone t = false ∧ Fresh s.table answer
    · rw [if_pos may,if_pos (show (uncached s).gone t = false ∧ Fresh (uncached s).table answer from may)]
      rfl
    · rw [if_neg may,if_neg (show ¬((uncached s).gone t = false ∧ Fresh (uncached s).table answer) from may)]
      rfl
  | init t answer =>
    simp only [step,threadSelf_uncached sound]
    by_cases may : s.gone t = false ∧ Fresh s.table answer
    · rw [if_pos may,if_pos (show (uncached s).gone t = false ∧ Fresh (uncached s).table answer from may)]
      rfl
    · rw [if_neg may,if_neg (show ¬((uncached s).gone t = false ∧ Fresh (uncached s).table answer) from may)]
      rfl
  | exit t =>
    simp only [step,threadFree_uncached]
    by_cases may : s.gone t = false
    · rw [if_pos may,if_pos (show (uncached s).gone t = false from may)]
      rfl
    · rw [if_neg may,if_neg (show ¬(uncached s).gone t = false from may)]
      rfl

theorem exec_uncached {s : Process τ δ} (sound : Sound true s) (labels : List (Label τ δ)) :
    (exec (step true) s labels).map uncached = exec (step false) (uncached s) labels := by
  induction labels generalizing s with
  | nil => rfl
  | cons label rest ih =>
    simp only [exec,← step_uncached sound label]
    cases one : step true s label with
    | none => rfl
    | some next => exact ih (step_sound sound one)

-- With and without `__thread`, any run answers every call alike.
theorem cache_transparent (labels : List (Label τ δ)) :
    (exec (step true) start labels).map uncached = exec (step false) (start (τ:=τ) (δ:=δ)) labels ∧
    ∀ s, exec (step true) start labels = some s → ∀ t answer,
      (threadSelf false (uncached s).table t answer).1 = (threadSelf true s.table t answer).1 := by
  refine ⟨exec_uncached (start_sound true) labels,?_⟩
  intro s ran t answer
  rw [threadSelf_uncached (exec_sound ran)]

end Runs

-- The main thread makes a loop; thread 1 gets its descriptor after thread 2,
-- which had the same address, has ended.
def succession : List (Label Nat Nat) := [.init 0 (some 10),.self 2 (some 11),.self 2 none,.exit 2]

-- After that a third thread comes and goes, and its address is offered to thread 1.
def aftermath : List (Label Nat Nat) := [.self 1 none,.self 3 (some 12),.self 0 none,.exit 3,.self 1 (some 12)]

theorem succession_identifies : ∃ s next last, exec (step true) start succession = some s ∧
    step true s (.self 1 (some 11)) = some next ∧ exec (step true) next aftermath = some last ∧ last.table.tid 11 = some 1 ∧
    threadSelf true last.table 1 (some 12) = (some 11,last.table) ∧ (threadSelf true last.table 0 none).1 ≠ some 11 := by
  have seen : (exec (step true) start succession).bind (fun s => (step true s (.self 1 (some 11))).bind fun next =>
      (exec (step true) next aftermath).map fun _ => (threadSelf true s.table 1 (some 11)).1) = some (some 11) := by decide
  obtain ⟨s,ran,rest⟩ := Option.bind_eq_some_iff.mp seen
  obtain ⟨next,called,rest⟩ := Option.bind_eq_some_iff.mp rest
  obtain ⟨last,more,got⟩ := Option.map_eq_some_iff.mp rest
  obtain ⟨owner,again,others⟩ := thread_self_identifies ran called got more (by simp [aftermath])
  exact ⟨s,next,last,ran,called,more,owner,again (some 12),others 0 none (by decide) nofun⟩

theorem succession_told : ∃ s, exec (step true) start succession = some s ∧
    ∀ t answer, s.gone t = false → Fresh s.table answer → ((threadSelf true s.table t answer).1 = some 10 ↔ t = 0) := by
  have seen : (exec (step true) start succession).map (fun s => (s.loop,s.gone 0,s.gone 1,s.table.specific 1)) =
      some (some (0,some 10),false,false,none) := by decide
  obtain ⟨s,ran,same⟩ := Option.map_eq_some_iff.mp seen
  simp only [Prod.mk.injEq] at same
  obtain ⟨made,there,alive,blank⟩ := same
  exact ⟨s,ran,(own_thread_told_iff ran made (show 1 ≠ 0 by decide) alive blank).mpr ⟨nofun,there⟩⟩

end EventLib.Threads

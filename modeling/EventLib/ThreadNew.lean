import EventLib.LabelledRuns

namespace EventLib.ThreadNew
open LabelledRuns

-- The caller of `thread_new`: before `pthread_create`, at the spin on
-- `arg.thrd`, with the `snprintf` ahead, with the return ahead, returned.
inductive Parent (δ : Type) where
  | creating
  | spinning
  | naming (thrd : δ)
  | leaving (thrd : δ)
  | returned (thrd : δ)
deriving DecidableEq

-- `thread_boot`: not there, before `thread_self()`, before the store of its
-- result, before each of the two loads of the call, in the call, at its end.
-- `self` is the result; a load from a dead frame gives nothing known.
inductive Child (δ ρ υ : Type) where
  | absent
  | booting
  | storing (self : Option δ)
  | fetching (self : Option δ)
  | calling (self : Option δ) (runable : Option ρ)
  | running (self : Option δ) (runable : Option ρ) (ud : Option υ)
  | ended (self : Option δ)
deriving DecidableEq

structure Arg (δ ρ υ : Type) where
  thrd : Option δ
  runable : ρ
  ud : υ
deriving DecidableEq

-- `arg` lies in the caller's frame and is gone once it returned; `live` is the
-- child's descriptor while allocated. `broken` marks an access to a dead frame
-- or to a freed descriptor.
structure State (δ ρ υ : Type) where
  arg : Option (Arg δ ρ υ)
  parent : Parent δ
  child : Child δ ρ υ
  live : Option δ
  broken : Bool
deriving DecidableEq

inductive Label (δ : Type) where
  | create (ok : Bool)
  | spin
  | name
  | leave
  | self (answer : Option δ)
  | store
  | fetchRunable
  | fetchUd
  | finish
deriving DecidableEq

variable {δ ρ υ : Type}

def start (runable : ρ) (ud : υ) : State δ ρ υ := ⟨some ⟨none,runable,ud⟩,.creating,.absent,none,false⟩

-- `none` is a label the two threads are not at. `pthread_create`'s result is
-- not looked at; NULL in `arg.thrd` keeps the caller spinning.
def step (s : State δ ρ υ) : Label δ → Option (State δ ρ υ)
  | .create ok => match s.parent with
    | .creating => some {s with parent:=.spinning,child:=if ok then .booting else .absent}
    | _ => none
  | .spin => match s.parent with
    | .spinning => some {s with parent:=(s.arg.bind Arg.thrd).elim .spinning .naming}
    | _ => none
  | .name => match s.parent with
    | .naming thrd => some {s with parent:=.leaving thrd,broken:=s.broken || s.live.isNone}
    | _ => none
  | .leave => match s.parent with
    | .leaving thrd => some {s with parent:=.returned thrd,arg:=none}
    | _ => none
  | .self answer => match s.child with
    | .booting => some {s with child:=.storing answer,live:=answer}
    | _ => none
  | .store => match s.child with
    | .storing self => some {s with
        child:=.fetching self,arg:=s.arg.map fun arg => {arg with thrd:=self},broken:=s.broken || s.arg.isNone}
    | _ => none
  | .fetchRunable => match s.child with
    | .fetching self => some {s with child:=.calling self (s.arg.map Arg.runable),broken:=s.broken || s.arg.isNone}
    | _ => none
  | .fetchUd => match s.child with
    | .calling self runable => some {s with
        child:=.running self runable (s.arg.map Arg.ud),broken:=s.broken || s.arg.isNone}
    | _ => none
  | .finish => match s.child with
    | .running self _ _ => some {s with child:=.ended self,live:=none}
    | _ => none

inductive Stepped (s : State δ ρ υ) : Label δ → State δ ρ υ → Prop where
  | create : s.parent = .creating →
      Stepped s (.create ok) {s with parent:=.spinning,child:=if ok then .booting else .absent}
  | spin : s.parent = .spinning → Stepped s .spin {s with parent:=(s.arg.bind Arg.thrd).elim .spinning .naming}
  | name : s.parent = .naming thrd →
      Stepped s .name {s with parent:=.leaving thrd,broken:=s.broken || s.live.isNone}
  | leave : s.parent = .leaving thrd → Stepped s .leave {s with parent:=.returned thrd,arg:=none}
  | self : s.child = .booting → Stepped s (.self answer) {s with child:=.storing answer,live:=answer}
  | store : s.child = .storing self → Stepped s .store {s with
      child:=.fetching self,arg:=s.arg.map fun arg => {arg with thrd:=self},broken:=s.broken || s.arg.isNone}
  | fetchRunable : s.child = .fetching self → Stepped s .fetchRunable {s with
      child:=.calling self (s.arg.map Arg.runable),broken:=s.broken || s.arg.isNone}
  | fetchUd : s.child = .calling self runable → Stepped s .fetchUd {s with
      child:=.running self runable (s.arg.map Arg.ud),broken:=s.broken || s.arg.isNone}
  | finish : s.child = .running self runable ud → Stepped s .finish {s with child:=.ended self,live:=none}

theorem step_stepped {s next : State δ ρ υ} {label : Label δ} (ran : step s label = some next) : Stepped s label next := by
  cases label with
  | create ok =>
    cases here : s.parent <;> simp only [step,here] at ran <;> cases ran
    exact .create here
  | spin =>
    cases here : s.parent <;> simp only [step,here] at ran <;> cases ran
    exact .spin here
  | name =>
    cases here : s.parent <;> simp only [step,here] at ran <;> cases ran
    exact .name here
  | leave =>
    cases here : s.parent <;> simp only [step,here] at ran <;> cases ran
    exact .leave here
  | self answer =>
    cases here : s.child <;> simp only [step,here] at ran <;> cases ran
    exact .self here
  | store =>
    cases here : s.child <;> simp only [step,here] at ran <;> cases ran
    exact .store here
  | fetchRunable =>
    cases here : s.child <;> simp only [step,here] at ran <;> cases ran
    exact .fetchRunable here
  | fetchUd =>
    cases here : s.child <;> simp only [step,here] at ran <;> cases ran
    exact .fetchUd here
  | finish =>
    cases here : s.child <;> simp only [step,here] at ran <;> cases ran
    exact .finish here

-- The value the child has stored in `arg.thrd`, once it has.
def Child.told : Child δ ρ υ → Option δ
  | .fetching self | .calling self _ | .running self _ _ | .ended self => self
  | _ => none

def Child.gone : Child δ ρ υ → Bool
  | .ended _ => true
  | _ => false

def Parent.holds : Parent δ → Option δ
  | .naming thrd | .leaving thrd | .returned thrd => some thrd
  | _ => none

def Parent.away : Parent δ → Bool
  | .returned _ => true
  | _ => false

-- The caller knows of the descriptor only through the child's store, and
-- returns only with it.
structure Coherent (s : State δ ρ υ) : Prop where
  waits : s.parent = .creating → s.child = .absent
  told : s.arg.isSome = true → s.arg.bind Arg.thrd = s.child.told
  holds : ∀ thrd, s.parent.holds = some thrd → s.child.told = some thrd
  frame : s.arg.isNone = s.parent.away
  stores : ∀ self, s.child = .storing self → s.live = self
  live : ∀ thrd, s.child.told = some thrd → s.live.isNone = s.child.gone

theorem start_coherent (runable : ρ) (ud : υ) : Coherent (start (δ:=δ) runable ud) :=
  ⟨fun _ => rfl,fun _ => rfl,nofun,rfl,nofun,nofun⟩

theorem Coherent.present {s : State δ ρ υ} (coherent : Coherent s) (stays : s.parent.away = false) : s.arg.isSome = true := by
  rw [← Option.not_isNone,coherent.frame,stays]
  rfl

theorem Coherent.born {s : State δ ρ υ} (coherent : Coherent s) (there : s.child ≠ .absent) : s.parent ≠ .creating :=
  fun creating => there (coherent.waits creating)

-- A child that has stored nothing yet leaves the caller at the spin at most.
theorem Coherent.unknown {s : State δ ρ υ} (coherent : Coherent s) (nothing : s.child.told = none) :
    s.parent.holds = none ∧ s.arg.isSome = true := by
  have holds : s.parent.holds = none := by
    cases held : s.parent.holds with
    | none => rfl
    | some thrd =>
      rw [coherent.holds thrd held] at nothing
      cases nothing
  refine ⟨holds,coherent.present ?_⟩
  cases place : s.parent with
  | returned thrd =>
    rw [place] at holds
    cases holds
  | _ => rfl

-- The child goes on after its store.
theorem Coherent.proceed {s : State δ ρ υ} (coherent : Coherent s) {child : Child δ ρ υ} {broken : Bool} (there : s.child ≠ .absent)
    (told : child.told = s.child.told) (ended : child.gone = s.child.gone) (past : ∀ self, child ≠ .storing self) :
    Coherent {s with child:=child,broken:=broken} := by
  refine ⟨fun creating => absurd creating (coherent.born there),?_,?_,coherent.frame,fun self same => absurd same (past self),?_⟩
  · intro present
    exact (coherent.told present).trans told.symm
  · intro thrd held
    exact told.trans (coherent.holds thrd held)
  · intro thrd same
    exact (coherent.live thrd (told.symm.trans same)).trans ended.symm

theorem step_coherent {s next : State δ ρ υ} {label : Label δ} (coherent : Coherent s) (stepped : Stepped s label next) :
    Coherent next := by
  cases stepped with
  | @create ok here =>
    have absent := coherent.waits here
    have told := coherent.told
    have frame := coherent.frame
    rw [absent] at told
    rw [here] at frame
    cases ok <;> exact ⟨nofun,told,nofun,frame,nofun,nofun⟩
  | spin here =>
    have frame := coherent.frame
    rw [here] at frame
    have told := coherent.told (coherent.present (by rw [here]; rfl))
    cases seen : s.arg.bind Arg.thrd with
    | none => exact ⟨nofun,coherent.told,nofun,frame,coherent.stores,coherent.live⟩
    | some thrd =>
      refine ⟨nofun,coherent.told,?_,frame,coherent.stores,coherent.live⟩
      intro other same
      cases Option.some.inj same
      exact told.symm.trans seen
  | name here =>
    have holds := coherent.holds
    have frame := coherent.frame
    rw [here] at holds frame
    exact ⟨nofun,coherent.told,holds,frame,coherent.stores,coherent.live⟩
  | leave here =>
    have holds := coherent.holds
    rw [here] at holds
    exact ⟨nofun,nofun,holds,rfl,coherent.stores,coherent.live⟩
  | self here =>
    have told := coherent.told
    obtain ⟨holds,_⟩ := coherent.unknown (by rw [here]; rfl)
    rw [here] at told
    refine ⟨fun creating => absurd creating (coherent.born (by rw [here]; nofun)),told,?_,coherent.frame,
      fun self same => by cases same; rfl,nofun⟩
    intro thrd held
    cases holds.symm.trans held
  | @store self here =>
    obtain ⟨holds,present⟩ := coherent.unknown (by rw [here]; rfl)
    have live := coherent.stores self here
    refine ⟨fun creating => absurd creating (coherent.born (by rw [here]; nofun)),?_,?_,?_,nofun,?_⟩
    · intro _
      obtain ⟨arg,same⟩ := Option.isSome_iff_exists.mp present
      rw [same]
      rfl
    · intro thrd held
      cases holds.symm.trans held
    · rw [Option.isNone_map]
      exact coherent.frame
    · intro thrd same
      rw [live,show self = some thrd from same]
      rfl
  | fetchRunable here => exact coherent.proceed (by rw [here]; nofun) (by rw [here]; rfl) (by rw [here]; rfl) nofun
  | fetchUd here => exact coherent.proceed (by rw [here]; nofun) (by rw [here]; rfl) (by rw [here]; rfl) nofun
  | finish here =>
    have told := coherent.told
    have holds := coherent.holds
    rw [here] at told holds
    exact ⟨fun creating => absurd creating (coherent.born (by rw [here]; nofun)),told,holds,coherent.frame,nofun,fun _ _ => rfl⟩

theorem exec_coherent {s last : State δ ρ υ} {labels : List (Label δ)} (coherent : Coherent s) (ran : exec step s labels = some last) :
    Coherent last :=
  exec_guarded (fun _ _ _ coherent _ one => step_coherent coherent (step_stepped one)) coherent along_true ran

-- No descriptor will ever be stored: there is no child, or it has none.
structure Stuck (s : State δ ρ υ) : Prop where
  coherent : Coherent s
  parent : s.parent = .spinning
  nothing : s.child = .absent ∨ s.child = .storing none ∨ s.child ≠ .absent ∧ s.child ≠ .booting ∧
    (∀ self, s.child ≠ .storing self) ∧ s.child.told = none

theorem step_stuck {s next : State δ ρ υ} {label : Label δ} (stuck : Stuck s) (stepped : Stepped s label next) : Stuck next := by
  have coherent := step_coherent stuck.coherent stepped
  have place := stuck.parent
  have told : s.child.told = none := by
    rcases stuck.nothing with absent | storing | ⟨_,_,_,told⟩
    · rw [absent]; rfl
    · rw [storing]; rfl
    · exact told
  cases stepped with
  | create here => rw [place] at here; cases here
  | name here => rw [place] at here; cases here
  | leave here => rw [place] at here; cases here
  | spin here =>
    have unseen : s.arg.bind Arg.thrd = none :=
      (stuck.coherent.told (stuck.coherent.unknown told).2).trans told
    refine ⟨coherent,?_,stuck.nothing⟩
    show (s.arg.bind Arg.thrd).elim Parent.spinning Parent.naming = .spinning
    rw [unseen]
    rfl
  | self here =>
    rcases stuck.nothing with absent | storing | ⟨_,booting,_⟩
    · rw [absent] at here; cases here
    · rw [storing] at here; cases here
    · exact absurd here booting
  | @store self here =>
    refine ⟨coherent,place,Or.inr (Or.inr ⟨nofun,nofun,nofun,?_⟩)⟩
    rcases stuck.nothing with absent | storing | ⟨_,_,past,_⟩
    · rw [absent] at here; cases here
    · rw [storing] at here
      cases here
      rfl
    · exact absurd here (past self)
  | fetchRunable here =>
    rw [here] at told
    exact ⟨coherent,place,Or.inr (Or.inr ⟨nofun,nofun,nofun,told⟩)⟩
  | fetchUd here =>
    rw [here] at told
    exact ⟨coherent,place,Or.inr (Or.inr ⟨nofun,nofun,nofun,told⟩)⟩
  | finish here =>
    rw [here] at told
    exact ⟨coherent,place,Or.inr (Or.inr ⟨nofun,nofun,nofun,told⟩)⟩

def Hopeless (label : Label δ) : Prop := label = .create false ∨ label = .self none

theorem hopeless_stuck {s next : State δ ρ υ} {label : Label δ} (coherent : Coherent s) (hopeless : Hopeless label)
    (stepped : Stepped s label next) : Stuck next := by
  have after := step_coherent coherent stepped
  rcases hopeless with rfl | rfl
  · cases stepped with
    | create here => exact ⟨after,rfl,Or.inl rfl⟩
  · cases stepped with
    | self here =>
      refine ⟨after,?_,Or.inr (Or.inl rfl)⟩
      obtain ⟨holds,_⟩ := coherent.unknown (by rw [here]; rfl)
      cases place : s.parent with
      | spinning => rfl
      | creating =>
        rw [coherent.waits place] at here
        cases here
      | _ => rw [place] at holds; cases holds

-- `thread_new` returns the descriptor its child allocated for itself and
-- nothing else; it never returns if there is no child or no descriptor.
theorem thread_new_returns {runable : ρ} {ud : υ} {labels : List (Label δ)} {s : State δ ρ υ}
    (ran : exec step (start runable ud) labels = some s) :
    (∀ thrd, s.parent = .returned thrd → s.child.told = some thrd) ∧
    ((∃ label ∈ labels, Hopeless label) → s.parent = .spinning) := by
  refine ⟨?_,?_⟩
  · intro thrd returned
    exact (exec_coherent (start_coherent runable ud) ran).holds thrd (by rw [returned]; rfl)
  · rintro ⟨label,member,hopeless⟩
    obtain ⟨before,after,rfl⟩ := List.append_of_mem member
    rw [exec_append] at ran
    obtain ⟨middle,first,rest⟩ := Option.bind_eq_some_iff.mp ran
    obtain ⟨next,one,tail⟩ := exec_cons.mp rest
    have stuck := hopeless_stuck (exec_coherent (start_coherent runable ud) first) hopeless (step_stepped one)
    have still : Stuck s := exec_guarded (fun _ _ _ stuck _ one => step_stuck stuck (step_stepped one)) stuck along_true tail
    exact still.parent

-- The child fetches what to run while the caller is still in `thread_new`, and
-- the caller writes the name while the child has not ended.
def Safe (s : State δ ρ υ) : Label δ → Prop
  | .fetchRunable | .fetchUd => s.parent.away = false
  | .name => s.child.gone = false
  | _ => True

theorem step_broken {s next : State δ ρ υ} {label : Label δ} (coherent : Coherent s) (stepped : Stepped s label next) :
    next.broken = false ↔ s.broken = false ∧ Safe s label := by
  have frame := coherent.frame
  cases stepped with
  | create _ => simp [Safe]
  | spin _ => simp [Safe]
  | leave _ => simp [Safe]
  | self _ => simp [Safe]
  | finish _ => simp [Safe]
  | store here =>
    obtain ⟨_,present⟩ := coherent.unknown (by rw [here]; rfl)
    simp [Safe,present]
  | fetchRunable _ => simp only [Safe,frame,Bool.or_eq_false_iff]
  | fetchUd _ => simp only [Safe,frame,Bool.or_eq_false_iff]
  | @name thrd here =>
    have told := coherent.holds thrd (by rw [here]; rfl)
    simp only [Safe,coherent.live thrd told,Bool.or_eq_false_iff]

theorem exec_broken {s last : State δ ρ υ} {labels : List (Label δ)} (coherent : Coherent s) (ran : exec step s labels = some last) :
    last.broken = false ↔ s.broken = false ∧ Along step Safe s labels := by
  induction labels generalizing s with
  | nil =>
    cases Option.some.inj ran
    exact ⟨fun same => ⟨same,trivial⟩,fun both => both.1⟩
  | cons label rest ih =>
    obtain ⟨next,one,tail⟩ := exec_cons.mp ran
    have stepped := step_stepped one
    rw [ih (step_coherent coherent stepped) tail,step_broken coherent stepped,along_cons one,and_assoc]

-- What the child has fetched, as long as nothing was broken on the way.
structure Serves (runable : ρ) (ud : υ) (s : State δ ρ υ) : Prop where
  kept : ∀ arg, s.arg = some arg → arg.runable = runable ∧ arg.ud = ud
  calls : s.broken = false → ∀ self got, s.child = .calling self got → got = some runable
  runs : s.broken = false → ∀ self got given, s.child = .running self got given → got = some runable ∧ given = some ud

theorem Serves.fetched {runable : ρ} {ud : υ} {s : State δ ρ υ} (serves : Serves runable ud s)
    (sound : (s.broken || s.arg.isNone) = false) :
    s.broken = false ∧ s.arg.map Arg.runable = some runable ∧ s.arg.map Arg.ud = some ud := by
  obtain ⟨whole,present⟩ := Bool.or_eq_false_iff.mp sound
  cases held : s.arg with
  | none =>
    rw [held] at present
    cases present
  | some arg =>
    obtain ⟨runs,with_⟩ := serves.kept arg held
    exact ⟨whole,congrArg some runs,congrArg some with_⟩

theorem step_serves {runable : ρ} {ud : υ} {s next : State δ ρ υ} {label : Label δ} (serves : Serves runable ud s)
    (stepped : Stepped s label next) : Serves runable ud next := by
  cases stepped with
  | @create ok here => cases ok <;> exact ⟨serves.kept,nofun,nofun⟩
  | spin here => exact ⟨serves.kept,serves.calls,serves.runs⟩
  | name here =>
    refine ⟨serves.kept,?_,?_⟩
    · intro sound
      exact serves.calls (Bool.or_eq_false_iff.mp sound).1
    · intro sound
      exact serves.runs (Bool.or_eq_false_iff.mp sound).1
  | leave here => exact ⟨nofun,serves.calls,serves.runs⟩
  | self here => exact ⟨serves.kept,nofun,nofun⟩
  | store here =>
    refine ⟨?_,nofun,nofun⟩
    intro arg stored
    obtain ⟨old,held,rfl⟩ := Option.map_eq_some_iff.mp stored
    exact serves.kept old held
  | fetchRunable here =>
    refine ⟨serves.kept,?_,nofun⟩
    intro sound self got same
    cases same
    exact (serves.fetched sound).2.1
  | fetchUd here =>
    refine ⟨serves.kept,nofun,?_⟩
    intro sound self got given same
    cases same
    obtain ⟨whole,_,with_⟩ := serves.fetched sound
    exact ⟨serves.calls whole _ _ here,with_⟩
  | finish here => exact ⟨serves.kept,nofun,nofun⟩

def orderly : List (Label Nat) := [.create true,.spin,.self (some 5),.store,.fetchRunable,.fetchUd,.spin,.name,.leave]

theorem orderly_returns : ∃ s, exec step (start 'f' 'x') orderly = some s ∧ s.parent = .returned 5 ∧ s.child.told = some 5 := by
  have seen : (exec step (start 'f' 'x') orderly).map (fun s => s.parent) = some (.returned 5) := by decide
  obtain ⟨s,ran,returned⟩ := Option.map_eq_some_iff.mp seen
  exact ⟨s,ran,returned,(thread_new_returns ran).1 5 returned⟩

end EventLib.ThreadNew

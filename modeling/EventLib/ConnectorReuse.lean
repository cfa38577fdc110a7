import EventLib.Connector

namespace EventLib.ConnectorReuse
open Events Epoll LabelledRuns Errnos
open Eventloops hiding Action Session step start
open Connectors hiding Action Session step

-- One connector is used again and again on a loop with other events: sockets made
-- in its callback, listeners, other connectors.
inductive Action (π τ : Type) where
  | connect (thread : τ) (a : Attempt)
  | init (ev : π) (fd : Int) (mask : UInt32)
  | apply (thread : τ) (ev : π) (mask : UInt32) (faults : Faults)
  | deliver (fd : Int) (events : UInt32)
  | drain (fuel : Nat) (faults : Nat → Faults)

variable {π τ : Type}

def step [DecidableEq π] [DecidableEq τ] (conct : π) (loop : Eventloop π τ) : Action π τ → Option (Eventloop π τ)
  | .connect thread a => (connectorConnect loop thread conct a).map Prod.snd
  | .init ev fd mask => if ev = conct then none else some (setEvent loop ev fun _ => eventInit fd mask)
  | .apply thread ev mask faults =>
    if ev = conct then none else
    (eventloopApply (setEvent loop ev fun e => {e with mask:=mask}) thread ev faults).map Prod.snd
  | .deliver fd events => (loop.poll.interest fd).map fun entry => setEvent loop entry.2 fun e => eventpollDeliver e events
  | .drain fuel faults => (panding fuel faults loop).map Prod.snd

-- `_connector_dispatch` asks about `ev->fd`: it has to be the descriptor that
-- became ready.
def Attributed (conct : π) (loop : Eventloop π τ) : Prop :=
  ∀ fd want, loop.poll.interest fd = some (want,conct) → (loop.heap conct).fd = fd

-- An attempt in progress begins when no earlier descriptor is left with the connector.
def Fresh (conct : π) (loop : Eventloop π τ) : Action π τ → Prop
  | .connect _ a => InProgress a → ∀ fd want, loop.poll.interest fd = some (want,conct) → fd = a.fd
  | _ => True

section Loop
variable [DecidableEq π] {conct ev : π} {loop after : Eventloop π τ} {faults : Faults} {thread : τ}

theorem pollApply_fd (other : π) : ((pollApply loop ev faults).2.heap other).fd = (loop.heap other).fd := by
  simp only [pollApply]
  by_cases same : other = ev
  · rw [same,Function.update_self]
    exact eventpollApply_fd ..
  · rw [Function.update_of_ne same]

theorem pollApply_attributed (attributed : Attributed conct loop) : Attributed conct (pollApply loop ev faults).2 := by
  intro fd want there
  rw [pollApply_fd]
  rcases eventpollApply_found there with ⟨rfl,here,_⟩ | old
  · exact here.symm
  · exact attributed fd want old

theorem applyPanding_kept (handed : applyPanding loop ev = some after) :
    after.poll = loop.poll ∧ ∀ other, (after.heap other).fd = (loop.heap other).fd := by
  rw [applyPanding] at handed
  split at handed
  · cases Option.some.inj handed
    exact ⟨rfl,fun _ => rfl⟩
  · obtain ⟨tail,_,rfl⟩ := Option.map_eq_some_iff.mp handed
    refine ⟨rfl,?_⟩
    intro other
    by_cases same : other = tail
    · simp only [same,Function.update_self]
    · simp only [Function.update_of_ne same]

theorem setEvent_attributed {change : Event π → Event π} (attributed : Attributed conct loop)
    (named : ev ≠ conct ∨ (change (loop.heap conct)).fd = (loop.heap conct).fd) : Attributed conct (setEvent loop ev change) := by
  intro fd want there
  have before := attributed fd want there
  by_cases same : ev = conct
  · subst same
    rw [setEvent_here]
    exact (named.resolve_left fun away => away rfl).trans before
  · rw [setEvent_other (Ne.symm same)]
    exact before

theorem pandingLoop_attributed {fuel : Nat} {faults : Nat → Faults} {at_ : Option π} {applied : List π}
    (attributed : Attributed conct loop) (ran : pandingLoop fuel faults loop at_ = some (applied,after)) :
    Attributed conct after := by
  induction fuel generalizing faults loop at_ applied with
  | zero => cases ran
  | succ fuel ih =>
    cases at_ with
    | none =>
      cases Option.some.inj ran
      exact attributed
    | some ev =>
      simp only [pandingLoop] at ran
      obtain ⟨⟨rest,last⟩,looped,same⟩ := Option.bind_eq_some_iff.mp ran
      cases Option.some.inj same
      have begun : Attributed conct {loop with pandings:=(loop.heap ev).next} := attributed
      exact ih (pollApply_attributed begun) looped

-- Entries of the connector's event come from before, or name its descriptor; away
-- from the descriptor of the applied event nothing changes.
structure Kept (conct ev : π) (loop after : Eventloop π τ) : Prop where
  fd : (after.heap conct).fd = (loop.heap conct).fd
  found : ∀ fd want, after.poll.interest fd = some (want,conct) →
    (ev = conct ∧ fd = (loop.heap ev).fd) ∨ loop.poll.interest fd = some (want,conct)
  elsewhere : ∀ fd, fd ≠ (loop.heap ev).fd → after.poll.interest fd = loop.poll.interest fd

variable [DecidableEq τ]

theorem eventloopApply_kept (conct : π) {ret : Int} (ran : eventloopApply loop thread ev faults = some (ret,after)) :
    Kept conct ev loop after ∧ (loop.pandings = loop.pandingsTail → after.pandings = after.pandingsTail) := by
  unfold eventloopApply at ran
  split at ran
  · cases Option.some.inj ran
    refine ⟨⟨pollApply_fd conct,?_,fun fd away => eventpollApply_elsewhere away⟩,fun level => level⟩
    intro fd want there
    rcases eventpollApply_found there with ⟨same,here,_⟩ | old
    · exact Or.inl ⟨same.symm,here⟩
    · exact Or.inr old
  · obtain ⟨handed,linked,same⟩ := Option.map_eq_some_iff.mp ran
    cases same
    obtain ⟨poll,heap⟩ := applyPanding_kept linked
    have interest : (eventpollWakeup handed.poll).interest = loop.poll.interest := by rw [wakeup_interest,poll]
    refine ⟨⟨heap conct,?_,?_⟩,?_⟩
    · intro fd want there
      exact Or.inr (by rw [← interest]; exact there)
    · intro fd _
      exact congrFun interest fd
    · intro level
      rw [applyPanding,if_pos level] at linked
      cases Option.some.inj linked
      rfl

theorem eventloopApply_defined (level : loop.pandings = loop.pandingsTail) (thread : τ) (ev : π) (faults : Faults) :
    ∃ result, eventloopApply loop thread ev faults = some result := by
  unfold eventloopApply
  split
  · exact ⟨_,rfl⟩
  · rw [applyPanding,if_pos level]
    exact ⟨_,rfl⟩

end Loop

section Runs
variable [DecidableEq π] [DecidableEq τ] {conct : π} {loop next : Eventloop π τ} {action : Action π τ}

structure Level (conct : π) (loop : Eventloop π τ) : Prop where
  level : loop.pandings = loop.pandingsTail
  attributed : Attributed conct loop

-- What an attempt in progress does to the loop.
theorem connect_begun {thread : τ} {a : Attempt} (inProgress : InProgress a) :
    step conct loop (.connect thread a) =
      (eventloopApply (setEvent loop conct fun _ => eventInit a.fd EVMASK_WRITE) thread conct a.faults).map Prod.snd := by
  have made : a.socket = none := Option.isNone_iff_eq_none.mp inProgress.1
  simp only [step,connectorConnect,made,if_pos inProgress.2,Option.map_map]
  rfl

theorem connect_settled {thread : τ} {a : Attempt} (settled : ¬ InProgress a) :
    step conct loop (.connect thread a) = some loop := by
  cases made : a.socket with
  | some errno => simp only [step,connectorConnect,made,Option.map_some]
  | none =>
    have answered : ¬ a.connect.map Errno.value = some EINPROGRESS :=
      fun waits => settled ⟨by rw [made]; rfl,waits⟩
    simp only [step,connectorConnect,made,if_neg answered,Option.map_some]

theorem connect_exact {thread : τ} {a : Attempt} (good : Level conct loop) :
    After (step conct) (Attributed conct) loop (.connect thread a) ↔ Fresh conct loop (.connect thread a) := by
  by_cases inProgress : InProgress a
  · have level : (setEvent loop conct fun _ => eventInit a.fd EVMASK_WRITE).pandings =
        (setEvent loop conct fun _ => eventInit a.fd EVMASK_WRITE).pandingsTail := good.level
    have named : ((setEvent loop conct fun _ => eventInit a.fd EVMASK_WRITE).heap conct).fd = a.fd := by rw [setEvent_here]; rfl
    obtain ⟨⟨ret,after⟩,applied⟩ := eventloopApply_defined level thread conct a.faults
    obtain ⟨kept,_⟩ := eventloopApply_kept conct applied
    have ran : step conct loop (.connect thread a) = some after := by
      rw [connect_begun inProgress,applied]
      rfl
    have fd : (after.heap conct).fd = a.fd := kept.fd.trans named
    constructor
    · intro attributed _ at_ want old
      by_contra away
      have still : after.poll.interest at_ = some (want,conct) := by
        rw [kept.elsewhere at_ (by rw [named]; exact away)]
        exact old
      exact away ((attributed after ran at_ want still).symm.trans fd)
    · intro fresh other same at_ want there
      cases Option.some.inj (ran.symm.trans same)
      rw [fd]
      rcases kept.found at_ want there with ⟨_,here⟩ | old
      · rw [here,named]
      · exact (fresh inProgress at_ want old).symm
  · refine iff_of_true ?_ fun waits => absurd waits inProgress
    intro other same
    cases Option.some.inj ((connect_settled inProgress).symm.trans same)
    exact good.attributed

theorem step_level (good : Level conct loop) (ran : step conct loop action = some next) : next.pandings = next.pandingsTail := by
  cases action with
  | connect thread a =>
    by_cases inProgress : InProgress a
    · rw [connect_begun inProgress] at ran
      obtain ⟨⟨ret,after⟩,applied,rfl⟩ := Option.map_eq_some_iff.mp ran
      exact (eventloopApply_kept conct applied).2 good.level
    · cases Option.some.inj ((connect_settled inProgress).symm.trans ran)
      exact good.level
  | init ev fd mask =>
    obtain ⟨_,same⟩ := Option.ite_none_left_eq_some.mp ran
    cases Option.some.inj same
    exact good.level
  | apply thread ev mask faults =>
    obtain ⟨_,ran⟩ := Option.ite_none_left_eq_some.mp ran
    obtain ⟨⟨ret,after⟩,applied,rfl⟩ := Option.map_eq_some_iff.mp ran
    exact (eventloopApply_kept conct applied).2 good.level
  | deliver fd events =>
    obtain ⟨entry,_,rfl⟩ := Option.map_eq_some_iff.mp ran
    exact good.level
  | drain fuel faults =>
    obtain ⟨⟨applied,after⟩,drained,rfl⟩ := Option.map_eq_some_iff.mp ran
    obtain ⟨_,_,same⟩ := Option.map_eq_some_iff.mp drained
    cases same
    rfl

theorem attributed_exact (good : Level conct loop) (action : Action π τ) :
    After (step conct) (Attributed conct) loop action ↔ Fresh conct loop action := by
  cases action with
  | connect thread a => exact connect_exact good
  | init ev fd mask =>
    refine iff_of_true ?_ trivial
    intro next ran
    obtain ⟨away,same⟩ := Option.ite_none_left_eq_some.mp ran
    cases Option.some.inj same
    exact setEvent_attributed good.attributed (Or.inl away)
  | apply thread ev mask faults =>
    refine iff_of_true ?_ trivial
    intro next ran
    obtain ⟨away,ran⟩ := Option.ite_none_left_eq_some.mp ran
    obtain ⟨⟨ret,after⟩,applied,rfl⟩ := Option.map_eq_some_iff.mp ran
    have begun : Attributed conct (setEvent loop ev fun e => {e with mask:=mask}) :=
      setEvent_attributed good.attributed (Or.inl away)
    obtain ⟨kept,_⟩ := eventloopApply_kept conct applied
    intro fd want there
    rw [kept.fd]
    rcases kept.found fd want there with ⟨same,_⟩ | old
    · exact absurd same away
    · exact begun fd want old
  | deliver fd events =>
    refine iff_of_true ?_ trivial
    intro next ran
    obtain ⟨entry,_,rfl⟩ := Option.map_eq_some_iff.mp ran
    exact setEvent_attributed good.attributed (Or.inr rfl)
  | drain fuel faults =>
    refine iff_of_true ?_ trivial
    intro next ran
    obtain ⟨⟨applied,after⟩,drained,rfl⟩ := Option.map_eq_some_iff.mp ran
    obtain ⟨⟨visited,last⟩,looped,same⟩ := Option.map_eq_some_iff.mp drained
    cases same
    have ended : Attributed conct last := pandingLoop_attributed good.attributed looped
    exact ended

theorem level_step (good : Level conct loop) (fresh : Fresh conct loop action) (ran : step conct loop action = some next) :
    Level conct next :=
  ⟨step_level good ran,(attributed_exact good action).mpr fresh next ran⟩

-- A readiness event of any attempt is looked into on the descriptor it came from,
-- exactly as long as no attempt begins while an older one is still registered
-- with the connector.
theorem reconnect_attributed_iff (level : loop.pandings = loop.pandingsTail)
    (unused : ∀ fd want, loop.poll.interest fd ≠ some (want,conct)) (actions : List (Action π τ)) :
    Along (step conct) (After (step conct) (Attributed conct)) loop actions ↔ Along (step conct) (Fresh conct) loop actions := by
  have begin : Level conct loop := ⟨level,fun fd want there => absurd there (unused fd want)⟩
  refine along_iff ?_ ?_ begin along_true
  · intro loop action good _
    exact attributed_exact good action
  · intro loop action next good _ attributed ran
    exact level_step good ((attributed_exact good action).mp attributed) ran

-- The callback that enables the new socket takes the descriptor over: `epoll_ctl`
-- answers EEXIST to the addition, and the change that follows moves the entry.
theorem adopted_fresh {ev : π} {faults : Faults} {mask : UInt32} {thread : τ} {a : Attempt} (good : Level conct loop)
    (away : ev ≠ conct) (shared : (loop.heap ev).fd = (loop.heap conct).fd) (own : loop.me = thread)
    (unapplied : (loop.heap ev).lastMask = 0) (wanted : newMask mask ≠ 0)
    (granted : (pollApply (setEvent loop ev fun e => {e with mask:=mask}) ev faults).1 = 0)
    (ran : step conct loop (.apply thread ev mask faults) = some next) : Fresh conct next (.connect thread a) := by
  obtain ⟨_,ran⟩ := Option.ite_none_left_eq_some.mp ran
  have mine : (setEvent loop ev fun e => {e with mask:=mask}).me = thread := own
  rw [eventloopApply,if_pos mine] at ran
  cases Option.some.inj ran
  have event : (setEvent loop ev fun e => {e with mask:=mask}).heap ev = {loop.heap ev with mask:=mask} := setEvent_here
  have moved : (eventpollApply loop.poll ev {loop.heap ev with mask:=mask} faults).2.2.interest (loop.heap ev).fd =
      some (newMask mask,ev) := by
    have spec := eventpollApply_spec loop.poll ev {loop.heap ev with mask:=mask} faults
    have zero : (eventpollApply loop.poll ev {loop.heap ev with mask:=mask} faults).1 = 0 := by
      rw [← event]
      exact granted
    generalize eventpollApply loop.poll ev {loop.heap ev with mask:=mask} faults = result at spec zero ⊢
    cases spec with
    | skipped same => exact absurd (same.trans unapplied) wanted
    | unregistered _ none_wanted _ => exact absurd none_wanted wanted
    | registered _ _ there => exact there
    | failed refused _ _ _ => exact absurd zero refused
  intro _ fd want there
  have there : (eventpollApply loop.poll ev {loop.heap ev with mask:=mask} faults).2.2.interest fd = some (want,conct) := by
    rw [← event]
    exact there
  rcases eventpollApply_found there with ⟨same,_⟩ | old
  · exact absurd same.symm away
  · rw [← good.attributed fd want old,← shared,moved] at there
    exact absurd (Prod.mk.inj (Option.some.inj there)).2 away

end Runs

open EnabledFlag (idleLoop)

-- Connect, hand the descriptor to the socket of event 4, connect again.
def reconnecting : List (Action Nat Nat) :=
  [.connect 0 pendingAttempt,.deliver 7 EPOLLOUT,.init 4 7 EVMASK_NONE,.apply 0 4 EVMASK_READ (none,none),
    .connect 0 {pendingAttempt with fd:=8},.deliver 8 EPOLLOUT]

theorem reconnecting_attributed : (exec (step 3) idleLoop reconnecting).isSome ∧
    Along (step 3) (After (step 3) (Attributed 3)) idleLoop reconnecting := by
  have unused : ∀ fd want, idleLoop.poll.interest fd ≠ some (want,3) := fun _ _ there => by cases there
  have idle : Level 3 idleLoop := ⟨rfl,fun fd want there => absurd there (unused fd want)⟩
  have first : Fresh 3 idleLoop (.connect 0 pendingAttempt) := fun _ fd want there => absurd there (unused fd want)
  have begun := level_step idle first rfl
  have delivered := level_step begun (show Fresh 3 _ (.deliver 7 EPOLLOUT) from trivial) rfl
  have made := level_step delivered (show Fresh 3 _ (.init 4 7 EVMASK_NONE) from trivial) rfl
  have second := adopted_fresh (a:={pendingAttempt with fd:=8}) made (show 4 ≠ 3 by decide) rfl
    rfl rfl (by decide) (by decide) (show step 3 _ (.apply 0 4 EVMASK_READ (none,none)) = _ from rfl)
  refine ⟨by decide,(reconnect_attributed_iff rfl unused reconnecting).mpr ?_⟩
  exact (along_cons rfl).mpr ⟨first,(along_cons rfl).mpr ⟨trivial,(along_cons rfl).mpr ⟨trivial,(along_cons rfl).mpr ⟨trivial,
    (along_cons rfl).mpr ⟨second,(along_cons rfl).mpr ⟨trivial,trivial⟩⟩⟩⟩⟩⟩

end EventLib.ConnectorReuse

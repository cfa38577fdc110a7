import EventLib.EventloopRequests

namespace EventLib.EventloopExit
open Events Epoll LabelledRuns EventloopRequests
open Eventloops hiding Action Session step start
open EventloopThreads hiding Action step start Stepped step_stepped

-- Where `eventloop_loop` is: before its test of the flag, in the body, or past
-- the loop.
inductive Place where
  | testing | turning | returned
deriving DecidableEq

structure Program (π τ : Type) where
  system : System π τ
  running : Int
  place : Place

-- `exit` is `eventloop_exit`, called by whichever thread.
inductive Action (π τ : Type) where
  | act (action : EventloopThreads.Action π τ)
  | test
  | exit

-- The part of the loop's body or of a callback, as opposed to other threads.
def ofLoop : EventloopThreads.Action π τ → Bool
  | .store _ _ _ | .enqueue _ _ | .wakeup _ => false
  | _ => true

def isDrain : EventloopThreads.Action π τ → Bool
  | .drain _ _ => true
  | _ => false

def polls : Action π τ → Bool
  | .act (.poll _) => true
  | _ => false

def drains : Action π τ → Bool
  | .act action => isDrain action
  | _ => false

variable {π τ : Type}

-- `eventloop_init`, then `eventloop_loop` called.
def start (interest : Int → Option (UInt32 × π)) (errno : Int) (fd : π → Int) (mask : π → UInt32) (me : τ) : Program π τ :=
  ⟨EventloopThreads.start interest errno fd mask me,1,.testing⟩

-- Polls and drains still to come once the flag is down.
def pollsLeft (s : Program π τ) : Nat := if s.place = .turning ∧ s.system.phase = .waiting then 1 else 0
def drainsLeft (s : Program π τ) : Nat := if s.place = .turning then 1 else 0

structure Shrinks (s : Program π τ) (action : Action π τ) (next : Program π τ) : Prop where
  stopped : next.running = 0
  polled : (if polls action then 1 else 0) + pollsLeft next ≤ pollsLeft s
  drained : (if drains action then 1 else 0) + drainsLeft next ≤ drainsLeft s

theorem same_shrinks {s : Program π τ} {system : System π τ} {action : Action π τ} (stopped : s.running = 0)
    (phase : system.phase = s.system.phase) (neither : polls action = false ∧ drains action = false) :
    Shrinks s action {s with system:=system} := by
  refine ⟨stopped,?_,?_⟩
  · rw [neither.1,pollsLeft,pollsLeft,phase]
    exact Nat.le_of_eq (Nat.zero_add _)
  · rw [neither.2]
    exact Nat.le_of_eq (Nat.zero_add _)

theorem enqueue_pending [DecidableEq π] {loop after : Eventloop π τ} {ev : π} (linked : applyPanding loop ev = some after) :
    after.poll = loop.poll ∧ (loop.pandings ≠ none → after.pandings ≠ none) := by
  rw [applyPanding] at linked
  split at linked
  · cases Option.some.inj linked
    exact ⟨rfl,fun _ => Option.some_ne_none ev⟩
  · obtain ⟨tail,_,rfl⟩ := Option.map_eq_some_iff.mp linked
    exact ⟨rfl,fun pending => pending⟩

section Steps
variable [DecidableEq π] [DecidableEq τ]

def step (s : Program π τ) : Action π τ → Option (Program π τ)
  | .act action =>
    if ofLoop action ∧ s.place ≠ .turning then none else
    (EventloopThreads.step s.system action).map fun system =>
      {s with system:=system,place:=if isDrain action then .testing else s.place}
  | .test => if s.place = .testing then some {s with place:=if s.running ≠ 0 then .turning else .returned} else none
  | .exit => some {s with running:=0}

inductive Stepped (s : Program π τ) : Action π τ → Program π τ → Prop where
  | act : (ofLoop action = true → s.place = .turning) → EventloopThreads.Stepped s.system action system →
      Stepped s (.act action) {s with system:=system,place:=if isDrain action then .testing else s.place}
  | test : s.place = .testing → Stepped s .test {s with place:=if s.running ≠ 0 then .turning else .returned}
  | exit : Stepped s .exit {s with running:=0}

theorem step_stepped {s next : Program π τ} {action : Action π τ} (ran : step s action = some next) : Stepped s action next := by
  cases action with
  | act action =>
    obtain ⟨may,same⟩ := Option.ite_none_left_eq_some.mp ran
    obtain ⟨system,acted,rfl⟩ := Option.map_eq_some_iff.mp same
    refine .act ?_ (EventloopThreads.step_stepped acted)
    intro own
    by_contra away
    exact may ⟨own,away⟩
  | test =>
    obtain ⟨here,⟨⟩⟩ := Option.ite_none_right_eq_some.mp ran
    exact .test here
  | exit =>
    cases Option.some.inj ran
    exact .exit

-- The turns of the loop are the steps of the system without the flag.
theorem step_act {s next : Program π τ} {action : EventloopThreads.Action π τ} (ran : step s (.act action) = some next) :
    EventloopThreads.step s.system action = some next.system := by
  obtain ⟨_,same⟩ := Option.ite_none_left_eq_some.mp ran
  obtain ⟨system,acted,rfl⟩ := Option.map_eq_some_iff.mp same
  exact acted

def acts : Action π τ → Option (EventloopThreads.Action π τ)
  | .act action => some action
  | _ => none

theorem exec_system {s last : Program π τ} {actions : List (Action π τ)} (ran : exec step s actions = some last) :
    exec EventloopThreads.step s.system (actions.filterMap acts) = some last.system := by
  induction actions generalizing s with
  | nil =>
    cases Option.some.inj ran
    rfl
  | cons action rest ih =>
    obtain ⟨next,one,tail⟩ := exec_cons.mp ran
    cases action with
    | act action =>
      exact exec_cons.mpr ⟨next.system,step_act one,ih tail⟩
    | test =>
      obtain ⟨_,⟨⟩⟩ := Option.ite_none_right_eq_some.mp one
      have later := ih tail
      exact later
    | exit =>
      cases Option.some.inj one
      have later := ih tail
      exact later

theorem stepped_shrinks {s next : Program π τ} {action : Action π τ} (stopped : s.running = 0) (stepped : Stepped s action next) :
    Shrinks s action next := by
  cases stepped with
  | exit => exact ⟨rfl,Nat.le_of_eq (Nat.zero_add _),Nat.le_of_eq (Nat.zero_add _)⟩
  | test here =>
    refine ⟨stopped,?_,?_⟩
    · simp [polls,pollsLeft,stopped]
    · simp [drains,drainsLeft,stopped]
  | act may acted =>
    cases acted with
    | store _ => exact same_shrinks stopped rfl ⟨rfl,rfl⟩
    | enqueue _ _ _ => exact same_shrinks stopped rfl ⟨rfl,rfl⟩
    | wakeup _ => exact same_shrinks stopped rfl ⟨rfl,rfl⟩
    | deliver _ => exact same_shrinks stopped rfl ⟨rfl,rfl⟩
    | request _ => exact same_shrinks stopped rfl ⟨rfl,rfl⟩
    | poll waiting _ =>
      have here := may rfl
      refine ⟨stopped,?_,Nat.le_of_eq (Nat.zero_add _)⟩
      simp [polls,pollsLeft,here,waiting]
    | wakeCb unread =>
      refine ⟨stopped,?_,Nat.le_of_eq (Nat.zero_add _)⟩
      simp [polls,pollsLeft]
    | drain dispatched _ =>
      have here := may rfl
      refine ⟨stopped,?_,?_⟩
      · simp [polls,pollsLeft,isDrain]
      · simp [drains,drainsLeft,isDrain,here]

theorem stopped_run {s last : Program π τ} {actions : List (Action π τ)} (stopped : s.running = 0)
    (ran : exec step s actions = some last) : last.running = 0 ∧
    actions.countP polls + pollsLeft last ≤ pollsLeft s ∧ actions.countP drains + drainsLeft last ≤ drainsLeft s := by
  induction actions generalizing s with
  | nil =>
    cases Option.some.inj ran
    exact ⟨stopped,Nat.le_of_eq (Nat.zero_add _),Nat.le_of_eq (Nat.zero_add _)⟩
  | cons action rest ih =>
    obtain ⟨next,one,tail⟩ := exec_cons.mp ran
    have now := stepped_shrinks stopped (step_stepped one)
    obtain ⟨down,polled,drained⟩ := ih now.stopped tail
    have first := now.polled
    have second := now.drained
    rw [List.countP_cons,List.countP_cons]
    exact ⟨down,by omega,by omega⟩

-- Once the loop has returned only other threads act, and none of their actions
-- registers anything or takes an event off the list.
structure Over (first s : Program π τ) : Prop where
  place : s.place = .returned
  interest : s.system.loop.poll.interest = first.system.loop.poll.interest
  pending : first.system.loop.pandings ≠ none → s.system.loop.pandings ≠ none

theorem stepped_over {first s next : Program π τ} {action : Action π τ} (after : Over first s) (stepped : Stepped s action next) :
    Over first next := by
  have away : s.place ≠ .turning := by
    rw [after.place]
    nofun
  cases stepped with
  | exit => exact ⟨after.place,after.interest,after.pending⟩
  | test here =>
    rw [after.place] at here
    cases here
  | act may acted =>
    cases acted with
    | store _ => exact ⟨after.place,after.interest,after.pending⟩
    | enqueue _ _ linked =>
      obtain ⟨poll,pending⟩ := enqueue_pending linked
      refine ⟨after.place,?_,fun begun => pending (after.pending begun)⟩
      rw [← after.interest,← poll]
    | wakeup _ => exact ⟨after.place,(wakeup_interest _).trans after.interest,after.pending⟩
    | poll _ _ => exact absurd (may rfl) away
    | wakeCb _ => exact absurd (may rfl) away
    | deliver _ => exact absurd (may rfl) away
    | request _ => exact absurd (may rfl) away
    | drain _ _ => exact absurd (may rfl) away

theorem exit_ends_within_a_turn {s last : Program π τ} {actions : List (Action π τ)} (stopped : s.running = 0)
    (ran : exec step s actions = some last) :
    actions.countP polls ≤ 1 ∧ actions.countP drains ≤ 1 ∧
    (s.place ≠ .turning → actions.countP polls = 0 ∧ actions.countP drains = 0) ∧
    (s.place = .returned → last.place = .returned ∧
      last.system.loop.poll.interest = s.system.loop.poll.interest ∧
      (s.system.loop.pandings ≠ none → last.system.loop.pandings ≠ none)) := by
  obtain ⟨_,polled,drained⟩ := stopped_run stopped ran
  have one_poll : pollsLeft s ≤ 1 := by
    rw [pollsLeft]
    split <;> decide
  have one_drain : drainsLeft s ≤ 1 := by
    rw [drainsLeft]
    split <;> decide
  refine ⟨by omega,by omega,?_,?_⟩
  · intro away
    have no_poll : pollsLeft s = 0 := if_neg fun both => away both.1
    have no_drain : drainsLeft s = 0 := if_neg away
    omega
  · intro here
    have begin : Over s s := ⟨here,rfl,fun pending => pending⟩
    have after : Over s last := exec_guarded (fun _ _ _ after _ one => stepped_over after (step_stepped one)) begin along_true ran
    exact ⟨after.place,after.interest,after.pending⟩

-- Nothing is reported and nobody hands an event over.
def Silent : Action π τ → Prop
  | .act (.poll wake) => wake = true
  | .act (.enqueue _ _) => False
  | _ => True

structure Blocked (s : Program π τ) : Prop where
  place : s.place = .turning
  phase : s.system.phase = .waiting
  quiet : s.system.raised = false
  idle : ∀ thread, s.system.between thread = false

theorem stepped_blocked {s next : Program π τ} {action : Action π τ} (blocked : Blocked s) (silent : Silent action)
    (stepped : Stepped s action next) : Blocked next := by
  cases stepped with
  | exit => exact ⟨blocked.place,blocked.phase,blocked.quiet,blocked.idle⟩
  | test here =>
    rw [blocked.place] at here
    cases here
  | act may acted =>
    cases acted with
    | store _ => exact ⟨blocked.place,blocked.phase,blocked.quiet,blocked.idle⟩
    | enqueue _ _ _ => exact silent.elim
    | @wakeup thread owes =>
      rw [blocked.idle thread] at owes
      cases owes
    | poll _ reported =>
      have edge := reported silent
      rw [blocked.quiet] at edge
      cases edge
    | wakeCb unread =>
      rw [blocked.phase] at unread
      cases unread
    | deliver away => exact absurd blocked.phase away
    | request away => exact absurd blocked.phase away
    | drain dispatched _ =>
      rw [blocked.phase] at dispatched
      cases dispatched

-- A step the loop makes by itself with no report but the eventfd's: no event is
-- delivered and no callback asks for anything.
def Unaided : Action π τ → Prop
  | .act (.poll wake) => wake = true
  | .act .wakeCb => True
  | .act (.drain _ _) => True
  | .test => True
  | _ => False

def Ends (s : Program π τ) : Prop :=
  ∃ actions last, exec step s actions = some last ∧ last.place = .returned ∧ ∀ action ∈ actions, Unaided action

-- The two halves of the thread's `eventloop_apply`, one right after the other.
structure HandsOver (s : Program π τ) (thread : τ) (ev : π) (after : Program π τ) : Prop where
  steps : exec step s [.act (.enqueue thread ev),.act (.wakeup thread)] = some after
  call : ∀ faults, eventloopApply s.system.loop thread ev faults = some (0,after.system.loop)

theorem Ends.before {s next : Program π τ} {action : Action π τ} (one : step s action = some next) (unaided : Unaided action)
    (ends : Ends next) : Ends s := by
  obtain ⟨actions,last,ran,here,rest⟩ := ends
  exact ⟨action::actions,last,exec_cons.mpr ⟨next,one,ran⟩,here,List.forall_mem_cons.mpr ⟨unaided,rest⟩⟩

theorem act_step {s : Program π τ} {action : EventloopThreads.Action π τ} {system : System π τ} (may : ofLoop action = true → s.place = .turning)
    (acted : EventloopThreads.step s.system action = some system) :
    step s (.act action) = some {s with system:=system,place:=if isDrain action then .testing else s.place} := by
  rw [step,if_neg (fun both => both.2 (may both.1)),acted]
  rfl

theorem testing_ends {s : Program π τ} (stopped : s.running = 0) (here : s.place = .testing) : Ends s := by
  have one : step s .test = some {s with place:=.returned} := by
    rw [step,if_pos here,if_neg (not_not.mpr stopped)]
  exact .before one trivial ⟨[],_,rfl,rfl,nofun⟩

-- The drain comes to its end because the list is never longer than one event.
theorem drain_ends {s : Program π τ} (stopped : s.running = 0) (linked : Linked s.system) (here : s.place = .turning)
    (dispatched : s.system.phase = .dispatching false) : Ends s := by
  have newest : s.system.loop.pandings.toList.getLast? = s.system.loop.pandings := by cases s.system.loop.pandings <;> rfl
  have single : Single ⟨s.system.loop,s.system.loop.pandings.toList⟩ :=
    ⟨newest.symm,linked.tail.trans newest.symm,linked.unlinked⟩
  obtain ⟨loop,returns⟩ := panding_returns single fun _ => noFaults
  have drained : EventloopThreads.step s.system (.drain 2 fun _ => noFaults) = some {s.system with loop:=loop,phase:=.waiting} := by
    rw [EventloopThreads.step,if_pos dispatched,returns 2 (Nat.le_refl 2)]
    rfl
  exact .before (act_step (fun _ => here) drained) trivial (testing_ends stopped rfl)

theorem dispatching_ends {s : Program π τ} {wake : Bool} (stopped : s.running = 0) (linked : Linked s.system)
    (here : s.place = .turning) (reported : s.system.phase = .dispatching wake) : Ends s := by
  cases wake with
  | false => exact drain_ends stopped linked here reported
  | true =>
    have read : EventloopThreads.step s.system .wakeCb =
        some {s.system with phase:=.dispatching false,loop:={s.system.loop with poll:=wakeCb s.system.loop.poll}} := if_pos reported
    exact .before (act_step (fun _ => here) read) trivial
      (drain_ends stopped ⟨linked.tail,linked.unlinked⟩ here rfl)

theorem reported_ends {s : Program π τ} (stopped : s.running = 0) (linked : Linked s.system) (here : s.place = .turning)
    (waiting : s.system.phase = .waiting) (raised : s.system.raised = true) : Ends s := by
  have polled : EventloopThreads.step s.system (.poll true) =
      some {s.system with phase:=.dispatching true,raised:=s.system.raised && !true} := if_pos ⟨waiting,fun _ => raised⟩
  exact .before (act_step (fun _ => here) polled) rfl (dispatching_ends stopped ⟨linked.tail,linked.unlinked⟩ here rfl)

theorem hands_over {s : Program π τ} {thread : τ} (ev : π) (linked : Linked s.system) (awake : Awake s.system)
    (foreign : thread ≠ s.system.loop.me) (idle : s.system.between thread = false) :
    ∃ after, HandsOver s thread ev {s with system:=after} ∧ Linked after ∧ after.phase = s.system.phase ∧
      (s.system.phase = .waiting → after.raised = true) := by
  let queued : System π τ := {s.system with
    loop:={s.system.loop with pandings:=some ev,pandingsTail:=some ev},between:=Function.update s.system.between thread true}
  have enqueued : EventloopThreads.step s.system (.enqueue thread ev) = some queued := by
    rw [EventloopThreads.step,if_neg (by simp [foreign,idle]),enqueue_linked linked]
    rfl
  have owes : queued.between thread = true := Function.update_self ..
  let written : System π τ := {queued with
    loop:={queued.loop with poll:=eventpollWakeup queued.loop.poll}
    raised:=queued.raised || edge queued.loop.poll (eventpollWakeup queued.loop.poll)
    between:=Function.update queued.between thread false}
  have woken : EventloopThreads.step queued (.wakeup thread) = some written := if_pos owes
  have first : step s (.act (.enqueue thread ev)) = some {s with system:=queued} :=
    act_step (fun own => absurd own Bool.false_ne_true) enqueued
  have second : step {s with system:=queued} (.act (.wakeup thread)) = some {s with system:=written} :=
    act_step (fun own => absurd own Bool.false_ne_true) woken
  refine ⟨written,⟨exec_cons.mpr ⟨_,first,exec_cons.mpr ⟨_,second,rfl⟩⟩,?_⟩,⟨rfl,linked.unlinked⟩,rfl,?_⟩
  · intro faults
    rw [eventloopApply,if_neg (Ne.symm foreign),enqueue_linked linked]
    rfl
  · intro waiting
    exact awake.raises (by rw [waiting]; exact Phase.noConfusion)

end Steps

def idleProgram : Program Nat Nat := start (fun _ => none) 0 (fun ev => ev) (fun _ => EVMASK_READ) 0

-- The loop is told to stop inside a callback; a hand-over comes after its last drain.
def stoppedTurn : List (Action Nat Nat) := [.test,.act (.poll false),.exit]
def lastTurn : List (Action Nat Nat) :=
  [.act (.request 0 EVMASK_READ noFaults),.act (.drain 2 fun _ => noFaults),.test,.act (.enqueue 1 1),.act (.wakeup 1)]

theorem last_turn_ends : ∃ s last, exec step idleProgram stoppedTurn = some s ∧ exec step s lastTurn = some last ∧
    last.place = .returned ∧ last.system.loop.pandings = some 1 ∧ lastTurn.countP drains ≤ 1 := by
  have seen : (exec step idleProgram stoppedTurn).bind (fun s => (exec step s lastTurn).map fun last =>
      (s.running,last.place,last.system.loop.pandings)) = some (0,.returned,some 1) := by decide
  obtain ⟨s,ran,rest⟩ := Option.bind_eq_some_iff.mp seen
  obtain ⟨last,turned,same⟩ := Option.map_eq_some_iff.mp rest
  simp only [Prod.mk.injEq] at same
  exact ⟨s,last,ran,turned,same.2.1,same.2.2,(exit_ends_within_a_turn same.1 turned).2.1⟩

end EventLib.EventloopExit

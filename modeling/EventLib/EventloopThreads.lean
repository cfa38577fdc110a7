import EventLib.Eventloop

namespace EventLib.EventloopThreads
open Events Epoll Eventloops LabelledRuns

-- Where the loop thread is in `eventloop_loop`: in `epoll_wait`, or past it with
-- the eventfd still among the events to dispatch or not.
inductive Phase where
  | waiting
  | dispatching (wake : Bool)
deriving DecidableEq

-- `raised` is the kernel's edge on the eventfd: written since last reported.
-- `between` holds of a thread that has enqueued and not yet written.
structure System (π τ : Type) where
  loop : Eventloop π τ
  phase : Phase
  raised : Bool
  between : τ → Bool

-- `store`, `enqueue` and `wakeup` are the foreign threads', the others the loop
-- thread's. `request` is a callback that sets a mask and calls `eventloop_apply`.
inductive Action (π τ : Type) where
  | store (thread : τ) (ev : π) (mask : UInt32)
  | enqueue (thread : τ) (ev : π)
  | wakeup (thread : τ)
  | poll (wake : Bool)
  | wakeCb
  | deliver (ev : π) (events : UInt32)
  | request (ev : π) (mask : UInt32) (faults : Faults)
  | drain (fuel : Nat) (faults : Nat → Faults)

variable {π τ : Type}

-- The eventfd is created with the counter 0.
def start (interest : Int → Option (UInt32 × π)) (errno : Int) (fd : π → Int) (mask : π → UInt32) (me : τ) : System π τ :=
  ⟨eventloopInit ⟨interest,errno,0⟩ (fun ev => eventInit (fd ev) (mask ev)) me,.waiting,false,fun _ => false⟩

-- The read empties the counter; on an empty one it only logs.
def wakeCb (k : Kernel π) : Kernel π := {k with wake:=0}

-- A write the kernel took has moved the counter, and that raises the edge.
def edge (before after : Kernel π) : Bool := after.wake != before.wake

section Steps
variable [DecidableEq π]

variable [DecidableEq τ]

-- `epoll_wait` may return without a raised eventfd in its array (other events
-- filled it, or a signal came); then the edge stays.
def step (s : System π τ) : Action π τ → Option (System π τ)
  | .store thread ev mask =>
    if thread = s.loop.me then none else some {s with loop:=setEvent s.loop ev fun e => {e with mask:=mask}}
  | .enqueue thread ev =>
    if thread = s.loop.me ∨ s.between thread then none else
    (applyPanding s.loop ev).map fun loop => {s with loop:=loop,between:=Function.update s.between thread true}
  | .wakeup thread =>
    if s.between thread then some {s with
      loop:={s.loop with poll:=eventpollWakeup s.loop.poll}
      raised:=s.raised || edge s.loop.poll (eventpollWakeup s.loop.poll)
      between:=Function.update s.between thread false}
    else none
  | .poll wake =>
    if s.phase = .waiting ∧ (wake → s.raised) then some {s with phase:=.dispatching wake,raised:=s.raised && !wake} else none
  | .wakeCb =>
    if s.phase = .dispatching true then some {s with phase:=.dispatching false,loop:={s.loop with poll:=wakeCb s.loop.poll}}
    else none
  | .deliver ev events =>
    if s.phase = .waiting then none else some {s with loop:=setEvent s.loop ev fun e => eventpollDeliver e events}
  | .request ev mask faults =>
    if s.phase = .waiting then none else
    (eventloopApply (setEvent s.loop ev fun e => {e with mask:=mask}) s.loop.me ev faults).map fun (_,loop) => {s with loop:=loop}
  | .drain fuel faults =>
    if s.phase = .dispatching false then (panding fuel faults s.loop).map fun (_,loop) => {s with loop:=loop,phase:=.waiting}
    else none

-- Everything a step can do, with the conditions under which it does it.
inductive Stepped (s : System π τ) : Action π τ → System π τ → Prop where
  | store : thread ≠ s.loop.me →
      Stepped s (.store thread ev mask) {s with loop:=setEvent s.loop ev fun e => {e with mask:=mask}}
  | enqueue : thread ≠ s.loop.me → s.between thread = false → applyPanding s.loop ev = some loop →
      Stepped s (.enqueue thread ev) {s with loop:=loop,between:=Function.update s.between thread true}
  | wakeup : s.between thread = true → Stepped s (.wakeup thread) {s with
      loop:={s.loop with poll:=eventpollWakeup s.loop.poll}
      raised:=s.raised || edge s.loop.poll (eventpollWakeup s.loop.poll)
      between:=Function.update s.between thread false}
  | poll : s.phase = .waiting → (wake = true → s.raised = true) →
      Stepped s (.poll wake) {s with phase:=.dispatching wake,raised:=s.raised && !wake}
  | wakeCb : s.phase = .dispatching true →
      Stepped s .wakeCb {s with phase:=.dispatching false,loop:={s.loop with poll:=wakeCb s.loop.poll}}
  | deliver : s.phase ≠ .waiting →
      Stepped s (.deliver ev events) {s with loop:=setEvent s.loop ev fun e => eventpollDeliver e events}
  | request : s.phase ≠ .waiting → Stepped s (.request ev mask faults)
      {s with loop:=(pollApply (setEvent s.loop ev fun e => {e with mask:=mask}) ev faults).2}
  | drain : s.phase = .dispatching false → panding fuel faults s.loop = some (applied,loop) →
      Stepped s (.drain fuel faults) {s with loop:=loop,phase:=.waiting}

theorem step_stepped {s next : System π τ} {action : Action π τ} (ran : step s action = some next) : Stepped s action next := by
  cases action with
  | store thread ev mask =>
    obtain ⟨foreign,⟨⟩⟩ := Option.ite_none_left_eq_some.mp ran
    exact .store foreign
  | enqueue thread ev =>
    obtain ⟨idle,same⟩ := Option.ite_none_left_eq_some.mp ran
    obtain ⟨loop,linked,rfl⟩ := Option.map_eq_some_iff.mp same
    exact .enqueue (fun own => idle (Or.inl own)) (Bool.eq_false_iff.mpr fun busy => idle (Or.inr busy)) linked
  | wakeup thread =>
    obtain ⟨owes,⟨⟩⟩ := Option.ite_none_right_eq_some.mp ran
    exact .wakeup owes
  | poll wake =>
    obtain ⟨⟨waiting,reported⟩,⟨⟩⟩ := Option.ite_none_right_eq_some.mp ran
    exact .poll waiting reported
  | wakeCb =>
    obtain ⟨unread,⟨⟩⟩ := Option.ite_none_right_eq_some.mp ran
    exact .wakeCb unread
  | deliver ev events =>
    obtain ⟨away,⟨⟩⟩ := Option.ite_none_left_eq_some.mp ran
    exact .deliver away
  | request ev mask faults =>
    obtain ⟨away,same⟩ := Option.ite_none_left_eq_some.mp ran
    obtain ⟨⟨ret,loop⟩,applied,rfl⟩ := Option.map_eq_some_iff.mp same
    cases Option.some.inj ((own_apply _ ev faults).symm.trans applied)
    exact .request away
  | drain fuel faults =>
    obtain ⟨dispatched,same⟩ := Option.ite_none_right_eq_some.mp ran
    obtain ⟨⟨applied,loop⟩,drained,rfl⟩ := Option.map_eq_some_iff.mp same
    exact .drain dispatched drained

end Steps

def Lost (s : System π τ) : Prop :=
  s.phase = .waiting ∧ s.raised = false ∧ s.loop.pandings ≠ none ∧ ∀ thread, s.between thread = false

-- What lies pending is still ahead of the loop thread, announced by a raised
-- edge, or owed a write. A non-empty counter matters because at its maximum the
-- owed write is refused: only an edge or an unread report lets it be non-empty.
structure Awake (s : System π τ) : Prop where
  served : s.loop.pandings ≠ none → s.phase ≠ .waiting ∨ s.raised = true ∨ ∃ thread, s.between thread = true
  counted : s.loop.poll.wake ≠ 0 → s.raised = true ∨ s.phase = .dispatching true

theorem Awake.not_lost {s : System π τ} (awake : Awake s) : ¬ Lost s := by
  rintro ⟨waiting,quiet,pending,settled⟩
  rcases awake.served pending with away | up | ⟨thread,owes⟩
  · exact away waiting
  · rw [quiet] at up
    cases up
  · rw [settled thread] at owes
    cases owes

theorem Awake.frame {s : System π τ} {loop : Eventloop π τ} (awake : Awake s) (pandings : loop.pandings = s.loop.pandings)
    (wake : loop.poll.wake = s.loop.poll.wake) : Awake {s with loop:=loop} := by
  refine ⟨?_,?_⟩
  · intro pending
    exact awake.served (by rw [← pandings]; exact pending)
  · intro counter
    exact awake.counted (by rw [← wake]; exact counter)

-- A write that raises no edge found the counter at its maximum.
theorem wakeup_refused {k : Kernel π} (refused : edge k (eventpollWakeup k) = false) : k.wake ≠ 0 := by
  by_cases room : k.wake.toNat+1 < 2^64-1
  · have moved : k.wake+1 ≠ k.wake := by
      intro same
      have counter := congrArg UInt64.toNat same
      rw [UInt64.toNat_add,UInt64.toNat_one,Nat.mod_eq_of_lt (by omega)] at counter
      omega
    rw [edge,eventpollWakeup,if_pos room,bne_eq_false_iff_eq] at refused
    exact absurd refused moved
  · intro zero
    rw [zero] at room
    exact room (by decide)

-- The edge is up after the write, or was never taken down since the counter filled.
theorem Awake.raises {s : System π τ} (awake : Awake s) (settled : s.phase ≠ .dispatching true) :
    (s.raised || edge s.loop.poll (eventpollWakeup s.loop.poll)) = true := by
  cases moved : edge s.loop.poll (eventpollWakeup s.loop.poll) with
  | true => exact Bool.or_true _
  | false =>
    rcases awake.counted (wakeup_refused moved) with up | unread
    · rw [up,Bool.true_or]
    · exact absurd unread settled

section Wakeups
theorem wakeup_awake [DecidableEq τ] {s : System π τ} {thread : τ} (awake : Awake s) :
    Awake {s with
      loop:={s.loop with poll:=eventpollWakeup s.loop.poll}
      raised:=s.raised || edge s.loop.poll (eventpollWakeup s.loop.poll)
      between:=Function.update s.between thread false} := by
  by_cases unread : s.phase = .dispatching true
  · exact ⟨fun _ => Or.inl (by rw [unread]; exact Phase.noConfusion),fun _ => Or.inr unread⟩
  · have up := awake.raises unread
    exact ⟨fun _ => Or.inr (Or.inl up),fun _ => Or.inl up⟩

variable [DecidableEq π]

theorem enqueue_wake {loop after : Eventloop π τ} {ev : π} (linked : applyPanding loop ev = some after) :
    after.poll.wake = loop.poll.wake := by
  rw [applyPanding] at linked
  split at linked
  · cases Option.some.inj linked
    rfl
  · obtain ⟨tail,_,rfl⟩ := Option.map_eq_some_iff.mp linked
    rfl

theorem pandingLoop_wake {fuel : Nat} {faults : Nat → Faults} {loop after : Eventloop π τ} {head : Option π} {applied : List π}
    (ran : pandingLoop fuel faults loop head = some (applied,after)) : after.poll.wake = loop.poll.wake := by
  induction fuel generalizing faults loop head applied with
  | zero => cases ran
  | succ fuel ih =>
    cases head with
    | none =>
      cases Option.some.inj ran
      rfl
    | some ev =>
      simp only [pandingLoop,Option.bind_eq_bind] at ran
      obtain ⟨⟨rest,last⟩,tail,same⟩ := Option.bind_eq_some_iff.mp ran
      cases Option.some.inj same
      rw [ih tail]
      exact eventpollApply_wake _ _ _ _

theorem panding_empties {fuel : Nat} {faults : Nat → Faults} {loop after : Eventloop π τ} {applied : List π}
    (ran : panding fuel faults loop = some (applied,after)) : after.pandings = none ∧ after.poll.wake = loop.poll.wake := by
  obtain ⟨⟨visited,last⟩,looped,same⟩ := Option.map_eq_some_iff.mp ran
  cases same
  have wake : last.poll.wake = loop.poll.wake := pandingLoop_wake looped
  exact ⟨rfl,wake⟩

variable [DecidableEq τ]

theorem step_awake {s next : System π τ} {action : Action π τ} (awake : Awake s) (stepped : Stepped s action next) :
    Awake next := by
  cases stepped with
  | store foreign => exact awake.frame rfl rfl
  | deliver away => exact awake.frame rfl rfl
  | request away => exact awake.frame rfl (eventpollApply_wake _ _ _ _)
  | wakeup owes => exact wakeup_awake awake
  | wakeCb unread => exact ⟨fun _ => Or.inl Phase.noConfusion,fun counter => absurd rfl counter⟩
  | @enqueue thread ev loop foreign idle linked =>
    refine ⟨fun _ => Or.inr (Or.inr ⟨thread,Function.update_self ..⟩),?_⟩
    intro counter
    exact awake.counted (by rw [← enqueue_wake linked]; exact counter)
  | @poll wake waiting reported =>
    refine ⟨fun _ => Or.inl Phase.noConfusion,?_⟩
    intro counter
    cases wake with
    | true => exact Or.inr rfl
    | false =>
      rcases awake.counted counter with up | unread
      · exact Or.inl (by simpa using up)
      · rw [waiting] at unread
        cases unread
  | drain dispatched drained =>
    obtain ⟨empty,wake⟩ := panding_empties drained
    refine ⟨fun pending => absurd empty pending,?_⟩
    intro counter
    rcases awake.counted (by rw [← wake]; exact counter) with up | unread
    · exact Or.inl up
    · rw [dispatched] at unread
      cases unread

theorem no_lost_wakeup {interest : Int → Option (UInt32 × π)} {errno : Int} {fd : π → Int} {mask : π → UInt32} {me : τ}
    {actions : List (Action π τ)} {s : System π τ} (ran : exec step (start interest errno fd mask me) actions = some s) :
    ¬ Lost s := by
  have begin : Awake (start interest errno fd mask me) := ⟨fun pending => absurd rfl pending,fun counter => absurd rfl counter⟩
  have awake : Awake s := exec_guarded (fun _ _ _ awake _ one => step_awake awake (step_stepped one)) begin along_true ran
  exact awake.not_lost

end Wakeups

def idleLoop : System Nat Nat := start (fun _ => none) 0 (fun ev => ev) (fun _ => EVMASK_READ) 0
def foreignPair : List (Action Nat Nat) :=
  [.enqueue 1 0,.wakeup 1,.poll true,.wakeCb,.drain 2 fun _ => noFaults,.enqueue 2 1,.wakeup 2]

-- The second hand-over finds the loop thread back in `epoll_wait`, with the edge up.
theorem foreign_pair_awake : ∃ s, exec step idleLoop foreignPair = some s ∧
    s.phase = .waiting ∧ s.loop.pandings = some 1 ∧ s.raised = true ∧ ¬ Lost s := by
  have reached : (exec step idleLoop foreignPair).map (fun s => (s.phase,s.loop.pandings,s.raised)) =
      some (.waiting,some 1,true) := by decide
  obtain ⟨s,ran,seen⟩ := Option.map_eq_some_iff.mp reached
  simp only [Prod.mk.injEq] at seen
  exact ⟨s,ran,seen.1,seen.2.1,seen.2.2,no_lost_wakeup ran⟩

end EventLib.EventloopThreads

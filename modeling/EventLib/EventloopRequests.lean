import EventLib.EventloopThreads

namespace EventLib.EventloopRequests
open Events Epoll EventloopThreads LabelledRuns
open Eventloops hiding Action Session step start

variable {π τ : Type}

-- The readiness switch of `eventpoll_poll`, whose result lands in `ev->mask`.
def readyMask (events : UInt32) : UInt32 := (eventpollDeliver (eventInit 0 0 : Event Unit) events).mask

theorem deliver_mask (e : Event π) (events : UInt32) : (eventpollDeliver e events).mask = readyMask events := rfl

def interestBits (mask : UInt32) : UInt32 := mask &&& (EVMASK_READ ||| EVMASK_WRITE)

section Model
variable [DecidableEq π]

-- The calls of `eventpoll_apply` that `panding` makes, each with the mask its
-- event has at that moment.
def pandingCalls : Nat → (Nat → Faults) → Eventloop π τ → Option π → Option (List (π × UInt32))
  | 0,_,_,_ => none
  | _+1,_,_,none => some []
  | fuel+1,faults,loop,some ev => do
    let moved := {loop with pandings:=(loop.heap ev).next}
    let applied := (pollApply moved ev (faults 0)).2
    let rest ← pandingCalls fuel (fun n => faults (n+1)) applied applied.pandings
    some ((ev,(loop.heap ev).mask)::rest)

theorem pandingCalls_events (fuel : Nat) (faults : Nat → Faults) (loop : Eventloop π τ) (head : Option π) :
    (pandingCalls fuel faults loop head).map (List.map Prod.fst) = (pandingLoop fuel faults loop head).map Prod.fst := by
  induction fuel generalizing faults loop head with
  | zero => rfl
  | succ fuel ih =>
    cases head with
    | none => rfl
    | some ev =>
      let applied := (pollApply {loop with pandings:=(loop.heap ev).next} ev (faults 0)).2
      have tail := ih (fun n => faults (n+1)) applied applied.pandings
      simp only [pandingCalls,pandingLoop,Option.bind_eq_bind]
      cases calls : pandingCalls fuel (fun n => faults (n+1)) applied applied.pandings with
      | none =>
        rw [calls] at tail
        cases visited : pandingLoop fuel (fun n => faults (n+1)) applied applied.pandings with
        | none => rfl
        | some result =>
          rw [visited] at tail
          cases tail
      | some rest =>
        rw [calls] at tail
        cases visited : pandingLoop fuel (fun n => faults (n+1)) applied applied.pandings with
        | none =>
          rw [visited] at tail
          cases tail
        | some result =>
          rw [visited] at tail
          have same : rest.map Prod.fst = result.1 := Option.some.inj tail
          simp [same]

-- The next drain makes one call, for `ev`, and with the bits asked for.
def DrainRequests (loop : Eventloop π τ) (ev : π) (mask : UInt32) : Prop :=
  ∀ faults, ∃ enough seen, (∀ fuel, enough ≤ fuel → pandingCalls fuel faults loop loop.pandings = some [(ev,seen)]) ∧
    interestBits seen = interestBits mask

end Model

-- What may happen between the request and the drain: the loop thread's
-- deliveries of any readiness to any event, and whatever leaves `ev` alone.
def Quiet (ev : π) : Action π τ → Prop
  | .deliver _ _ => True
  | .poll _ => True
  | .wakeCb => True
  | .wakeup _ => True
  | .store _ other _ => other ≠ ev
  | .request other _ _ => other ≠ ev
  | .enqueue _ _ => False
  | .drain _ _ => False

def readied [DecidableEq π] (ev : π) : Action π τ → Option UInt32
  | .deliver other events => if other = ev then some events else none
  | _ => none

def lastReady [DecidableEq π] (ev : π) (window : List (Action π τ)) : Option UInt32 := (window.filterMap (readied ev)).getLast?

structure Linked (s : System π τ) : Prop where
  tail : s.loop.pandingsTail = s.loop.pandings
  unlinked : ∀ ev, (s.loop.heap ev).next = none

section Windows
variable [DecidableEq π]

theorem lastReady_cons {ev : π} {action : Action π τ} {rest : List (Action π τ)} {mask : UInt32} :
    (lastReady ev (action::rest)).elim mask readyMask =
      (lastReady ev rest).elim ((readied ev action).elim mask readyMask) readyMask := by
  unfold lastReady
  cases now : readied ev action with
  | none => rw [List.filterMap_cons_none now,Option.elim_none]
  | some events =>
    rw [List.filterMap_cons_some now,List.getLast?_cons]
    cases (rest.filterMap (readied ev)).getLast? <;> rfl

theorem lastReady_append {ev : π} {first second : List (Action π τ)} {mask : UInt32} :
    (lastReady ev (first++second)).elim mask readyMask =
      (lastReady ev second).elim ((lastReady ev first).elim mask readyMask) readyMask := by
  induction first generalizing mask with
  | nil => rfl
  | cons action rest ih => rw [List.cons_append,lastReady_cons,lastReady_cons,ih]

theorem calls_single {s : System π τ} {ev : π} (linked : Linked s) (queued : s.loop.pandings = some ev) (faults : Nat → Faults) :
    ∀ fuel, 2 ≤ fuel → pandingCalls fuel faults s.loop s.loop.pandings = some [(ev,(s.loop.heap ev).mask)] := by
  intro fuel enough
  obtain ⟨more,rfl⟩ := Nat.exists_eq_add_of_le' enough
  rw [queued,pandingCalls,linked.unlinked ev]
  rfl

theorem drains_iff_bits {s : System π τ} {ev : π} {mask : UInt32} (linked : Linked s) (queued : s.loop.pandings = some ev) :
    DrainRequests s.loop ev mask ↔ interestBits (s.loop.heap ev).mask = interestBits mask := by
  constructor
  · intro drains
    obtain ⟨enough,seen,calls,bits⟩ := drains fun _ => noFaults
    have same := (calls_single linked queued (fun _ => noFaults) (enough+2) (by omega)).symm.trans (calls (enough+2) (by omega))
    cases Option.some.inj same
    exact bits
  · intro bits faults
    exact ⟨2,_,calls_single linked queued faults,bits⟩

theorem setEvent_unlinked {loop : Eventloop π τ} (ev : π) (change : Event π → Event π)
    (unlinked : ∀ ev, (loop.heap ev).next = none) (keeps : ∀ e, (change e).next = e.next) (other : π) :
    ((setEvent loop ev change).heap other).next = none := by
  by_cases here : other = ev
  · rw [here,setEvent_here,keeps]
    exact unlinked ev
  · rw [setEvent_other here]
    exact unlinked other

theorem pollApply_other {loop : Eventloop π τ} {faults : Faults} (away : other ≠ ev) :
    (pollApply loop ev faults).2.heap other = loop.heap other := Function.update_of_ne away ..

theorem enqueue_linked {s : System π τ} (linked : Linked s) (ev : π) :
    applyPanding s.loop ev = some {s.loop with pandings:=some ev,pandingsTail:=some ev} := if_pos linked.tail.symm

theorem panding_linked {s : System π τ} (linked : Linked s) (ran : panding fuel faults s.loop = some (applied,loop)) :
    loop.pandingsTail = loop.pandings ∧ ∀ ev, (loop.heap ev).next = none := by
  have newest : s.loop.pandings.toList.getLast? = s.loop.pandings := by cases s.loop.pandings <;> rfl
  have single : Single ⟨s.loop,s.loop.pandings.toList⟩ := ⟨newest.symm,linked.tail.trans newest.symm,linked.unlinked⟩
  obtain ⟨_,after⟩ := panding_cases single ran
  exact ⟨after.tail.trans after.head.symm,after.unlinked⟩

variable [DecidableEq τ]

theorem step_linked {s next : System π τ} {action : Action π τ} (linked : Linked s) (stepped : Stepped s action next) :
    Linked next := by
  cases stepped with
  | @store thread ev mask foreign =>
    exact ⟨linked.tail,setEvent_unlinked ev (fun e => {e with mask:=mask}) linked.unlinked fun _ => rfl⟩
  | enqueue foreign idle enqueued =>
    cases Option.some.inj ((enqueue_linked linked _).symm.trans enqueued)
    exact ⟨rfl,linked.unlinked⟩
  | wakeup owes => exact ⟨linked.tail,linked.unlinked⟩
  | poll waiting reported => exact ⟨linked.tail,linked.unlinked⟩
  | wakeCb unread => exact ⟨linked.tail,linked.unlinked⟩
  | @deliver ev events away =>
    exact ⟨linked.tail,setEvent_unlinked ev (fun e => eventpollDeliver e events) linked.unlinked fun _ => rfl⟩
  | @request ev mask faults away =>
    have marked := setEvent_unlinked ev (fun e => {e with mask:=mask}) linked.unlinked fun _ => rfl
    exact ⟨linked.tail,pollApply_unlinked marked⟩
  | drain dispatched drained =>
    obtain ⟨tail,unlinked⟩ := panding_linked linked drained
    exact ⟨tail,unlinked⟩

theorem quiet_step {s next : System π τ} {action : Action π τ} {ev : π} (quiet : Quiet ev action)
    (stepped : Stepped s action next) : next.loop.pandings = s.loop.pandings ∧
      (next.loop.heap ev).mask = (readied ev action).elim (s.loop.heap ev).mask readyMask := by
  cases stepped with
  | store foreign =>
    refine ⟨rfl,?_⟩
    rw [setEvent_other (Ne.symm quiet)]
    rfl
  | enqueue foreign idle enqueued => exact quiet.elim
  | wakeup owes => exact ⟨rfl,rfl⟩
  | poll waiting reported => exact ⟨rfl,rfl⟩
  | wakeCb unread => exact ⟨rfl,rfl⟩
  | @deliver other events away =>
    refine ⟨rfl,?_⟩
    by_cases here : other = ev
    · subst here
      rw [setEvent_here,deliver_mask,readied,if_pos rfl,Option.elim_some]
    · rw [setEvent_other (Ne.symm here),readied,if_neg here,Option.elim_none]
  | request away =>
    refine ⟨rfl,?_⟩
    rw [pollApply_other (Ne.symm quiet),setEvent_other (Ne.symm quiet)]
    rfl
  | drain dispatched drained => exact quiet.elim

-- Over a whole window only the last readiness delivered to the event counts.
theorem quiet_run {s last : System π τ} {window : List (Action π τ)} {ev : π} (quiet : ∀ action ∈ window, Quiet ev action)
    (linked : Linked s) (ran : exec step s window = some last) : Linked last ∧ last.loop.pandings = s.loop.pandings ∧
      (last.loop.heap ev).mask = (lastReady ev window).elim (s.loop.heap ev).mask readyMask := by
  induction window generalizing s with
  | nil =>
    cases Option.some.inj ran
    exact ⟨linked,rfl,rfl⟩
  | cons action rest ih =>
    obtain ⟨next,one,tail⟩ := exec_cons.mp ran
    have stepped := step_stepped one
    obtain ⟨kept,mask⟩ := quiet_step (quiet action List.mem_cons_self) stepped
    obtain ⟨final,pandings,seen⟩ := ih (fun other member => quiet other (List.mem_cons_of_mem _ member))
      (step_linked linked stepped) tail
    refine ⟨final,pandings.trans kept,?_⟩
    rw [seen,lastReady_cons,mask]

-- The state after storing the mask, a window, the hand-over and a second window.
theorem requested_run {s last : System π τ} {before after : List (Action π τ)} {thread : τ} {ev : π} {mask : UInt32}
    (linked : Linked s) (first : ∀ action ∈ before, Quiet ev action) (second : ∀ action ∈ after, Quiet ev action)
    (ran : exec step s (.store thread ev mask::(before++.enqueue thread ev::after)) = some last) :
    Linked last ∧ last.loop.pandings = some ev ∧
      (last.loop.heap ev).mask = (lastReady ev (before++after)).elim mask readyMask := by
  obtain ⟨stored,one,rest⟩ := exec_cons.mp ran
  rw [exec_append] at rest
  obtain ⟨asked,quiet,rest⟩ := Option.bind_eq_some_iff.mp rest
  obtain ⟨queued,two,rest⟩ := exec_cons.mp rest
  obtain ⟨linked1,_,mask1⟩ := quiet_run first (step_linked linked (step_stepped one)) quiet
  obtain ⟨linked3,pandings,mask3⟩ := quiet_run second (step_linked linked1 (step_stepped two)) rest
  have begun : (stored.loop.heap ev).mask = mask := by
    cases step_stepped one
    rw [setEvent_here]
  have handed : queued.loop.pandings = some ev ∧ queued.loop.heap = asked.loop.heap := by
    cases step_stepped two with
    | enqueue foreign idle enqueued =>
      cases Option.some.inj ((enqueue_linked linked1 _).symm.trans enqueued)
      exact ⟨rfl,rfl⟩
  refine ⟨linked3,pandings.trans handed.1,?_⟩
  rw [mask3,handed.2,mask1,begun,lastReady_append]

theorem reached_linked {interest : Int → Option (UInt32 × π)} {errno : Int} {fd : π → Int} {masks : π → UInt32} {me : τ}
    {history : List (Action π τ)} {s : System π τ} (reached : exec step (start interest errno fd masks me) history = some s) :
    Linked s := by
  have begin : Linked (start interest errno fd masks me) := ⟨rfl,fun _ => rfl⟩
  exact exec_guarded (fun _ _ _ linked _ one => step_linked linked (step_stepped one)) begin along_true reached

theorem request_survives_iff {interest : Int → Option (UInt32 × π)} {errno : Int} {fd : π → Int} {masks : π → UInt32} {me : τ}
    {history before after : List (Action π τ)} {s last : System π τ} {thread : τ} {ev : π} {mask : UInt32}
    (reached : exec step (start interest errno fd masks me) history = some s)
    (first : ∀ action ∈ before, Quiet ev action) (second : ∀ action ∈ after, Quiet ev action)
    (ran : exec step s (.store thread ev mask::(before++.enqueue thread ev::after)) = some last) :
    DrainRequests last.loop ev mask ↔
      ∀ events, lastReady ev (before++after) = some events → interestBits (readyMask events) = interestBits mask := by
  obtain ⟨final,queued,seen⟩ := requested_run (reached_linked reached) first second ran
  rw [drains_iff_bits final queued,seen]
  cases lastReady ev (before++after) with
  | none =>
    refine ⟨?_,fun _ => rfl⟩
    intro _ events impossible
    cases impossible
  | some events =>
    refine ⟨?_,fun bits => bits events rfl⟩
    intro bits events' same
    cases Option.some.inj same
    exact bits

end Windows

-- Event 0 is registered for reading by the loop thread, which then stands
-- before its drain.
def registeredRead : List (EventloopThreads.Action Nat Nat) := [.poll false,.request 0 EVMASK_READ noFaults]
def readyWindow : List (EventloopThreads.Action Nat Nat) := [.wakeup 1,.deliver 0 EPOLLIN]

theorem ready_window_quiet : ∀ action ∈ readyWindow, Quiet 0 action := by
  intro action member
  simp only [readyWindow,List.mem_cons,List.not_mem_nil,or_false] at member
  rcases member with rfl | rfl <;> trivial

theorem read_request_survives : ∃ s last, exec step idleLoop registeredRead = some s ∧
    exec step s (.store 1 0 EVMASK_READ::([]++.enqueue 1 0::readyWindow)) = some last ∧
    DrainRequests last.loop 0 EVMASK_READ := by
  have returns : ((exec step idleLoop registeredRead).bind
      (exec step · (.store 1 0 EVMASK_READ::([]++.enqueue 1 0::readyWindow)))).isSome = true := by decide
  obtain ⟨last,both⟩ := Option.isSome_iff_exists.mp returns
  obtain ⟨s,reached,ran⟩ := Option.bind_eq_some_iff.mp both
  refine ⟨s,last,reached,ran,(request_survives_iff reached (by simp) ready_window_quiet ran).mpr ?_⟩
  intro events last_ready
  cases Option.some.inj last_ready
  decide

-- The request for both directions is replaced by the readiness reported meanwhile.
theorem write_request_overwritten : ∃ s last, exec step idleLoop registeredRead = some s ∧
    s.loop.poll.interest 0 = some (EPOLLIN ||| DEFAULT_POLL_MASK,0) ∧
    exec step s (.store 1 0 (EVMASK_READ ||| EVMASK_WRITE)::([]++.enqueue 1 0::readyWindow)) = some last ∧
    pandingCalls 2 (fun _ => noFaults) last.loop last.loop.pandings = some [(0,EVMASK_READ)] ∧
    ¬ DrainRequests last.loop 0 (EVMASK_READ ||| EVMASK_WRITE) := by
  have registered : (exec step idleLoop registeredRead).map (fun s => s.loop.poll.interest 0) =
      some (some (EPOLLIN ||| DEFAULT_POLL_MASK,0)) := by decide
  obtain ⟨s,reached,entry⟩ := Option.map_eq_some_iff.mp registered
  have drained : ((exec step idleLoop registeredRead).bind
      (exec step · (.store 1 0 (EVMASK_READ ||| EVMASK_WRITE)::([]++.enqueue 1 0::readyWindow)))).map
        (fun last => pandingCalls 2 (fun _ => noFaults) last.loop last.loop.pandings) = some (some [(0,EVMASK_READ)]) := by
    decide
  rw [reached,Option.bind_some] at drained
  obtain ⟨last,ran,calls⟩ := Option.map_eq_some_iff.mp drained
  refine ⟨s,last,reached,entry,ran,calls,?_⟩
  obtain ⟨final,queued,seen⟩ := requested_run (reached_linked reached) (by simp) ready_window_quiet ran
  rw [drains_iff_bits final queued,seen]
  decide

end EventLib.EventloopRequests

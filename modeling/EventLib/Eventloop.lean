import EventLib.Epoll
import EventLib.LabelledRuns

namespace EventLib.Eventloops
open Events Epoll LabelledRuns

-- `π` addresses events, `τ` names threads. `poll`'s own fields are the kernel.
structure Eventloop (π τ : Type) where
  poll : Kernel π
  heap : π → Event π
  me : τ
  pandings : Option π
  pandingsTail : Option π

variable {π τ : Type}

-- `eventloop_init` after its memset: nothing is pending.
def eventloopInit (poll : Kernel π) (heap : π → Event π) (me : τ) : Eventloop π τ := ⟨poll,heap,me,none,none⟩

section Model
variable [DecidableEq π]

def setEvent (loop : Eventloop π τ) (ev : π) (change : Event π → Event π) : Eventloop π τ :=
  {loop with heap:=Function.update loop.heap ev (change (loop.heap ev))}

@[simp] theorem setEvent_here {loop : Eventloop π τ} {change : Event π → Event π} :
    (setEvent loop ev change).heap ev = change (loop.heap ev) := Function.update_self ..

theorem setEvent_other {loop : Eventloop π τ} {change : Event π → Event π} (away : other ≠ ev) :
    (setEvent loop ev change).heap other = loop.heap other := Function.update_of_ne away ..

def pollApply (loop : Eventloop π τ) (ev : π) (faults : Faults) : Int × Eventloop π τ :=
  let answer := eventpollApply loop.poll ev (loop.heap ev) faults
  (answer.1,{loop with poll:=answer.2.2,heap:=Function.update loop.heap ev answer.2.1})

-- The body of `apply_panding`, which runs under `panding_lock`. The other
-- branch reads through the tail, so a NULL there is undefined.
def applyPanding (loop : Eventloop π τ) (ev : π) : Option (Eventloop π τ) :=
  if loop.pandings = loop.pandingsTail then some {loop with pandings:=some ev,pandingsTail:=some ev}
  else loop.pandingsTail.map fun tail =>
    {loop with heap:=Function.update loop.heap tail {loop.heap tail with next:=some ev},pandingsTail:=some ev}

def eventloopApply [DecidableEq τ] (loop : Eventloop π τ) (self : τ) (ev : π) (faults : Faults) : Option (Int × Eventloop π τ) :=
  if loop.me = self then some (pollApply loop ev faults)
  else (applyPanding loop ev).map fun loop => (0,{loop with poll:=eventpollWakeup loop.poll})

theorem own_apply [DecidableEq τ] (loop : Eventloop π τ) (ev : π) (faults : Faults) :
    eventloopApply loop loop.me ev faults = some (pollApply loop ev faults) := if_pos rfl

-- The while loop of `panding`, with the events it applies. It follows `next`
-- pointers of shared memory, so it is given fuel.
def pandingLoop : Nat → (Nat → Faults) → Eventloop π τ → Option π → Option (List π × Eventloop π τ)
  | 0,_,_,_ => none
  | _+1,_,loop,none => some ([],loop)
  | fuel+1,faults,loop,some ev => do
    let loop := {loop with pandings:=(loop.heap ev).next}
    let loop := (pollApply loop ev (faults 0)).2
    let (rest,loop) ← pandingLoop fuel (fun n => faults (n+1)) loop loop.pandings
    some (ev::rest,loop)

def panding (fuel : Nat) (faults : Nat → Faults) (loop : Eventloop π τ) : Option (List π × Eventloop π τ) :=
  (pandingLoop fuel faults loop loop.pandings).map fun (applied,loop) =>
    (applied,{loop with pandings:=none,pandingsTail:=none})

end Model

-- Calls of `eventloop_apply` from any threads and drains by the loop thread;
-- each runs under `panding_lock` where it touches the list, so it is one step.
inductive Action (π τ : Type) where
  | apply (thread : τ) (ev : π) (faults : Faults)
  | drain (fuel : Nat) (faults : Nat → Faults)

-- `queued` lists the events handed over since the last drain, oldest first.
structure Session (π τ : Type) where
  loop : Eventloop π τ
  queued : List π

def start (poll : Kernel π) (fd : π → Int) (mask : π → UInt32) (me : τ) : Session π τ :=
  ⟨eventloopInit poll (fun ev => eventInit (fd ev) (mask ev)) me,[]⟩

-- Head and tail are compared as if equality meant an empty list, so the list
-- never grows past its newest event and no `next` pointer is ever set.
structure Single (s : Session π τ) : Prop where
  head : s.loop.pandings = s.queued.getLast?
  tail : s.loop.pandingsTail = s.queued.getLast?
  unlinked : ∀ ev, (s.loop.heap ev).next = none

theorem start_single (poll : Kernel π) (fd : π → Int) (mask : π → UInt32) (me : τ) : Single (start poll fd mask me) :=
  ⟨rfl,rfl,fun _ => rfl⟩

theorem toList_getLast_iff (queued : List π) : queued.getLast?.toList = queued ↔ queued.length ≤ 1 := by
  cases queued with
  | nil => simp
  | cons ev rest =>
    rw [List.getLast?_cons]
    cases rest with
    | nil => simp
    | cons ev' rest => simp

section Drains
variable [DecidableEq π]

theorem pollApply_unlinked {loop : Eventloop π τ} {ev : π} {faults : Faults} (unlinked : ∀ ev, (loop.heap ev).next = none)
    (other : π) : ((pollApply loop ev faults).2.heap other).next = none := by
  simp only [pollApply]
  by_cases here : other = ev
  · rw [here,Function.update_self,eventpollApply_next]
    exact unlinked ev
  · rw [Function.update_of_ne here]
    exact unlinked other

theorem pandingLoop_one {loop : Eventloop π τ} {ev : π} (unlinked : ∀ ev, (loop.heap ev).next = none) :
    pandingLoop (fuel+1) faults loop (some ev) =
      (pandingLoop fuel (fun n => faults (n+1)) (pollApply {loop with pandings:=none} ev (faults 0)).2 none).map
        fun (rest,loop) => (ev::rest,loop) := by
  rw [pandingLoop,unlinked ev,Option.map_eq_bind]
  rfl

theorem panding_cases {s : Session π τ} (single : Single s) (ran : panding fuel faults s.loop = some (applied,loop)) :
    applied = s.queued.getLast?.toList ∧ Single ⟨loop,[]⟩ := by
  obtain ⟨⟨visited,after⟩,looped,same⟩ := Option.map_eq_some_iff.mp ran
  cases same
  rw [single.head] at looped
  cases newest : s.queued.getLast? with
  | none =>
    rw [newest] at looped
    cases fuel with
    | zero => cases looped
    | succ fuel =>
      cases Option.some.inj looped
      exact ⟨rfl,rfl,rfl,single.unlinked⟩
  | some ev =>
    rw [newest] at looped
    cases fuel with
    | zero => cases looped
    | succ fuel =>
      rw [pandingLoop_one single.unlinked] at looped
      cases fuel with
      | zero => cases looped
      | succ fuel =>
        cases Option.some.inj looped
        exact ⟨rfl,rfl,rfl,pollApply_unlinked single.unlinked⟩

theorem panding_returns {s : Session π τ} (single : Single s) (faults : Nat → Faults) :
    ∃ loop, ∀ fuel, 2 ≤ fuel → panding fuel faults s.loop = some (s.queued.getLast?.toList,loop) := by
  unfold panding
  rw [single.head]
  cases s.queued.getLast? with
  | none =>
    refine ⟨{s.loop with pandings:=none,pandingsTail:=none},?_⟩
    intro fuel enough
    obtain ⟨more,rfl⟩ := Nat.exists_eq_add_of_le' enough
    rfl
  | some ev =>
    let after := (pollApply {s.loop with pandings:=none} ev (faults 0)).2
    refine ⟨{after with pandings:=none,pandingsTail:=none},?_⟩
    intro fuel enough
    obtain ⟨more,rfl⟩ := Nat.exists_eq_add_of_le' enough
    rw [pandingLoop_one single.unlinked]
    rfl

variable [DecidableEq τ]

def step (s : Session π τ) : Action π τ → Option (Session π τ)
  | .apply thread ev faults => (eventloopApply s.loop thread ev faults).map fun (_,loop) =>
      ⟨loop,if s.loop.me = thread then s.queued else s.queued++[ev]⟩
  | .drain fuel faults => (panding fuel faults s.loop).map fun (_,loop) => ⟨loop,[]⟩

-- Handing over is defined, and a drain returns after applying exactly what was
-- handed over since the one before, each once and in that order.
def DrainsAll (s : Session π τ) : Action π τ → Prop
  | .apply thread ev faults => ∃ result, eventloopApply s.loop thread ev faults = some result
  | .drain _ faults => ∃ loop enough, ∀ fuel, enough ≤ fuel → panding fuel faults s.loop = some (s.queued,loop)

def AtMostOne (s : Session π τ) : Action π τ → Prop
  | .apply _ _ _ => True
  | .drain _ _ => s.queued.length ≤ 1

theorem apply_single {s : Session π τ} (single : Single s) (thread : τ) (ev : π) (faults : Faults) :
    ∃ result, eventloopApply s.loop thread ev faults = some result ∧
      Single ⟨result.2,if s.loop.me = thread then s.queued else s.queued++[ev]⟩ := by
  unfold eventloopApply
  split
  · exact ⟨_,rfl,single.head,single.tail,pollApply_unlinked single.unlinked⟩
  · rw [applyPanding,if_pos (single.head.trans single.tail.symm)]
    refine ⟨_,rfl,?_,?_,single.unlinked⟩
    · exact List.getLast?_concat.symm
    · exact List.getLast?_concat.symm

theorem step_single {s next : Session π τ} {action : Action π τ} (single : Single s) (ran : step s action = some next) :
    Single next := by
  cases action with
  | apply thread ev faults =>
    obtain ⟨result,applied,after⟩ := apply_single single thread ev faults
    rw [step,applied] at ran
    cases Option.some.inj ran
    exact after
  | drain fuel faults =>
    obtain ⟨⟨applied,loop⟩,drained,rfl⟩ := Option.map_eq_some_iff.mp ran
    exact (panding_cases single drained).2

theorem drainsAll_exact {s : Session π τ} (single : Single s) (action : Action π τ) :
    DrainsAll s action ↔ AtMostOne s action := by
  cases action with
  | apply thread ev faults =>
    obtain ⟨result,applied,_⟩ := apply_single single thread ev faults
    exact ⟨fun _ => trivial,fun _ => ⟨result,applied⟩⟩
  | drain fuel faults =>
    obtain ⟨loop,returns⟩ := panding_returns single faults
    rw [AtMostOne,← toList_getLast_iff]
    constructor
    · rintro ⟨other,enough,all⟩
      have same := (returns (enough+2) (by omega)).symm.trans (all (enough+2) (by omega))
      exact congrArg Prod.fst (Option.some.inj same)
    · intro newest
      refine ⟨loop,2,?_⟩
      rw [← newest]
      exact returns

theorem drains_all_iff_single (poll : Kernel π) (fd : π → Int) (mask : π → UInt32) (me : τ) (actions : List (Action π τ)) :
    Along step DrainsAll (start poll fd mask me) actions ↔ Along step AtMostOne (start poll fd mask me) actions := by
  refine along_iff ?_ ?_ (start_single poll fd mask me) along_true
  · intro s action single _
    exact drainsAll_exact single action
  · intro s action next single _ _ ran
    exact step_single single ran

end Drains

def idleKernel : Kernel Nat := ⟨fun _ => none,0,0⟩
def twoEvents : Session Nat Nat := start idleKernel (fun ev => ev) (fun _ => EVMASK_READ) 0
def noFaults : Faults := (none,none)
def twoHandovers : List (Action Nat Nat) := [.apply 1 0 noFaults,.apply 2 1 noFaults]

-- Threads 1 and 2 hand over events 0 and 1 to the loop of thread 0; the drain
-- that follows applies event 1 only.
theorem second_handover_drops_first :
    ¬ Along step DrainsAll twoEvents (twoHandovers++[.drain 2 fun _ => noFaults]) ∧
    (exec step twoEvents twoHandovers).bind
      (fun s => (panding 2 (fun _ => noFaults) s.loop).map fun drained => (s.queued,drained.1)) = some ([0,1],[1]) := by
  refine ⟨?_,by decide⟩
  intro all
  obtain ⟨_,rest⟩ := (along_cons rfl).mp all
  obtain ⟨_,rest⟩ := (along_cons rfl).mp rest
  have single := step_single (step_single (start_single _ _ _ _)
    (show step twoEvents (.apply 1 0 noFaults) = _ from rfl)) (show step _ (.apply 2 1 noFaults) = _ from rfl)
  have few : 2 ≤ 1 := (drainsAll_exact single _).mp rest.1
  exact absurd few (by decide)

end EventLib.Eventloops

import EventLib.EnabledFlag
import EventLib.EdgeTriggered

namespace EventLib.ListenerBacklog
open Events Epoll Listeners LabelledRuns EdgeTriggered
open Eventloops hiding Action Session step start
open EnabledFlag (entry Agrees Edged enabled_edged deliver_entry request idleLoop)

-- `backlog` counts the connections the kernel has completed and nobody took.
structure Listening (π τ : Type) where
  loop : Eventloop π τ
  lstn : Listener π
  backlog : Nat
  accepted : List Accepted

variable {π τ : Type}

-- accept(2) takes the oldest connection under the descriptor the kernel picks.
def accept (w : Listening π τ) (fd : Int) : Option Int × Listening π τ :=
  if w.backlog = 0 then (none,w) else (some fd,{w with backlog:=w.backlog-1})

def listening [DecidableEq π] : Device (Listening π τ) Unit UInt32 (Int × Bool) where
  arrive w _ := {w with backlog:=w.backlog+1}
  report w events :=
    if Edged (entry w.loop w.lstn.ev) then
      some {w with loop:=setEvent w.loop w.lstn.ev fun ev => eventpollDeliver ev events}
    else none
  handle w reaction :=
    let answer := accept w reaction.1
    some {answer.2 with accepted:=w.accepted++[acceptDispatch answer.1 reaction.2]}

def Drained (w : Listening π τ) : Prop := w.backlog = 0

instance : DecidablePred (Drained (π:=π) (τ:=τ)) := fun w => inferInstanceAs (Decidable (w.backlog = 0))

def start (loop : Eventloop π τ) (lstn : Listener π) : State (Listening π τ) := ⟨⟨loop,lstn,0,[]⟩,false,true⟩

def Registered (s : State (Listening π τ)) : Prop := Edged (entry s.work.loop s.work.lstn.ev)

-- A dispatch finds one connection at most, or another arrival since the report.
def OneWaiting (s : State (Listening π τ)) : Action Unit UInt32 (Int × Bool) → Prop
  | .handle _ => s.waiting = false → s.edge = true ∨ s.work.backlog ≤ 1
  | _ => True

instance (s : State (Listening π τ)) : ∀ action, Decidable (OneWaiting s action)
  | .handle _ => inferInstanceAs (Decidable (_ → _ ∨ _))
  | .arrive _ => isTrue trivial
  | .report _ => isTrue trivial

theorem accept_backlog (w : Listening π τ) (fd : Int) : (accept w fd).2.backlog = w.backlog-1 := by
  unfold accept
  split
  · rename_i empty
    simp [empty]
  · rfl

section Proofs
variable [DecidableEq π]

theorem step_registered {s next : State (Listening π τ)} {action : Action Unit UInt32 (Int × Bool)}
    (edged : Registered s) (ran : step listening s action = some next) : Registered next := by
  cases action with
  | arrive arrival =>
    cases Option.some.inj ran
    exact edged
  | report events =>
    obtain ⟨_,reported⟩ := Option.ite_none_right_eq_some.mp ran
    obtain ⟨work,did,rfl⟩ := Option.map_eq_some_iff.mp reported
    obtain ⟨_,same⟩ := Option.ite_none_right_eq_some.mp did
    cases Option.some.inj same
    simpa only [Registered,deliver_entry] using edged
  | handle reaction =>
    obtain ⟨_,handled⟩ := Option.ite_none_left_eq_some.mp ran
    obtain ⟨work,did,rfl⟩ := Option.map_eq_some_iff.mp handled
    cases Option.some.inj did
    simp only [Registered,accept]
    split <;> exact edged

theorem clears_iff_one (s : State (Listening π τ)) (action : Action Unit UInt32 (Int × Bool)) :
    Clears listening Drained s action ↔ OneWaiting s action := by
  cases action with
  | arrive arrival => exact Iff.rfl
  | report readiness => exact Iff.rfl
  | handle reaction =>
    simp only [Clears,OneWaiting,listening,Option.some.injEq,forall_eq',Drained,accept_backlog,Nat.sub_eq_zero_iff_le]
    cases s.edge with
    | true => simp
    | false => simp

-- With the edge up `epoll_wait` does report, so a wait that is not stranded ends.
theorem never_stranded_iff_one {loop : Eventloop π τ} {lstn : Listener π} (enabled : Agrees loop lstn.ev true)
    (actions : List (Action Unit UInt32 (Int × Bool))) :
    (Along (step listening) (After (step listening) fun next => ¬ Stranded Drained next) (start loop lstn) actions ↔
      Along (step listening) OneWaiting (start loop lstn) actions) ∧
    ∀ last, exec (step listening) (start loop lstn) actions = some last → last.waiting = true → last.edge = true →
      ∀ events, ∃ next, step listening last (.report events) = some next := by
  constructor
  · rw [never_stranded_iff]
    exact along_congr clears_iff_one
  · intro last ran waiting raised events
    have registered : Registered (start loop lstn) := enabled_edged enabled
    have edged : Registered last :=
      exec_guarded (fun _ _ _ registered _ one => step_registered registered one) registered along_true ran
    simp [step,waiting,raised,listening,show Edged (entry last.work.loop last.work.lstn.ev) from edged]

end Proofs

def spacedArrivals : List (Action Unit UInt32 (Int × Bool)) :=
  [.arrive (),.report EPOLLIN,.handle (7,true),.arrive (),.report EPOLLIN,.arrive (),.handle (8,true),.report EPOLLIN,
    .handle (9,true)]

theorem spaced_arrivals_accepted : ∃ loop lstn, listenerEnable idleLoop 0 (listenerNew 3) 1 true (none,none) = some (0,lstn,loop) ∧
    Agrees loop lstn.ev true ∧
    Along (step listening) (After (step listening) fun next => ¬ Stranded Drained next) (start loop lstn) spacedArrivals ∧
    (exec (step listening) (start loop lstn) spacedArrivals).map (fun last => last.work.accepted) =
      some [.handed 7,.handed 8,.handed 9] := by
  have enabled : Agrees (request idleLoop 3 true (none,none)).2 3 true := ⟨by decide,by decide⟩
  have one : Along (step listening) OneWaiting (start (request idleLoop 3 true (none,none)).2 ⟨3,1,1⟩) spacedArrivals := by
    decide
  exact ⟨_,⟨3,1,1⟩,rfl,enabled,(never_stranded_iff_one enabled spacedArrivals).1.mpr one,by decide⟩

-- Two connections arrive before the one report; the second stays in the kernel
-- while the loop waits for an edge that no arrival will raise.
theorem second_connection_stranded : ∃ loop lstn last,
    listenerEnable idleLoop 0 (listenerNew 3) 1 true (none,none) = some (0,lstn,loop) ∧ Agrees loop lstn.ev true ∧
    exec (step listening) (start loop lstn) [.arrive (),.arrive (),.report EPOLLIN,.handle (7,true)] = some last ∧
    last.work.backlog = 1 ∧ last.work.accepted = [.handed 7] ∧ Stranded Drained last :=
  ⟨_,⟨3,1,1⟩,_,rfl,⟨by decide,by decide⟩,rfl,rfl,rfl,by decide⟩

end EventLib.ListenerBacklog

import EventLib.CriticalSections
import EventLib.Eventloop

namespace EventLib.EventloopLock
open Events Epoll Eventloops LabelledRuns
open CriticalSections hiding start step

-- One turn of the loop in `mtx_lock`: the word is set, and was it 0?
def mtxLock (v : Int) : Int × Bool := (1,v = 0)
def mtxUnlock (_ : Int) : Int := 0

def mtx : Mutex Int where
  attempt := mtxLock
  release := mtxUnlock
  free v := v = 0
  taken v := by simp [mtxLock]
  kept v := by simp [mtxLock]
  released v := rfl

-- The memory that `panding_lock` guards. Masks and descriptors are not in it;
-- `eventpoll_apply` writes no `next` pointer.
structure Links (π : Type) where
  pandings : Option π
  pandingsTail : Option π
  next : π → Option π

-- Where a thread stands between lock and unlock, one place for each load or
-- store: the first seven in `apply_panding`, the others in `panding` with the
-- events applied so far.
inductive Place (π : Type) where
  | readHead (ev : π)
  | readTail (ev : π) (head : Option π)
  | storeTail (ev : π)
  | storeHead (ev : π)
  | loadTail (ev : π)
  | link (ev : π) (tail : Option π)
  | moveTail (ev : π)
  | first
  | readNext (ev : π) (applied : List π)
  | storeNext (ev : π) (next : Option π) (applied : List π)
  | apply (ev : π) (applied : List π)
  | reload (applied : List π)
  | clearTail (applied : List π)
  | clearHead (applied : List π)
  | done (applied : List π)
deriving DecidableEq

-- The test of the while loop.
def while_ (ev : Option π) (applied : List π) : Place π :=
  match ev with
  | some ev => .readNext ev applied
  | none => .clearTail applied

def access [DecidableEq π] (l : Links π) : Place π → Option (Links π × Place π)
  | .readHead ev => some (l,.readTail ev l.pandings)
  | .readTail ev head => some (l,if head = l.pandingsTail then .storeTail ev else .loadTail ev)
  | .storeTail ev => some ({l with pandingsTail:=some ev},.storeHead ev)
  | .storeHead ev => some ({l with pandings:=some ev},.done [])
  | .loadTail ev => some (l,.link ev l.pandingsTail)
  | .link ev tail => tail.map fun tail => ({l with next:=Function.update l.next tail (some ev)},.moveTail ev)
  | .moveTail ev => some ({l with pandingsTail:=some ev},.done [])
  | .first => some (l,while_ l.pandings [])
  | .readNext ev applied => some (l,.storeNext ev (l.next ev) applied)
  | .storeNext ev next applied => some ({l with pandings:=next},.apply ev applied)
  | .apply ev applied => some (l,.reload (applied++[ev]))
  | .reload applied => some (l,while_ l.pandings applied)
  | .clearTail applied => some ({l with pandingsTail:=none},.clearHead applied)
  | .clearHead applied => some ({l with pandings:=none},.done applied)
  | .done _ => none

def finished : Place π → Bool
  | .done _ => true
  | _ => false

def region (π : Type) [DecidableEq π] : Region (Links π) (Place π) := ⟨finished,access⟩

def idle : Links π := ⟨none,none,fun _ => none⟩

-- Foreign threads hand over, the loop's own thread drains.
def Mine (me thread : τ) : Place π → Prop
  | .readHead _ => thread ≠ me
  | .first => thread = me
  | _ => False

-- The same call as one step of the loop's model.
def request (call : τ × Place π × Place π) : Action π τ :=
  match call.2.1 with
  | .readHead ev => .apply call.1 ev noFaults
  | _ => .drain 2 fun _ => noFaults

def queue (queued : List π) : Place π → List π
  | .readHead ev => queued++[ev]
  | _ => []

-- The events handed over since the last drain, oldest first.
def since (history : List (τ × Place π × Place π)) : List π :=
  history.foldl (fun queued call => queue queued call.2.1) []

def answer (queued : List π) : Place π → List π
  | .first => queued.getLast?.toList
  | _ => []

theorem since_concat (history : List (τ × Place π × Place π)) (call : τ × Place π × Place π) :
    since (history++[call]) = queue (since history) call.2.1 := by
  simp [since,List.foldl_append]

variable {π τ : Type}

def links (loop : Eventloop π τ) : Links π := ⟨loop.pandings,loop.pandingsTail,fun ev => (loop.heap ev).next⟩

section Accesses
variable [DecidableEq π]

theorem links_pollApply (loop : Eventloop π τ) (ev : π) (faults : Faults) : links (pollApply loop ev faults).2 = links loop := by
  simp only [links,pollApply,Links.mk.injEq,true_and]
  funext other
  by_cases here : other = ev
  · rw [here,Function.update_self,eventpollApply_next]
  · rw [Function.update_of_ne here]

-- The accesses of `apply_panding`, made by one thread alone, are the step of
-- the loop's model.
theorem push_reaches {loop after : Eventloop π τ} {ev : π} (linked : applyPanding loop ev = some after) :
    Reaches (region π) (links loop) (.readHead ev) (links after) (.done []) := by
  refine .next rfl rfl (.next rfl rfl ?_)
  rw [applyPanding] at linked
  by_cases empty : loop.pandings = loop.pandingsTail
  · rw [if_pos empty] at linked
    cases Option.some.inj linked
    show Reaches (region π) (links loop) (if loop.pandings = loop.pandingsTail then _ else _) _ _
    rw [if_pos empty]
    exact .next rfl rfl (.next rfl rfl .refl)
  · rw [if_neg empty] at linked
    obtain ⟨tail,there,rfl⟩ := Option.map_eq_some_iff.mp linked
    show Reaches (region π) (links loop) (if loop.pandings = loop.pandingsTail then _ else _) _ _
    rw [if_neg empty]
    have chained : links {loop with heap:=Function.update loop.heap tail {loop.heap tail with next:=some ev},pandingsTail:=some ev} =
        ⟨loop.pandings,some ev,Function.update (links loop).next tail (some ev)⟩ := by
      simp only [links,Links.mk.injEq,true_and]
      funext other
      by_cases here : other = tail
      · rw [here,Function.update_self,Function.update_self]
      · rw [Function.update_of_ne here,Function.update_of_ne here]
    rw [chained]
    have target : access (links loop) (.link ev loop.pandingsTail) =
        some ({links loop with next:=Function.update (links loop).next tail (some ev)},.moveTail ev) := by
      rw [access,there]
      rfl
    exact .next rfl rfl (.next rfl target (.next rfl rfl .refl))

theorem drain_reaches_loop {fuel : Nat} {faults : Nat → Faults} {loop after : Eventloop π τ} {head : Option π} {rest : List π}
    (ran : pandingLoop fuel faults loop head = some (rest,after)) (applied : List π) :
    Reaches (region π) (links loop) (while_ head applied) (links after) (.clearTail (applied++rest)) := by
  induction fuel generalizing faults loop head rest applied with
  | zero => cases ran
  | succ fuel ih =>
    cases head with
    | none =>
      cases Option.some.inj ran
      rw [List.append_nil]
      exact .refl
    | some ev =>
      simp only [pandingLoop,Option.bind_eq_bind] at ran
      obtain ⟨⟨visited,last⟩,tail,same⟩ := Option.bind_eq_some_iff.mp ran
      cases Option.some.inj same
      have later := ih tail (applied++[ev])
      rw [links_pollApply,List.append_assoc,List.singleton_append] at later
      exact .next rfl rfl (.next rfl rfl (.next rfl rfl (.next rfl rfl later)))

theorem drain_reaches {fuel : Nat} {faults : Nat → Faults} {loop after : Eventloop π τ} {applied : List π}
    (ran : panding fuel faults loop = some (applied,after)) :
    Reaches (region π) (links loop) .first (links after) (.done applied) := by
  obtain ⟨⟨visited,last⟩,looped,same⟩ := Option.map_eq_some_iff.mp ran
  cases same
  refine .next rfl rfl ((drain_reaches_loop looped []).trans ?_)
  exact .next rfl rfl (.next rfl rfl .refl)

theorem pandingLoop_me {fuel : Nat} {faults : Nat → Faults} {loop after : Eventloop π τ} {head : Option π} {applied : List π}
    (ran : pandingLoop fuel faults loop head = some (applied,after)) : after.me = loop.me := by
  induction fuel generalizing faults loop head applied with
  | zero => cases ran
  | succ fuel ih =>
    cases head with
    | none =>
      cases Option.some.inj ran
      rfl
    | some ev =>
      simp only [pandingLoop,Option.bind_eq_bind] at ran
      obtain ⟨⟨rest,last⟩,tail,same⟩ := Option.bind_eq_some_iff.mp ran
      cases Option.some.inj same
      exact (ih tail).trans rfl

theorem panding_me {fuel : Nat} {faults : Nat → Faults} {loop after : Eventloop π τ} {applied : List π}
    (ran : panding fuel faults loop = some (applied,after)) : after.me = loop.me := by
  obtain ⟨⟨visited,last⟩,looped,same⟩ := Option.map_eq_some_iff.mp ran
  cases same
  have kept : last.me = loop.me := pandingLoop_me looped
  exact kept

variable [DecidableEq τ]

-- One section alone and the one step it stands for.
theorem section_ends {s : Session π τ} {me t : τ} {entry : Place π} (single : Single s) (own : s.loop.me = me)
    (mine : Mine me t entry) (exit : Place π) : ∃ next, step s (request (t,entry,exit)) = some next ∧ Single next ∧ next.loop.me = me ∧
      next.queued = queue s.queued entry ∧
      Reaches (region π) (links s.loop) entry (links next.loop) (.done (answer s.queued entry)) := by
  cases entry with
  | readHead ev =>
    have foreign : s.loop.me ≠ t := by
      rw [own]
      exact Ne.symm mine
    obtain ⟨result,applied,after⟩ := apply_single single t ev noFaults
    rw [if_neg foreign] at after
    have stepped : step s (.apply t ev noFaults) = some ⟨result.2,s.queued++[ev]⟩ := by
      rw [step,applied,Option.map_some,if_neg foreign]
    rw [eventloopApply,if_neg foreign] at applied
    obtain ⟨loop,linked,rfl⟩ := Option.map_eq_some_iff.mp applied
    have kept : loop.me = s.loop.me := by
      rw [applyPanding,if_pos (single.head.trans single.tail.symm)] at linked
      cases Option.some.inj linked
      rfl
    have body : Reaches (region π) (links s.loop) (.readHead ev) (links loop) (.done []) := push_reaches linked
    exact ⟨_,stepped,after,kept.trans own,rfl,body⟩
  | first =>
    obtain ⟨loop,returns⟩ := panding_returns single fun _ => noFaults
    have drained := returns 2 (Nat.le_refl 2)
    have stepped : step s (.drain 2 fun _ => noFaults) = some ⟨loop,[]⟩ := by
      rw [step,drained,Option.map_some]
    exact ⟨_,stepped,(panding_cases single drained).2,(panding_me drained).trans own,rfl,drain_reaches drained⟩
  | _ => cases mine

end Accesses

section Runs
variable [DecidableEq π] [DecidableEq τ]

-- What the sections left so far amount to in the loop's model.
structure Refined (me : τ) (begin s : Session π τ) (history : List (τ × Place π × Place π)) : Prop where
  ran : exec step begin (history.map request) = some s
  single : Single s
  own : s.loop.me = me
  queued : s.queued = since history
  drained : ∀ before t exit after, history = before++(t,.first,exit)::after → exit = .done (since before).getLast?.toList

theorem Refined.concat {me t : τ} {begin s : Session π τ} {history : List (τ × Place π × Place π)} {entry exit : Place π}
    {after : Links π} (refined : Refined me begin s history) (mine : Mine me t entry)
    (body : Reaches (region π) (links s.loop) entry after exit) (ended : finished exit = true) :
    ∃ next, Refined me begin next (history++[(t,entry,exit)]) ∧ links next.loop = after := by
  obtain ⟨next,stepped,single,own,queued,whole⟩ := section_ends refined.single refined.own mine exit
  obtain ⟨same,answered⟩ := body.end_unique whole ended rfl
  refine ⟨next,⟨?_,single,own,?_,?_⟩,same.symm⟩
  · rw [List.map_append,exec_append,refined.ran]
    exact exec_cons.mpr ⟨next,stepped,rfl⟩
  · rw [queued,since_concat,refined.queued]
  · intro before t' exit' later split
    rcases List.eq_nil_or_concat later with rfl | ⟨later,last,rfl⟩
    · obtain ⟨rfl,one⟩ := List.append_inj' split rfl
      cases one
      rw [answered,refined.queued]
      rfl
    · rw [List.concat_eq_append,← List.cons_append,← List.append_assoc] at split
      exact refined.drained before t' exit' later (List.append_inj' split rfl).1

theorem serial_refined {me : τ} {begin : Session π τ} {history : List (τ × Place π × Place π)} {first base : Links π}
    (single : Single begin) (own : begin.loop.me = me) (empty : begin.queued = []) (same : links begin.loop = first)
    (entries : ∀ call ∈ history, Mine me call.1 call.2.1) (serial : Serial (region π) first history base) :
    ∃ s, Refined me begin s history ∧ links s.loop = base := by
  induction serial with
  | nil => exact ⟨begin,⟨rfl,single,own,empty,fun before _ _ _ split => by cases before <;> cases split⟩,same⟩
  | @snoc done b entry c exit t _ body ended ih =>
    obtain ⟨s,refined,rfl⟩ := ih fun call member => entries call (List.mem_append_left _ member)
    exact refined.concat (entries (t,entry,exit) (List.mem_append_right _ (List.mem_singleton_self _))) body ended

-- Loads and stores of any number of threads, interleaved in any way.
theorem sections_refine_calls (poll : Kernel π) (fd : π → Int) (mask : π → UInt32) {me : τ} {labels : List (Label τ (Place π))}
    {last : State Int τ (Links π) (Place π)} (called : ∀ label ∈ labels, Called (Mine me) label)
    (ran : exec (CriticalSections.step mtx (region π)) (CriticalSections.start 0 idle) labels = some last) :
    (∀ t u, (last.pc t).within = true → (last.pc u).within = true → t = u) ∧
    (∃ s, exec step (start poll fd mask me) (last.history.map request) = some s ∧
      s.queued = since last.history ∧ (last.lock = 0 → last.shared = links s.loop)) ∧
    ∀ before t exit after, last.history = before++(t,.first,exit)::after → exit = .done (since before).getLast?.toList := by
  have free : mtx.free 0 := rfl
  obtain ⟨base,serialised⟩ := exec_inTurn free ran
  have entered := exec_entered called ran
  obtain ⟨s,refined,same⟩ := serial_refined (start_single poll fd mask me) rfl rfl rfl entered.past serialised.serial
  refine ⟨serialised.single,⟨s,refined.ran,refined.queued,?_⟩,refined.drained⟩
  intro free
  rw [serialised.settled free,same]

theorem sections_return (me : τ) : Returns (region π) (Mine me)
    (fun l => ∃ s : Session π τ, Single s ∧ s.loop.me = me ∧ links s.loop = l) := by
  rintro _ t entry ⟨s,single,own,rfl⟩ mine
  obtain ⟨next,_,single',own',_,whole⟩ := section_ends single own mine entry
  exact ⟨_,_,whole,rfl,next,single',own',rfl⟩

-- No thread is ever shut out, stuck at an undefined access or left running
-- round the list.
theorem every_section_can_end {me : τ} {labels : List (Label τ (Place π))} {last : State Int τ (Links π) (Place π)}
    (called : ∀ label ∈ labels, Called (Mine me) label)
    (ran : exec (CriticalSections.step mtx (region π)) (CriticalSections.start 0 idle) labels = some last) (t : τ) :
    ∃ (threads : List τ) (next : State Int τ (Links π) (Place π)),
      exec (CriticalSections.step mtx (region π)) last (threads.map .run) = some next ∧ next.pc t = .out := by
  have free : mtx.free 0 := rfl
  obtain ⟨base,serialised⟩ := exec_inTurn free ran
  have begin : Single (start (τ:=τ) ⟨fun _ => none,0,0⟩ (fun _ : π => 0) (fun _ => 0) me) := start_single ..
  exact can_leave (sections_return me) ⟨_,begin,rfl,rfl⟩ serialised (exec_entered called ran) t

end Runs

-- Thread 1 is inside when thread 2 and the loop's thread 0 come to the lock;
-- thread 2 gets it next, and thread 0 is left in the middle of its drain.
def contended : List (Label Nat (Place Nat)) :=
  [.call 1 (.readHead 7),.call 2 (.readHead 8),.call 0 .first,.run 1,.run 2,.run 1,.run 0,.run 1,.run 1,.run 1,.run 1,
    .run 2,.run 2,.run 0,.run 2,.run 2,.run 2,.run 2,.run 0,.run 0,.run 0]

def threeThreads (labels : List (Label Nat (Place Nat))) : Option (State Int Nat (Links Nat) (Place Nat)) :=
  exec (CriticalSections.step mtx (region Nat)) (CriticalSections.start 0 idle) labels

theorem drain_after_contention : ∃ last, threeThreads (contended++List.replicate 6 (.run 0)) = some last ∧
    last.history = [(1,.readHead 7,.done []),(2,.readHead 8,.done []),(0,.first,.done [8])] ∧
    ∃ s, exec step twoEvents (last.history.map request) = some s ∧ last.shared = links s.loop := by
  have seen : (threeThreads (contended++List.replicate 6 (.run 0))).map (fun s => (s.lock,s.history)) =
      some (0,[(1,.readHead 7,.done []),(2,.readHead 8,.done []),(0,.first,.done [8])]) := by decide
  obtain ⟨last,ran,same⟩ := Option.map_eq_some_iff.mp seen
  obtain ⟨free,history⟩ := Prod.mk.inj same
  have called : ∀ label ∈ contended++List.replicate 6 (.run 0), Called (Mine 0) label := by
    simp [contended,Called,Mine]
  obtain ⟨_,⟨s,refined,_,settled⟩,_⟩ := sections_refine_calls idleKernel (fun ev => ev) (fun _ => EVMASK_READ) called ran
  exact ⟨last,ran,history,s,refined,settled free⟩

theorem contended_drain_can_end : ∃ last, threeThreads contended = some last ∧ last.lock = 1 ∧
    ∃ (threads : List Nat) (next : State Int Nat (Links Nat) (Place Nat)),
      exec (CriticalSections.step mtx (region Nat)) last (threads.map .run) = some next ∧ next.pc 0 = .out := by
  have seen : (threeThreads contended).map (fun s => s.lock) = some 1 := by decide
  obtain ⟨last,ran,taken⟩ := Option.map_eq_some_iff.mp seen
  have called : ∀ label ∈ contended, Called (Mine 0) label := by simp [contended,Called,Mine]
  exact ⟨last,ran,taken,every_section_can_end called ran 0⟩

end EventLib.EventloopLock

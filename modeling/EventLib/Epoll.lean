import EventLib.Errno
import EventLib.Event
import Mathlib.Logic.Function.Basic

namespace EventLib.Epoll
open Events Errnos

def EPOLLIN : UInt32 := 0x001
def EPOLLOUT : UInt32 := 0x004
def EPOLLERR : UInt32 := 0x008
def EPOLLHUP : UInt32 := 0x010
def EPOLLET : UInt32 := 0x80000000
def DEFAULT_POLL_MASK : UInt32 := EPOLLHUP ||| EPOLLERR ||| EPOLLET

inductive Op where
  | add | mod | del
deriving DecidableEq

-- One epoll instance with the caller's errno and the counter behind the eventfd.
structure Kernel (π : Type) where
  interest : Int → Option (UInt32 × π)
  errno : Int
  wake : UInt64

-- An error that is not one of the two answers about presence.
structure Fault where
  errno : Int
  other : errno ≠ ENOENT ∧ errno ≠ EEXIST

-- What the kernel does to the first and to the second `epoll_ctl` of one call.
abbrev Faults := Option Fault × Option Fault

variable {π : Type}

def Kernel.refuse (k : Kernel π) (errno : Int) : Int × Kernel π := (-1,{k with errno:=errno})
def Kernel.put (k : Kernel π) (fd : Int) (entry : Option (UInt32 × π)) : Kernel π :=
  {k with interest:=Function.update k.interest fd entry}

def epollCtl (k : Kernel π) (op : Op) (fd : Int) (evt : UInt32 × π) : Option Fault → Int × Kernel π
  | some fault => k.refuse fault.errno
  | none =>
    match op,k.interest fd with
    | .add,none => (0,k.put fd (some evt))
    | .add,some _ => k.refuse EEXIST
    | .mod,some _ => (0,k.put fd (some evt))
    | .mod,none => k.refuse ENOENT
    | .del,some _ => (0,k.put fd none)
    | .del,none => k.refuse ENOENT

-- The first switch of `eventpoll_apply`. Masks are the bit patterns of the ints.
def newMask (mask : UInt32) : UInt32 :=
  let bits := mask &&& (EVMASK_READ ||| EVMASK_WRITE)
  if bits = EVMASK_READ ||| EVMASK_WRITE then EPOLLIN ||| EPOLLOUT ||| DEFAULT_POLL_MASK
  else if bits = EVMASK_READ then EPOLLIN ||| DEFAULT_POLL_MASK
  else if bits = EVMASK_WRITE then EPOLLOUT ||| DEFAULT_POLL_MASK
  else 0

def unregister (k : Kernel π) (evt : UInt32 × π) (fd : Int) (fault : Option Fault) : Int × Kernel π :=
  let answer := epollCtl k .del fd evt fault
  if answer.1 < 0 ∧ answer.2.errno = ENOENT then (0,answer.2) else answer

def register (k : Kernel π) (op : Op) (evt : UInt32 × π) (fd : Int) (faults : Faults) : Int × Kernel π :=
  let answer := epollCtl k op fd evt faults.1
  if answer.1 = -1 ∧ answer.2.errno = EEXIST ∧ op = .add then epollCtl answer.2 .mod fd evt faults.2 else answer

-- `last_mask` is assigned before the registering call and not at all by the
-- unregistering one; the `evt` the latter passes is not read by the kernel.
def eventpollApply (k : Kernel π) (self : π) (ev : Event π) (faults : Faults) : Int × Event π × Kernel π :=
  let newmask := newMask ev.mask
  if newmask = ev.lastMask then (0,ev,k)
  else if newmask = 0 then
    let answer := unregister k (newmask,self) ev.fd faults.1
    (answer.1,ev,answer.2)
  else
    let op := if ev.lastMask ≠ 0 then .mod else .add
    let answer := register k op (newmask,self) ev.fd faults
    (answer.1,{ev with lastMask:=newmask},answer.2)

-- One element of the array `epoll_wait` filled, up to the call of `disp`.
def eventpollDeliver (ev : Event π) (events : UInt32) : Event π :=
  let bits := events &&& (EPOLLIN ||| EPOLLOUT ||| EPOLLERR ||| EPOLLHUP)
  let mask := if bits = EPOLLIN then EVMASK_READ
    else if bits = EPOLLOUT then EVMASK_WRITE
    else if bits = EPOLLIN ||| EPOLLOUT then EVMASK_READ ||| EVMASK_WRITE
    else EVMASK_ERROR
  {ev with lastMask:=DEFAULT_POLL_MASK,mask:=mask}

-- A write that would pass the maximum of an eventfd is refused, and only logged.
def eventpollWakeup (k : Kernel π) : Kernel π :=
  if k.wake.toNat+1 < 2^64-1 then {k with wake:=k.wake+1} else k

@[simp] theorem put_here {k : Kernel π} : (k.put fd entry).interest fd = entry := Function.update_self ..

theorem epollCtl_spec {k : Kernel π} {op : Op} {fd : Int} {evt : UInt32 × π} (fault : Option Fault) :
    (epollCtl k op fd evt fault).1 = 0 ∧
      (epollCtl k op fd evt fault).2 = k.put fd (if op = .del then none else some evt) ∨
    (epollCtl k op fd evt fault).1 = -1 ∧ (epollCtl k op fd evt fault).2.interest = k.interest := by
  cases fault with
  | some fault => exact Or.inr ⟨rfl,rfl⟩
  | none =>
    cases op with
    | add => cases entry : k.interest fd <;> simp [epollCtl,entry,Kernel.refuse]
    | mod => cases entry : k.interest fd <;> simp [epollCtl,entry,Kernel.refuse]
    | del => cases entry : k.interest fd <;> simp [epollCtl,entry,Kernel.refuse]

-- ENOENT out of an unregistering call is an absent entry, never a fault.
theorem unregister_spec {k : Kernel π} {evt : UInt32 × π} {fd : Int} (fault : Option Fault) :
    (unregister k evt fd fault).1 = 0 ∧ (unregister k evt fd fault).2.interest fd = none ∨
    (unregister k evt fd fault).1 ≠ 0 ∧ (unregister k evt fd fault).2.interest = k.interest := by
  cases fault with
  | some fault =>
    have other := fault.other.1
    exact Or.inr (by simp [unregister,epollCtl,Kernel.refuse,other])
  | none =>
    cases entry : k.interest fd with
    | none => exact Or.inl (by simp [unregister,epollCtl,entry,Kernel.refuse])
    | some old => exact Or.inl (by simp [unregister,epollCtl,entry])

theorem register_spec {k : Kernel π} {op : Op} {evt : UInt32 × π} {fd : Int} {faults : Faults} (present : op ≠ .del) :
    (register k op evt fd faults).1 = 0 ∧ (register k op evt fd faults).2.interest fd = some evt ∨
    (register k op evt fd faults).1 ≠ 0 ∧ (register k op evt fd faults).2.interest = k.interest := by
  simp only [register]
  split
  · rename_i exists_
    rcases epollCtl_spec faults.1 with ⟨done,_⟩ | ⟨_,same⟩
    · rw [done] at exists_
      exact absurd exists_.1 (by decide)
    · rcases epollCtl_spec faults.2 with ⟨done,moved⟩ | ⟨failed,same'⟩
      · refine Or.inl ⟨done,?_⟩
        rw [moved,put_here]
        rfl
      · exact Or.inr ⟨by rw [failed]; decide,same'.trans same⟩
  · rcases epollCtl_spec faults.1 with ⟨done,moved⟩ | ⟨failed,same⟩
    · refine Or.inl ⟨done,?_⟩
      rw [moved,put_here,if_neg present]
    · exact Or.inr ⟨by rw [failed]; decide,same⟩

-- Everything `eventpoll_apply` can do: skip, unregister or register, and in the
-- latter two cases fail without moving the entry.
inductive Applied (k : Kernel π) (self : π) (ev : Event π) : Int × Event π × Kernel π → Prop where
  | skipped : newMask ev.mask = ev.lastMask → Applied k self ev (0,ev,k)
  | unregistered : newMask ev.mask ≠ ev.lastMask → newMask ev.mask = 0 → after.interest ev.fd = none →
      Applied k self ev (0,ev,after)
  | registered : newMask ev.mask ≠ ev.lastMask → newMask ev.mask ≠ 0 →
      after.interest ev.fd = some (newMask ev.mask,self) →
      Applied k self ev (0,{ev with lastMask:=newMask ev.mask},after)
  | failed : ret ≠ 0 → newMask ev.mask ≠ ev.lastMask → after.interest = k.interest →
      last = (if newMask ev.mask = 0 then ev.lastMask else newMask ev.mask) →
      Applied k self ev (ret,{ev with lastMask:=last},after)

theorem eventpollApply_spec (k : Kernel π) (self : π) (ev : Event π) (faults : Faults) :
    Applied k self ev (eventpollApply k self ev faults) := by
  simp only [eventpollApply]
  split
  · rename_i same
    exact .skipped same
  · rename_i changed
    split
    · rename_i zero
      rcases unregister_spec faults.1 (k:=k) with ⟨done,gone⟩ | ⟨failed,same⟩
      · rw [done]
        exact .unregistered changed zero gone
      · exact .failed failed changed same (if_pos zero).symm
    · rename_i nonzero
      have present : (if ev.lastMask ≠ 0 then Op.mod else Op.add) ≠ .del := by split <;> decide
      rcases register_spec present with ⟨done,there⟩ | ⟨failed,same⟩
      · rw [done]
        exact .registered changed nonzero there
      · exact .failed failed changed same (if_neg nonzero).symm

theorem eventpollApply_next (k : Kernel π) (self : π) (ev : Event π) (faults : Faults) :
    (eventpollApply k self ev faults).2.1.next = ev.next := by
  have spec := eventpollApply_spec k self ev faults
  generalize eventpollApply k self ev faults = result at spec ⊢
  cases spec <;> rfl

theorem eventpollApply_fd (k : Kernel π) (self : π) (ev : Event π) (faults : Faults) :
    (eventpollApply k self ev faults).2.1.fd = ev.fd := by
  have spec := eventpollApply_spec k self ev faults
  generalize eventpollApply k self ev faults = result at spec ⊢
  cases spec <;> rfl

theorem epollCtl_wake {k : Kernel π} {op : Op} {fd : Int} {evt : UInt32 × π} (fault : Option Fault) :
    (epollCtl k op fd evt fault).2.wake = k.wake := by
  cases fault with
  | some fault => rfl
  | none => cases op <;> cases entry : k.interest fd <;> simp [epollCtl,entry,Kernel.refuse,Kernel.put]

theorem register_wake {k : Kernel π} {op : Op} {evt : UInt32 × π} {fd : Int} (faults : Faults) :
    (register k op evt fd faults).2.wake = k.wake := by
  simp only [register]
  split
  · rw [epollCtl_wake,epollCtl_wake]
  · exact epollCtl_wake _

theorem eventpollApply_wake (k : Kernel π) (self : π) (ev : Event π) (faults : Faults) :
    (eventpollApply k self ev faults).2.2.wake = k.wake := by
  simp only [eventpollApply]
  split
  · rfl
  · split
    · simp only [unregister]
      split <;> exact epollCtl_wake _
    · exact register_wake _

theorem wakeup_interest (k : Kernel π) : (eventpollWakeup k).interest = k.interest := by
  unfold eventpollWakeup
  split <;> rfl

theorem epollCtl_elsewhere {k : Kernel π} {op : Op} {fd other : Int} {evt : UInt32 × π} (fault : Option Fault) (away : other ≠ fd) :
    (epollCtl k op fd evt fault).2.interest other = k.interest other := by
  rcases epollCtl_spec fault with ⟨_,moved⟩ | ⟨_,same⟩
  · rw [moved]
    exact Function.update_of_ne away ..
  · rw [same]

theorem register_elsewhere {k : Kernel π} {op : Op} {fd other : Int} {evt : UInt32 × π} {faults : Faults} (away : other ≠ fd) :
    (register k op evt fd faults).2.interest other = k.interest other := by
  simp only [register]
  split
  · rw [epollCtl_elsewhere _ away,epollCtl_elsewhere _ away]
  · exact epollCtl_elsewhere _ away

theorem eventpollApply_elsewhere {k : Kernel π} {self : π} {ev : Event π} {faults : Faults} {other : Int} (away : other ≠ ev.fd) :
    (eventpollApply k self ev faults).2.2.interest other = k.interest other := by
  simp only [eventpollApply]
  split
  · rfl
  · split
    · simp only [unregister]
      split <;> exact epollCtl_elsewhere _ away
    · exact register_elsewhere away

-- Where a registration found after `eventpoll_apply` comes from, and what the
-- event keeps.
theorem eventpollApply_found {k : Kernel π} {self : π} {ev : Event π} {faults : Faults} {fd : Int} {want : UInt32} {found : π}
    (there : (eventpollApply k self ev faults).2.2.interest fd = some (want,found)) :
    (found = self ∧ fd = ev.fd ∧ newMask ev.mask ≠ 0 ∧ (eventpollApply k self ev faults).2.1.lastMask ≠ 0) ∨
      k.interest fd = some (want,found) := by
  by_cases here : fd = ev.fd
  · subst here
    have spec := eventpollApply_spec k self ev faults
    generalize eventpollApply k self ev faults = result at spec there ⊢
    cases spec with
    | skipped same => exact Or.inr there
    | unregistered changed zero gone =>
      rw [show _ = none from gone] at there
      cases there
    | registered changed nonzero now =>
      cases Option.some.inj (now.symm.trans there)
      exact Or.inl ⟨rfl,rfl,nonzero,nonzero⟩
    | failed refused changed same last => exact Or.inr (by rw [← same]; exact there)
  · rw [eventpollApply_elsewhere here] at there
    exact Or.inr there

theorem eventpollApply_applied {k : Kernel π} {self : π} {ev : Event π} {faults : Faults} (before : ev.lastMask ≠ 0) :
    (eventpollApply k self ev faults).2.1.lastMask ≠ 0 := by
  have spec := eventpollApply_spec k self ev faults
  generalize eventpollApply k self ev faults = result at spec ⊢
  cases spec with
  | skipped same => exact before
  | unregistered changed zero gone => exact before
  | registered changed nonzero now => exact nonzero
  | failed refused changed same last =>
    rw [last]
    split
    · exact before
    · assumption

end EventLib.Epoll

import EventLib.Epoll
import EventLib.LabelledRuns

namespace EventLib.EpollInterest
open Events Epoll LabelledRuns

inductive Action where
  | apply (mask : UInt32) (faults : Faults)
  | deliver (events : UInt32)

-- `granted` is what a caller can know from return values: the translated mask
-- of the last call that reached the kernel and returned 0.
structure Session (π : Type) where
  ev : Event π
  kernel : Kernel π
  granted : Option UInt32

variable {π : Type}

def start (fd : Int) (mask : UInt32) (kernel : Kernel π) : Session π := ⟨eventInit fd mask,kernel,none⟩

def grant (s : Session π) (newmask : UInt32) (ret : Int) : Option UInt32 :=
  if newmask = s.ev.lastMask ∨ ret ≠ 0 then s.granted else if newmask = 0 then none else some newmask

def request (addr : π) (s : Session π) (mask : UInt32) (faults : Faults) : Int × Event π × Kernel π :=
  eventpollApply s.kernel addr {s.ev with mask:=mask} faults

def step (addr : π) (s : Session π) : Action → Option (Session π)
  | .apply mask faults =>
    let answer := request addr s mask faults
    some ⟨answer.2.1,answer.2.2,grant s (newMask mask) answer.1⟩
  | .deliver events => some {s with ev:=eventpollDeliver s.ev events}

-- The translation as a specification: each bit by itself, the default bits
-- with either, and no entry with neither.
def wanted (mask : UInt32) : Option UInt32 :=
  if mask &&& EVMASK_READ = 0 ∧ mask &&& EVMASK_WRITE = 0 then none
  else some ((if mask &&& EVMASK_READ = 0 then 0 else EPOLLIN) |||
    (if mask &&& EVMASK_WRITE = 0 then 0 else EPOLLOUT) ||| DEFAULT_POLL_MASK)

def Mirrors (addr : π) (s : Session π) : Action → Prop
  | .apply mask faults => (request addr s mask faults).1 = 0 →
      (request addr s mask faults).2.2.interest s.ev.fd = (wanted mask).map fun want => (want,addr)
  | .deliver _ => True

instance [DecidableEq π] (addr : π) (s : Session π) : ∀ action, Decidable (Mirrors addr s action)
  | .apply _ _ => inferInstanceAs (Decidable (_ = _ → _ = _))
  | .deliver _ => isTrue trivial

-- A call that the cache answers asks for what the kernel last granted.
def CacheCurrent (s : Session π) : Action → Prop
  | .apply mask _ => newMask mask ≠ 0 → newMask mask = s.ev.lastMask → s.granted = some (newMask mask)
  | .deliver _ => True

instance (s : Session π) : ∀ action, Decidable (CacheCurrent s action)
  | .apply _ _ => inferInstanceAs (Decidable (_ ≠ _ → _ = _ → _ = _))
  | .deliver _ => isTrue trivial

structure Tracks (addr : π) (s : Session π) : Prop where
  entry : s.kernel.interest s.ev.fd = s.granted.map fun want => (want,addr)
  fresh : s.ev.lastMask = 0 → s.granted = none

theorem wanted_exact (mask : UInt32) : wanted mask = if newMask mask = 0 then none else some (newMask mask) := by
  have read : mask &&& EVMASK_READ = mask &&& (EVMASK_READ ||| EVMASK_WRITE) &&& EVMASK_READ := by
    rw [UInt32.and_assoc]
    rfl
  have write : mask &&& EVMASK_WRITE = mask &&& (EVMASK_READ ||| EVMASK_WRITE) &&& EVMASK_WRITE := by
    rw [UInt32.and_assoc]
    rfl
  have small : (mask &&& (EVMASK_READ ||| EVMASK_WRITE)).toNat ≤ 3 := by
    rw [UInt32.toNat_and]
    exact Nat.and_le_right
  rw [wanted,newMask,read,write]
  generalize mask &&& (EVMASK_READ ||| EVMASK_WRITE) = bits at small ⊢
  have four : bits = 0 ∨ bits = 1 ∨ bits = 2 ∨ bits = 3 := by
    simp only [← UInt32.toNat_inj]
    show _ = 0 ∨ _ = 1 ∨ _ = 2 ∨ _ = 3
    omega
  rcases four with rfl | rfl | rfl | rfl <;> decide

theorem start_tracks {fd : Int} {mask : UInt32} {kernel : Kernel π} (addr : π) (absent : kernel.interest fd = none) :
    Tracks addr (start fd mask kernel) :=
  ⟨absent,fun _ => rfl⟩

theorem step_tracks {addr : π} {s next : Session π} {action : Action} (tracks : Tracks addr s)
    (ran : step addr s action = some next) : Tracks addr next := by
  cases action with
  | deliver events =>
    cases Option.some.inj ran
    have nonzero : DEFAULT_POLL_MASK ≠ 0 := by decide
    exact ⟨tracks.entry,fun zero => absurd zero nonzero⟩
  | apply mask faults =>
    cases Option.some.inj ran
    have spec : Applied s.kernel addr {s.ev with mask:=mask} (request addr s mask faults) := eventpollApply_spec _ _ _ _
    generalize request addr s mask faults = answer at spec ⊢
    cases spec with
    | skipped same =>
      rw [grant,if_pos (Or.inl same)]
      exact ⟨tracks.entry,tracks.fresh⟩
    | unregistered changed zero gone =>
      rw [grant,if_neg (by simp [changed]),if_pos zero]
      exact ⟨gone,fun _ => rfl⟩
    | registered changed nonzero there =>
      rw [grant,if_neg (by simp [changed]),if_neg nonzero]
      exact ⟨there,fun zero => absurd zero nonzero⟩
    | failed failed changed same last =>
      rw [grant,if_pos (Or.inr failed)]
      refine ⟨(congrFun same _).trans tracks.entry,?_⟩
      intro zero
      subst last
      split at zero
      · rename_i none_wanted
        exact absurd (none_wanted.trans zero.symm) changed
      · rename_i some_wanted
        exact absurd zero some_wanted

theorem mirrors_exact {addr : π} {s : Session π} (tracks : Tracks addr s) (action : Action) :
    Mirrors addr s action ↔ CacheCurrent s action := by
  cases action with
  | deliver events => exact Iff.rfl
  | apply mask faults =>
    simp only [Mirrors,CacheCurrent,wanted_exact]
    have spec : Applied s.kernel addr {s.ev with mask:=mask} (request addr s mask faults) := eventpollApply_spec _ _ _ _
    generalize request addr s mask faults = answer at spec ⊢
    cases spec with
    | skipped same =>
      by_cases zero : newMask mask = 0
      · have nothing := tracks.fresh (same.symm.trans zero)
        rw [if_pos zero,tracks.entry,nothing]
        exact ⟨fun _ nonzero => absurd zero nonzero,fun _ _ => rfl⟩
      · rw [if_neg zero,tracks.entry]
        constructor
        · intro mirrored _ _
          obtain ⟨want,granted,pair⟩ := Option.map_eq_some_iff.mp (mirrored rfl)
          rw [granted,(Prod.mk.inj pair).1]
        · intro current _
          rw [current zero same,Option.map_some]
    | unregistered changed zero gone =>
      rw [if_pos zero]
      exact ⟨fun _ nonzero => absurd zero nonzero,fun _ _ => gone⟩
    | registered changed nonzero there =>
      rw [if_neg nonzero]
      exact ⟨fun _ _ same => absurd same changed,fun _ _ => there⟩
    | failed failed changed same last =>
      exact ⟨fun _ _ same => absurd same changed,fun _ done => absurd done failed⟩

theorem mirrors_iff_cache_current {fd : Int} {kernel : Kernel π} (addr : π) (mask : UInt32) (actions : List Action)
    (absent : kernel.interest fd = none) :
    Along (step addr) (Mirrors addr) (start fd mask kernel) actions ↔
      Along (step addr) CacheCurrent (start fd mask kernel) actions := by
  refine along_iff ?_ ?_ (start_tracks addr absent) along_true
  · intro s action tracks _
    exact mirrors_exact tracks action
  · intro s action next tracks _ _ ran
    exact step_tracks tracks ran

def emptyKernel : Kernel Unit := ⟨fun _ => none,0,0⟩

def mirroredRun : List Action :=
  [.apply EVMASK_READ (none,none),.deliver EPOLLIN,.apply (EVMASK_READ ||| EVMASK_WRITE) (none,none),
    .apply EVMASK_NONE (none,none)]

theorem mirrored_run_current : emptyKernel.interest 5 = none ∧
    Along (step ()) CacheCurrent (start 5 0 emptyKernel) mirroredRun ∧
    Along (step ()) (Mirrors ()) (start 5 0 emptyKernel) mirroredRun := by
  have current : Along (step ()) CacheCurrent (start 5 0 emptyKernel) mirroredRun := by decide
  exact ⟨rfl,current,(mirrors_iff_cache_current () 0 mirroredRun rfl).mpr current⟩

def reenabledRun : List Action :=
  [.apply EVMASK_READ (none,none),.apply EVMASK_NONE (none,none),.apply EVMASK_READ (none,none)]

-- The second enabling returns 0 and leaves the descriptor unregistered.
theorem reenabling_not_registered :
    ¬ Along (step ()) (Mirrors ()) (start 5 0 emptyKernel) reenabledRun ∧
    (exec (step ()) (start 5 0 emptyKernel) (reenabledRun.take 2)).map
      (fun s => ((request () s EVMASK_READ (none,none)).1,(request () s EVMASK_READ (none,none)).2.2.interest 5)) =
      some (0,none) := by
  decide

end EventLib.EpollInterest

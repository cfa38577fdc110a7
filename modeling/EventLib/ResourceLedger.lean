import Mathlib.Data.List.Perm.Basic
import Mathlib.Data.List.Nodup

namespace ResourceLedger

-- Resources of one kind that are held at the moment. `misused` records the
-- release of something that was not held.
structure Holdings (α : Type) where
  live : List α
  misused : Bool

-- The books are right: exactly these are held, each once.
structure Accounts {α : Type} (h : Holdings α) (held : List α) : Prop where
  exact_held : h.live.Perm held
  once : held.Nodup
  clean : h.misused = false

section Books
variable {α : Type} {h : Holdings α} {held rest : List α}

theorem Accounts.reorder (accounts : Accounts h held) (same : held.Perm rest) : Accounts h rest :=
  ⟨accounts.exact_held.trans same,same.nodup_iff.mp accounts.once,accounts.clean⟩

theorem Accounts.live_nodup (accounts : Accounts h held) : h.live.Nodup := accounts.exact_held.nodup_iff.mpr accounts.once

end Books

variable {α : Type} [DecidableEq α] {h next : Holdings α} {held : List α}

-- The supplier answers with nothing or with something that is not held; any
-- other answer is outside its contract and has no result.
def acquire (h : Holdings α) : Option α → Option (Option α × Holdings α)
  | none => some (none,h)
  | some r => if r ∈ h.live then none else some (some r,{h with live:=r::h.live})

def release (h : Holdings α) (r : α) : Holdings α :=
  if r ∈ h.live then {h with live:=h.live.erase r} else {h with misused:=true}

theorem acquire_answer {answer got : Option α} (ran : acquire h answer = some (got,next)) : got = answer := by
  cases answer with
  | none =>
    cases Option.some.inj ran
    rfl
  | some r =>
    obtain ⟨_,same⟩ := Option.ite_none_left_eq_some.mp ran
    cases Option.some.inj same
    rfl

theorem acquire_accounts {answer got : Option α} (accounts : Accounts h held) (ran : acquire h answer = some (got,next)) :
    got = answer ∧ Accounts next (answer.toList++held) := by
  refine ⟨acquire_answer ran,?_⟩
  cases answer with
  | none =>
    cases Option.some.inj ran
    exact accounts
  | some r =>
    obtain ⟨fresh,same⟩ := Option.ite_none_left_eq_some.mp ran
    cases Option.some.inj same
    refine ⟨accounts.exact_held.cons r,?_,accounts.clean⟩
    refine List.nodup_cons.mpr ⟨?_,accounts.once⟩
    exact fun member => fresh (accounts.exact_held.mem_iff.mpr member)

theorem release_accounts {r : α} (accounts : Accounts h (r::held)) : Accounts (release h r) held := by
  have member : r ∈ h.live := accounts.exact_held.mem_iff.mpr List.mem_cons_self
  rw [release,if_pos member]
  refine ⟨?_,(List.nodup_cons.mp accounts.once).2,accounts.clean⟩
  have erased := accounts.exact_held.erase r
  rwa [List.erase_cons_head] at erased

-- A misuse is never forgotten.
theorem acquire_misused {answer got : Option α} (bad : h.misused = true) (ran : acquire h answer = some (got,next)) :
    next.misused = true := by
  cases answer with
  | none =>
    cases Option.some.inj ran
    exact bad
  | some r =>
    obtain ⟨_,same⟩ := Option.ite_none_left_eq_some.mp ran
    cases Option.some.inj same
    exact bad

theorem release_misused {r : α} (bad : h.misused = true) : (release h r).misused = true := by
  unfold release
  split
  · exact bad
  · rfl

end ResourceLedger

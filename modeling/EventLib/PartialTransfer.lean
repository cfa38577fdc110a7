import Mathlib.Data.List.Basic
import Mathlib.Algebra.BigOperators.Group.List.Basic
import Mathlib.Algebra.Ring.Nat

namespace PartialTransfer
variable {α : Type}

-- A sender offers what is left again and again, and each answer takes up to
-- `count` of it. Taking nothing is a refusal and ends the attempt, as taking the
-- rest does. The result is what was taken in all and the answers not used.
def transfer (count : α → Nat) : List α → Nat → Option (Nat × List α)
  | [],_ => none
  | answer::rest,left =>
    if min (count answer) left = 0 then some (0,rest)
    else if left ≤ count answer then some (left,rest)
    else (transfer count rest (left-count answer)).map fun more => (count answer+more.1,more.2)

variable {count : α → Nat} {answer : α} {answers rest unused : List α} {left n : Nat}

theorem transfer_refused (nothing : count answer = 0) :
    transfer count (answer::rest) left = some (0,rest) := by
  simp [transfer,nothing]

theorem transfer_whole (positive : 0 < left) (enough : left ≤ count answer) :
    transfer count (answer::rest) left = some (left,rest) := by
  have some_taken : min (count answer) left ≠ 0 := by omega
  simp only [transfer,if_neg some_taken,if_pos enough]

theorem transfer_part (positive : 0 < count answer) (short : count answer < left) :
    transfer count (answer::rest) left =
      (transfer count rest (left-count answer)).map fun more => (count answer+more.1,more.2) := by
  have some_taken : min (count answer) left ≠ 0 := by omega
  simp only [transfer,if_neg some_taken,if_neg (Nat.not_le.mpr short)]

-- Everything before the answer that ends it took something and left something.
theorem transfer_spec (positive : 0 < left) (ran : transfer count answers left = some (n,unused)) :
    ∃ front final, answers = front ++ final::unused ∧ (∀ answer ∈ front, 0 < count answer) ∧ (front.map count).sum < left ∧
      (count final = 0 ∧ n = (front.map count).sum ∨ left ≤ (front.map count).sum+count final ∧ n = left) := by
  induction answers generalizing left n with
  | nil => cases ran
  | cons answer rest ih =>
    by_cases nothing : count answer = 0
    · rw [transfer_refused nothing] at ran
      cases Option.some.inj ran
      exact ⟨[],answer,rfl,by simp,positive,Or.inl ⟨nothing,rfl⟩⟩
    · by_cases enough : left ≤ count answer
      · rw [transfer_whole positive enough] at ran
        cases Option.some.inj ran
        exact ⟨[],answer,rfl,by simp,positive,Or.inr ⟨by simpa using enough,rfl⟩⟩
      · rw [transfer_part (by omega) (by omega)] at ran
        obtain ⟨⟨m,unused'⟩,tail,same⟩ := Option.map_eq_some_iff.mp ran
        cases same
        obtain ⟨front,final,split,takes,short,ended⟩ := ih (by omega) tail
        refine ⟨answer::front,final,by rw [split]; rfl,?_,?_,?_⟩
        · intro other member
          rcases List.mem_cons.mp member with rfl | later
          · omega
          · exact takes other later
        · rw [List.map_cons,List.sum_cons]
          omega
        · rw [List.map_cons,List.sum_cons]
          omega

theorem transfer_le (ran : transfer count answers left = some (n,unused)) : n ≤ left := by
  rcases Nat.eq_zero_or_pos left with rfl | positive
  · cases answers with
    | nil => cases ran
    | cons answer rest =>
      rw [transfer,if_pos (Nat.min_zero _)] at ran
      cases Option.some.inj ran
      exact Nat.le_refl 0
  · obtain ⟨front,final,_,_,short,ended⟩ := transfer_spec positive ran
    omega

-- Answers that end nothing took something each and less than there was in all.
theorem transfer_pending (positive : 0 < left) (ran : transfer count answers left = none) :
    (∀ answer ∈ answers, 0 < count answer) ∧ (answers.map count).sum < left := by
  induction answers generalizing left with
  | nil => exact ⟨by simp,positive⟩
  | cons answer rest ih =>
    by_cases nothing : count answer = 0
    · cases (transfer_refused nothing).symm.trans ran
    · by_cases whole : left ≤ count answer
      · cases (transfer_whole positive whole).symm.trans ran
      · rw [transfer_part (by omega) (by omega),Option.map_eq_none_iff] at ran
        obtain ⟨takes,short⟩ := ih (by omega) ran
        refine ⟨?_,?_⟩
        · intro other member
          rcases List.mem_cons.mp member with rfl | later
          · omega
          · exact takes other later
        · rw [List.map_cons,List.sum_cons]
          omega

-- There are no more such answers than items taken.
theorem transfer_answers (takes : ∀ answer ∈ answers, 0 < count answer) : answers.length ≤ (answers.map count).sum := by
  rw [← List.length_map count]
  apply List.length_le_sum_of_one_le
  intro n member
  obtain ⟨answer,taken,rfl⟩ := List.mem_map.mp member
  exact takes answer taken

end PartialTransfer

import Mathlib.Algebra.Ring.Nat
import Mathlib.Data.Set.Operations

namespace PositionalCode
variable {α : Type} {base r q n : Nat}

-- The lowest `n+1` digits are the lowest one and `n` of the rest.
theorem mod_eq_iff : r%base^(n+1) = q%base^(n+1) ↔ r%base = q%base ∧ r/base%base^n = q/base%base^n := by
  rw [Nat.pow_succ']
  constructor
  · intro same
    have low := congrArg (·%base) same
    have high := congrArg (·/base) same
    simp only [Nat.mod_mul_right_mod] at low
    simp only [Nat.mod_mul_right_div_self] at high
    exact ⟨low,high⟩
  · rintro ⟨low,high⟩
    rw [Nat.mod_mul,Nat.mod_mul,low,high]

section Letters
variable [NeZero base]

-- The `n` lowest digits of a number, the lowest first, each as its letter.
def spell (letter : Fin base → α) : Nat → Nat → List α
  | _,0 => []
  | r,n+1 => letter (Fin.ofNat base r) :: spell letter (r/base) n

variable {letter : Fin base → α}

@[simp] theorem spell_length : (spell letter r n).length = n := by
  induction n generalizing r with
  | zero => rfl
  | succ n ih => rw [spell,List.length_cons,ih]

theorem spell_letters : ∀ c ∈ spell letter r n, c ∈ Set.range letter := by
  induction n generalizing r with
  | zero => simp [spell]
  | succ n ih =>
    intro c member
    rcases List.mem_cons.mp member with rfl | later
    · exact ⟨_,rfl⟩
    · exact ih c later

theorem digit_eq_iff : Fin.ofNat base r = Fin.ofNat base q ↔ r%base = q%base := by
  rw [Fin.ext_iff]
  rfl

theorem spell_eq_iff (injective : Function.Injective letter) :
    spell letter r n = spell letter q n ↔ r%base^n = q%base^n := by
  induction n generalizing r q with
  | zero => simp [spell,Nat.mod_one]
  | succ n ih => rw [spell,spell,List.cons.injEq,injective.eq_iff,digit_eq_iff,ih,mod_eq_iff]

theorem spell_onto {chars : List α} (letters : ∀ c ∈ chars, c ∈ Set.range letter) :
    ∃ r < base^chars.length, spell letter r chars.length = chars := by
  induction chars with
  | nil => exact ⟨0,Nat.one_pos,rfl⟩
  | cons c rest ih =>
    rw [List.forall_mem_cons] at letters
    obtain ⟨⟨digit,rfl⟩,later⟩ := letters
    obtain ⟨r,small,spelled⟩ := ih later
    have positive : 0 < base := Nat.pos_of_neZero base
    have low : Fin.ofNat base (digit+base*r) = digit := by
      apply Fin.ext
      rw [Fin.val_ofNat,Nat.add_mul_mod_self_left,Nat.mod_eq_of_lt digit.isLt]
    have high : (digit+base*r)/base = r := by
      rw [Nat.add_mul_div_left _ _ positive,Nat.div_eq_of_lt digit.isLt,Nat.zero_add]
    refine ⟨digit+base*r,?_,?_⟩
    · calc digit+base*r < base+base*r := Nat.add_lt_add_right digit.isLt _
        _ = base*(r+1) := by rw [Nat.mul_succ,Nat.add_comm]
        _ ≤ base*base^rest.length := Nat.mul_le_mul_left _ small
        _ = base^(rest.length+1) := Nat.pow_succ'.symm
    · rw [List.length_cons,spell,low,high,spelled]

end Letters
end PositionalCode

import Mathlib.Data.Nat.Digits.Lemmas

namespace DecimalText

def isDigit (c : UInt8) : Bool := 48 ≤ c && c ≤ 57

def value (text : List UInt8) : Nat := text.foldl (fun n c => 10*n+(c.toNat-48)) 0

def character (d : Nat) : UInt8 := UInt8.ofNat (48+d)

def numeral (n : Nat) : List UInt8 := if n = 0 then [48] else (Nat.digits 10 n).reverse.map character

variable {text : List UInt8} {n d k : Nat}

theorem character_toNat (small : d < 10) : (character d).toNat = 48+d := by
  rw [character,UInt8.toNat_ofNat']
  omega

theorem character_digit (small : d < 10) : isDigit (character d) = true := by
  have exact_value := character_toNat small
  simp only [isDigit,Bool.and_eq_true,decide_eq_true_eq,UInt8.le_iff_toNat_le,exact_value]
  exact ⟨Nat.le_add_right 48 d,show 48+d ≤ 57 by omega⟩

theorem numeral_digits : ∀ c ∈ numeral n, isDigit c = true := by
  unfold numeral
  split
  · intro c member
    rw [List.mem_singleton.mp member]
    rfl
  · intro c member
    obtain ⟨d,inside,rfl⟩ := List.mem_map.mp member
    exact character_digit (Nat.digits_lt_base (by decide) (List.mem_reverse.mp inside))

theorem foldl_value (start : Nat) : text.foldl (fun n c => 10*n+(c.toNat-48)) start = start*10^text.length+value text := by
  induction text generalizing start with
  | nil => simp [value]
  | cons c rest ih =>
    have unfolded : value (c::rest) = (10*0+(c.toNat-48))*10^rest.length+value rest := ih _
    rw [List.foldl_cons,ih,unfolded,List.length_cons,Nat.pow_succ]
    ring

theorem value_append (left right : List UInt8) : value (left++right) = value left*10^right.length+value right := by
  rw [value,List.foldl_append,foldl_value]
  rfl

-- Digits come lowest first, so the fold over their characters is the one from the right.
theorem value_digits {ds : List Nat} (small : ∀ d ∈ ds, d < 10) : value (ds.reverse.map character) = Nat.ofDigits 10 ds := by
  induction ds with
  | nil => rfl
  | cons d ds ih =>
    rw [List.forall_mem_cons] at small
    rw [List.reverse_cons,List.map_append,value_append,ih small.2,Nat.ofDigits_cons]
    simp only [value,List.map_cons,List.map_nil,List.foldl_cons,List.foldl_nil,character_toNat small.1,List.length_singleton]
    push_cast
    ring_nf
    omega

theorem value_numeral : value (numeral n) = n := by
  unfold numeral
  split
  · rename_i zero
    rw [zero]
    rfl
  · have small : ∀ d ∈ Nat.digits 10 n, d < 10 := fun d inside => Nat.digits_lt_base (by decide) inside
    rw [value_digits small,Nat.ofDigits_digits]

theorem value_lt (digits : ∀ c ∈ text, isDigit c = true) : value text < 10^text.length := by
  induction text using List.reverseRecOn with
  | nil => decide
  | append_singleton rest c ih =>
    have bound := ih fun c inside => digits c (List.mem_append_left _ inside)
    have last := digits c (List.mem_append_right _ List.mem_cons_self)
    simp only [isDigit,Bool.and_eq_true,decide_eq_true_eq,UInt8.le_iff_toNat_le] at last
    have most : c.toNat ≤ 57 := last.2
    rw [value_append,List.length_append,List.length_singleton,Nat.pow_succ]
    simp only [value,List.foldl_cons,List.foldl_nil] at bound ⊢
    omega

-- The last characters of a numeral are what its number leaves over a power of ten.
theorem value_drop (digits : ∀ c ∈ text, isDigit c = true) : value (text.drop k) = value text%10^(text.length-k) := by
  have small : value (text.drop k) < 10^(text.drop k).length := value_lt fun c inside => digits c (List.mem_of_mem_drop inside)
  calc value (text.drop k) = (value (text.take k)*10^(text.drop k).length+value (text.drop k))%10^(text.drop k).length := by
        rw [Nat.mul_add_mod_self_right,Nat.mod_eq_of_lt small]
    _ = value text%10^(text.length-k) := by rw [← value_append,List.take_append_drop,List.length_drop]

end DecimalText

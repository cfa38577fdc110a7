import Mathlib.Data.List.Infix
import Mathlib.Algebra.Ring.Nat

namespace RecordSplit
variable {α : Type} [DecidableEq α] {delim text rest record : List α}

-- Position of the leftmost occurrence. An empty needle occurs at 0.
def firstMatch (needle : List α) : List α → Option Nat
  | [] => if needle.isPrefixOf [] then some 0 else none
  | x::rest => if needle.isPrefixOf (x::rest) then some 0 else (firstMatch needle rest).map (·+1)

theorem firstMatch_bound (found : firstMatch delim text = some i) : i+delim.length ≤ text.length := by
  induction text generalizing i with
  | nil =>
    simp only [firstMatch] at found
    split at found
    · rename_i here
      have short := (List.isPrefixOf_iff_prefix.mp here).length_le
      cases Option.some.inj found
      omega
    · cases found
  | cons x rest ih =>
    simp only [firstMatch] at found
    split at found
    · rename_i here
      have short := (List.isPrefixOf_iff_prefix.mp here).length_le
      cases Option.some.inj found
      omega
    · obtain ⟨j,later,rfl⟩ := Option.map_eq_some_iff.mp found
      have bound := ih later
      simp only [List.length_cons]
      omega

-- Whole before part: an occurrence that ends inside the text delivered so far
-- is still the leftmost one after any further text.
theorem firstMatch_append (found : firstMatch delim text = some i) :
    firstMatch delim (text++rest) = some i := by
  induction text generalizing i with
  | nil =>
    simp only [firstMatch] at found
    split at found
    · rename_i here
      have empty : delim = [] := List.prefix_nil.mp (List.isPrefixOf_iff_prefix.mp here)
      subst empty
      cases Option.some.inj found
      cases rest <;> simp [firstMatch]
    · cases found
  | cons x tail ih =>
    simp only [firstMatch] at found
    split at found
    · rename_i here
      have still : delim.isPrefixOf (x::(tail++rest)) = true :=
        List.isPrefixOf_iff_prefix.mpr ((List.isPrefixOf_iff_prefix.mp here).trans (List.prefix_append _ _))
      cases Option.some.inj found
      simp [firstMatch,still]
    · rename_i notHere
      obtain ⟨j,later,rfl⟩ := Option.map_eq_some_iff.mp found
      have room := firstMatch_bound later
      -- a match at 0 of the longer text would already fit in `x::tail`
      have notStill : ¬ delim.isPrefixOf (x::(tail++rest)) = true := by
        intro still
        apply notHere
        have inside : delim <+: x::(tail++rest) := List.isPrefixOf_iff_prefix.mp still
        refine List.isPrefixOf_iff_prefix.mpr (List.prefix_of_prefix_length_le inside (List.prefix_append (x::tail) rest) ?_)
        simp only [List.length_cons]
        omega
      simp only [List.cons_append,firstMatch,if_neg notStill,ih later,Option.map_some]

theorem firstMatch_take (found : firstMatch delim text = some i) :
    firstMatch delim (text.take (i+delim.length)) = some i := by
  induction text generalizing i with
  | nil => simpa using found
  | cons x tail ih =>
    simp only [firstMatch] at found
    split at found
    · rename_i here
      cases Option.some.inj found
      have inside := List.isPrefixOf_iff_prefix.mp here
      rw [Nat.zero_add,← List.prefix_iff_eq_take.mp inside]
      cases delim <;> simp [firstMatch]
    · rename_i notHere
      obtain ⟨j,later,rfl⟩ := Option.map_eq_some_iff.mp found
      have same : j+1+delim.length = (j+delim.length)+1 := by omega
      have notTaken : ¬ delim.isPrefixOf (x::tail.take (j+delim.length)) = true := by
        intro taken
        apply notHere
        refine List.isPrefixOf_iff_prefix.mpr ((List.isPrefixOf_iff_prefix.mp taken).trans ?_)
        exact (List.prefix_cons_inj x).mpr (List.take_prefix _ _)
      rw [same,List.take_succ_cons]
      simp only [firstMatch,if_neg notTaken,ih later,Option.map_some]

theorem firstMatch_none : firstMatch delim text = none ↔ ¬ delim <:+: text := by
  induction text with
  | nil =>
    simp only [firstMatch,List.infix_nil]
    cases delim <;> simp
  | cons x rest ih =>
    simp only [firstMatch,List.infix_cons_iff,not_or,← ih]
    by_cases here : delim.isPrefixOf (x::rest) = true
    · have inside := List.isPrefixOf_iff_prefix.mp here
      simp [here,inside]
    · have outside : ¬ delim <+: x::rest := fun inside => here (List.isPrefixOf_iff_prefix.mpr inside)
      simp [here,outside]

-- A record ends at its first occurrence of the delimiter and nowhere earlier.
def EndsAtFirst (delim record : List α) : Prop :=
  ∃ i, firstMatch delim record = some i ∧ record.length = i+delim.length

theorem endsAtFirst_take (found : firstMatch delim text = some i) :
    EndsAtFirst delim (text.take (i+delim.length)) := by
  have bound := firstMatch_bound found
  exact ⟨i,firstMatch_take found,by rw [List.length_take]; omega⟩

-- Leftmost non-overlapping split. The piece after the last delimiter is no
-- record; without a delimiter there is nothing to split at.
def records (delim text : List α) : List (List α) :=
  if _nonempty : 0 < delim.length then
    match _found : firstMatch delim text with
    | none => []
    | some i => text.take (i+delim.length) :: records delim (text.drop (i+delim.length))
  else []
termination_by text.length
decreasing_by
  have bound := firstMatch_bound _found
  rw [List.length_drop]
  omega

theorem records_absent (absent : firstMatch delim text = none) : records delim text = [] := by
  rw [records]
  split
  · split
    · rfl
    · rename_i found
      rw [absent] at found
      cases found
  · rfl

theorem records_present (nonempty : 0 < delim.length) (found : firstMatch delim text = some i) :
    records delim text = text.take (i+delim.length) :: records delim (text.drop (i+delim.length)) := by
  rw [records,dif_pos nonempty]
  split
  · rename_i absent
    rw [found] at absent
    cases absent
  · rename_i j present
    rw [found] at present
    cases Option.some.inj present
    rfl

theorem records_cons (nonempty : 0 < delim.length) (first : EndsAtFirst delim record) :
    records delim (record++rest) = record :: records delim rest := by
  obtain ⟨i,found,length⟩ := first
  rw [records_present nonempty (firstMatch_append found),← length,List.take_left,List.drop_left]

theorem records_flatten {pieces : List (List α)} (nonempty : 0 < delim.length)
    (each : ∀ record ∈ pieces, EndsAtFirst delim record) :
    records delim (pieces.flatten++rest) = pieces ++ records delim rest := by
  induction pieces with
  | nil => rfl
  | cons record pieces ih =>
    have tail := ih (fun r member => each r (List.mem_cons_of_mem _ member))
    rw [List.flatten_cons,List.append_assoc,records_cons nonempty (each record List.mem_cons_self),tail]
    rfl

-- Exactness of the split: it is the only way to cut the text into records and
-- a remainder without the delimiter.
theorem records_exact {pieces : List (List α)} (nonempty : 0 < delim.length)
    (each : ∀ record ∈ pieces, EndsAtFirst delim record) (clean : ¬ delim <:+: rest) :
    records delim (pieces.flatten++rest) = pieces := by
  rw [records_flatten nonempty each,records_absent (firstMatch_none.mpr clean),List.append_nil]

section Sized
variable {β : Type} {sizes : List Nat} {stream more : List β}

-- One piece for each size asked for; the stream may run short.
def pieces : List Nat → List β → List (List β)
  | [],_ => []
  | k::rest,stream => stream.take k::pieces rest (stream.drop k)

theorem pieces_length : (pieces sizes stream).length = sizes.length := by
  induction sizes generalizing stream with
  | nil => rfl
  | cons k rest ih => simp [pieces,ih]

theorem pieces_append (later : List Nat) :
    pieces (sizes++later) stream = pieces sizes stream ++ pieces later (stream.drop sizes.sum) := by
  induction sizes generalizing stream with
  | nil => simp [pieces]
  | cons first rest ih => simp [pieces,ih]

-- Pieces that did not run short stay as they are when the stream goes on.
theorem pieces_grow (whole : sizes.sum ≤ stream.length) : pieces sizes (stream++more) = pieces sizes stream := by
  induction sizes generalizing stream with
  | nil => rfl
  | cons k rest ih =>
    rw [List.sum_cons] at whole
    have enough : rest.sum ≤ (stream.drop k).length := by
      rw [List.length_drop]
      omega
    simp only [pieces,List.take_append_of_le_length (show k ≤ stream.length by omega),
      List.drop_append_of_le_length (show k ≤ stream.length by omega),ih enough]

theorem pieces_flatten (records : List (List β)) : pieces (records.map List.length) (records.flatten++more) = records := by
  induction records with
  | nil => rfl
  | cons record rest ih => simp [pieces,ih]

end Sized

end RecordSplit

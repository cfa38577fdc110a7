import Mathlib.Data.List.Basic
import Mathlib.Algebra.Ring.Nat

namespace ByteBlock
variable {α : Type}

-- One allocated block. `load` and `store` have no result outside the block:
-- an access past its end is not an access that returns some other value.
def slice (block : List α) (lo n : Nat) : List α := (block.drop lo).take n

def put (block : List α) (offset : Nat) (items : List α) : List α :=
  block.take offset ++ (items ++ block.drop (offset+items.length))

def load (block : List α) (lo n : Nat) : Option (List α) :=
  if lo+n ≤ block.length then some (slice block lo n) else none

def store (block : List α) (offset : Nat) (items : List α) : Option (List α) :=
  if offset+items.length ≤ block.length then some (put block offset items) else none

-- The source is read whole before the first item is stored, so the two ranges
-- may overlap.
def move (block : List α) (target source n : Nat) : Option (List α) :=
  (load block source n).bind (store block target)

-- The common prefix survives; what the larger block holds past it is `fresh`.
def resize (block : List α) (n : Nat) (fresh : Nat → α) : List α :=
  block.take n ++ (List.range (n-block.length)).map fresh

variable {block items : List α} {fresh : Nat → α} {lo n m k offset source target : Nat}

theorem slice_length (bound : lo+n ≤ block.length) : (slice block lo n).length = n := by
  simp only [slice,List.length_take,List.length_drop]
  omega

@[simp] theorem slice_zero : slice block lo 0 = [] := by simp [slice]

theorem slice_take (small : k ≤ n) : (slice block lo n).take k = slice block lo k := by
  simp only [slice,List.take_take,Nat.min_eq_left small]

theorem slice_drop : (slice block lo n).drop k = slice block (lo+k) (n-k) := by
  simp only [slice,List.drop_take,List.drop_drop]

theorem slice_append : slice block lo (n+k) = slice block lo n ++ slice block (lo+n) k := by
  simp only [slice,List.take_add,List.drop_drop]

theorem put_length (bound : offset+items.length ≤ block.length) :
    (put block offset items).length = block.length := by
  simp only [put,List.length_append,List.length_take,List.length_drop]
  omega

theorem slice_put_here (bound : offset+items.length ≤ block.length) :
    slice (put block offset items) offset items.length = items := by
  have left : (block.take offset).length = offset := by simp only [List.length_take]; omega
  simp only [slice,put]
  rw [List.drop_left' left,List.take_left]

theorem slice_put_before (below : lo+n ≤ offset) (bound : offset+items.length ≤ block.length) :
    slice (put block offset items) lo n = slice block lo n := by
  have left : (block.take offset).length = offset := by simp only [List.length_take]; omega
  simp only [slice,put]
  rw [List.drop_append_of_le_length (by omega),List.take_append_of_le_length (by simp only [List.length_drop]; omega),
    List.drop_take,List.take_take,Nat.min_eq_left (by omega)]

theorem slice_put_after (below : lo ≤ offset) (bound : offset+items.length ≤ block.length) :
    slice (put block offset items) lo (offset-lo+items.length) = slice block lo (offset-lo) ++ items := by
  rw [slice_append,slice_put_before (by omega) bound]
  have same : lo+(offset-lo) = offset := by omega
  rw [same,slice_put_here bound]

theorem slice_put_past (above : offset+items.length ≤ lo) (bound : offset+items.length ≤ block.length) :
    slice (put block offset items) lo n = slice block lo n := by
  obtain ⟨k,rfl⟩ : ∃ k, lo = offset+items.length+k := ⟨lo-(offset+items.length),by omega⟩
  have left : (block.take offset).length = offset := by simp only [List.length_take]; omega
  have past : (put block offset items).drop (offset+items.length) = block.drop (offset+items.length) := by
    rw [put,← List.append_assoc]
    exact List.drop_left' (by rw [List.length_append,left])
  simp only [slice,← List.drop_drop,past]

theorem drop_put (below : lo ≤ offset) (bound : offset+items.length ≤ block.length) :
    (put block offset items).drop lo = slice block lo (offset-lo) ++ (items ++ block.drop (offset+items.length)) := by
  have left : (block.take offset).length = offset := by simp only [List.length_take]; omega
  rw [put,List.drop_append_of_le_length (by omega),List.drop_take]
  rfl

-- Storing at the start of a range keeps only what lies past the new items.
theorem slice_put_over (short : items.length ≤ n) (bound : offset+items.length ≤ block.length) :
    slice (put block offset items) offset n = items ++ (slice block offset n).drop items.length := by
  obtain ⟨k,rfl⟩ : ∃ k, n = items.length+k := ⟨n-items.length,by omega⟩
  rw [slice_append,slice_put_here bound,slice_drop,Nat.add_sub_cancel_left]
  have left : (block.take offset).length = offset := by simp only [List.length_take]; omega
  congr 1
  simp only [slice,put]
  rw [← List.drop_drop,List.drop_left' left,List.drop_left]

theorem put_middle {left right : List α} (same : items.length = block.length) :
    put (left++(block++right)) left.length items = left++(items++right) := by
  simp only [put,List.take_left]
  rw [same,← List.drop_drop,List.drop_left,List.drop_left]

theorem block_split (bound : offset+n ≤ block.length) :
    ∃ left here right, block = left++(here++right) ∧ left.length = offset ∧ here.length = n := by
  refine ⟨block.take offset,slice block offset n,block.drop (offset+n),?_,?_,slice_length bound⟩
  · rw [slice,← List.drop_drop,List.take_append_drop,List.take_append_drop]
  · rw [List.length_take]
    omega

theorem put_cons {c : α} (bound : offset+(items.length+1) ≤ block.length) :
    put (put block offset [c]) (offset+1) items = put block offset (c :: items) := by
  obtain ⟨left,here,right,rfl,rfl,length⟩ := block_split bound
  obtain ⟨d,rest,rfl⟩ := List.exists_cons_of_length_eq_add_one length
  have tail : items.length = rest.length := (Nat.succ.inj length).symm
  have all : (c :: items).length = (d :: rest).length := length.symm
  have first : put (left++([d]++(rest++right))) left.length [c] = left++([c]++(rest++right)) := put_middle rfl
  have past : left.length+1 = (left++[c]).length := by rw [List.length_append]; rfl
  rw [put_middle all]
  calc put (put (left++([d]++(rest++right))) left.length [c]) (left.length+1) items
      = put ((left++[c])++(rest++right)) (left++[c]).length items := by rw [first,past,List.append_assoc]
    _ = (left++[c])++(items++right) := put_middle tail
    _ = left++((c :: items)++right) := List.append_assoc _ _ _

theorem resize_length : (resize block n fresh).length = n := by
  simp only [resize,List.length_append,List.length_take,List.length_map,List.length_range]
  omega

theorem slice_resize (kept : lo+m ≤ n) (bound : lo+m ≤ block.length) :
    slice (resize block n fresh) lo m = slice block lo m := by
  simp only [slice,resize]
  rw [List.drop_append_of_le_length (by simp only [List.length_take]; omega),
    List.take_append_of_le_length (by simp only [List.length_drop,List.length_take]; omega),
    List.drop_take,List.take_take,Nat.min_eq_left (by omega)]

theorem load_some (bound : lo+n ≤ block.length) : load block lo n = some (slice block lo n) := if_pos bound

theorem load_all (exact_len : block.length = n) : load block 0 n = some block := by
  rw [load_some (by omega),← exact_len,slice,List.drop_zero,List.take_length]

theorem store_some (bound : offset+items.length ≤ block.length) :
    store block offset items = some (put block offset items) := if_pos bound

theorem store_inversion (stored : store block offset items = some after) :
    offset+items.length ≤ block.length ∧ after = put block offset items := by
  obtain ⟨bound,same⟩ := Option.ite_none_right_eq_some.mp stored
  exact ⟨bound,(Option.some.inj same).symm⟩

theorem move_some (from_bound : source+n ≤ block.length) (to_bound : target+n ≤ block.length) :
    move block target source n = some (put block target (slice block source n)) := by
  have length := slice_length from_bound
  rw [move,load_some from_bound,Option.bind_some,store_some (by omega)]

end ByteBlock

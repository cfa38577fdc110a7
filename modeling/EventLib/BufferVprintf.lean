import Mathlib.Algebra.Ring.Int.Defs
import EventLib.Buffer

namespace EventLib.BufferVprintf
open ByteBlock ByteBuffer

-- What the arguments format to. `vsnprintf` returns an int: the length of the
-- text, or a negative value with something left in the memory it was given.
inductive Formatted where
  | text (s : List UInt8) (short : s.length < 2^31)
  | error (ret : Int) (negative : -2^31 ≤ ret ∧ ret < 0) (left : List UInt8)

-- Result and stored bytes for `n` bytes of room: at most `n-1` of the text and a NUL.
def vsnprintf (n : Nat) : Formatted → Int × List UInt8
  | .text s _ => (s.length,if n = 0 then [] else s.take (n-1) ++ [0])
  | .error ret _ left => (ret,left.take n)

-- One turn of the loop, with the outcome of the `alloc` its `buffer_extend` may ask for.
structure Pass where
  formatted : Formatted
  grant : Grant

inductive Progress where
  | running (b : Buffer)
  | returned (ret : UInt32) (b : Buffer)
deriving DecidableEq

-- The int is tested as a uint32_t. What `buffer_extend` returns is dropped.
def vprintfTurn (b : Buffer) (pass : Pass) : Option Progress :=
  let ret := UInt32.ofInt (vsnprintf (bufferSpace b).toNat pass.formatted).1
  (storeAtWpos b (vsnprintf (bufferSpace b).toNat pass.formatted).2).bind fun c =>
    if ret ≤ 0 then some (.returned 0 c)
    else if ret ≤ bufferSpace b then some (.returned ret {c with wpos:=c.wpos+ret})
    else (bufferExtend c ret pass.grant).map fun extended => .running extended.2

-- The call after so many passes; `running` is a loop that has not ended yet.
def bufferVprintf : Buffer → List Pass → Option Progress
  | b,[] => some (.running b)
  | b,pass::rest => (vprintfTurn b pass).bind fun
    | .running c => bufferVprintf c rest
    | .returned ret c => some (.returned ret c)

variable {b c : Buffer} {s : List UInt8} {short : s.length < 2^31} {grant : Grant} {pass : Pass} {passes rest : List Pass}

theorem vprintf_running (turn : vprintfTurn b pass = some (.running c)) : bufferVprintf b (pass::rest) = bufferVprintf c rest := by
  rw [bufferVprintf,turn]
  rfl

theorem vprintf_returned (turn : vprintfTurn b pass = some (.returned ret c)) :
    bufferVprintf b (pass::rest) = some (.returned ret c) := by
  rw [bufferVprintf,turn]
  rfl

theorem returned_size (turn : vprintfTurn b pass = some (.returned ret c)) : c.size = b.size := by
  obtain ⟨stored,store,turn⟩ := Option.bind_eq_some_iff.mp turn
  obtain ⟨_,_,rfl⟩ := Option.map_eq_some_iff.mp store
  dsimp only at turn
  split at turn
  · cases Option.some.inj turn
    rfl
  · split at turn
    · cases Option.some.inj turn
      rfl
    · obtain ⟨_,_,running⟩ := Option.map_eq_some_iff.mp turn
      cases running

-- What is left of the text in `n` bytes that hold it, terminator included.
def printed (n : Nat) (s : List UInt8) : List UInt8 := (s.take (n-1) ++ [0]).take s.length

theorem printed_exact_iff {n : Nat} (some_text : s ≠ []) (within : s.length ≤ n) :
    printed n s = s ↔ s.length < n ∨ s.getLast? = some 0 := by
  have positive : 0 < s.length := List.length_pos_iff.mpr some_text
  unfold printed
  by_cases room : s.length < n
  · have whole : s.take (n-1) = s := List.take_of_length_le (by omega)
    rw [whole,List.take_left]
    exact ⟨fun _ => Or.inl room,fun _ => rfl⟩
  · have full : s.length = n := by omega
    have cut : (s.take (n-1) ++ [0]).take s.length = s.dropLast ++ [0] := by
      rw [← full,← List.dropLast_eq_take,List.take_of_length_le]
      simp only [List.length_append,List.length_dropLast,List.length_singleton]
      omega
    rw [cut]
    constructor
    · intro same
      right
      rw [← same]
      exact List.getLast?_concat
    · intro ends
      rcases ends with more | last
      · exact absurd more room
      · obtain ⟨front,rfl⟩ := List.getLast?_eq_some_iff.mp last
        rw [List.dropLast_concat]

theorem text_word (short : s.length < 2^31) : (UInt32.ofInt (s.length : Int)).toNat = s.length := count_word (by omega)

theorem text_nonzero (short : s.length < 2^31) (some_text : s ≠ []) : ¬ UInt32.ofInt (s.length : Int) ≤ 0 := by
  have positive : 0 < s.length := List.length_pos_iff.mpr some_text
  rw [UInt32.le_iff_toNat_le,text_word short,UInt32.toNat_zero]
  omega

-- A pass stores inside the free space, so nothing unread changes.
theorem text_stored (short : s.length < 2^31) (valid : Valid b) :
    ∃ c, storeAtWpos b (vsnprintf (bufferSpace b).toNat (.text s short)).2 = some c ∧ Valid c ∧ unread c = unread b ∧
      c.size = b.size ∧ c.rpos = b.rpos ∧ c.wpos = b.wpos := by
  have fits : (vsnprintf (bufferSpace b).toNat (.text s short)).2.length ≤ (bufferSpace b).toNat := by
    simp only [vsnprintf]
    split
    · exact Nat.zero_le _
    · simp only [List.length_append,List.length_take,List.length_singleton]
      omega
  obtain ⟨c,stored,cvalid,wpos⟩ := storeAtWpos_fits valid fits
  obtain ⟨_,same,size⟩ := storeAtWpos_spec valid stored
  obtain ⟨block,_,rfl⟩ := Option.map_eq_some_iff.mp stored
  exact ⟨_,stored,cvalid,same,size,rfl,wpos⟩

theorem text_empty (grant : Grant) (short : ([] : List UInt8).length < 2^31) (valid : Valid b) :
    ∃ c, vprintfTurn b ⟨.text [] short,grant⟩ = some (.returned 0 c) ∧ Valid c ∧ unread c = unread b := by
  obtain ⟨c,stored,cvalid,same,_⟩ := text_stored short valid
  refine ⟨c,?_,cvalid,same⟩
  rw [vprintfTurn,stored]
  rfl

theorem text_fits (grant : Grant) (short : s.length < 2^31) (valid : Valid b) (some_text : s ≠ [])
    (within : s.length ≤ (bufferSpace b).toNat) :
    ∃ c, vprintfTurn b ⟨.text s short,grant⟩ = some (.returned (UInt32.ofInt s.length) c) ∧ Valid c ∧
      unread c = unread b ++ printed (bufferSpace b).toNat s := by
  have positive : 0 < s.length := List.length_pos_iff.mpr some_text
  have word := text_word short
  have enough : UInt32.ofInt (s.length : Int) ≤ bufferSpace b := by
    rw [UInt32.le_iff_toNat_le,word]
    exact within
  have room : (bufferSpace b).toNat ≠ 0 := by omega
  obtain ⟨c,stored,cvalid,_⟩ := text_stored short valid
  have chunk : (vsnprintf (bufferSpace b).toNat (.text s short)).2 = s.take ((bufferSpace b).toNat-1) ++ [0] := if_neg room
  rw [chunk] at stored
  have covers : (UInt32.ofInt (s.length : Int)).toNat ≤ (s.take ((bufferSpace b).toNat-1) ++ [0]).length := by
    simp only [word,List.length_append,List.length_take,List.length_singleton]
    omega
  obtain ⟨dvalid,view⟩ := commit_stored valid stored covers
  refine ⟨{c with wpos:=c.wpos+UInt32.ofInt s.length},?_,dvalid,?_⟩
  · rw [vprintfTurn,chunk,stored]
    exact (if_neg (text_nonzero short some_text)).trans (if_pos enough)
  · rw [view,word]
    rfl

-- The text does not fit: what follows is what `buffer_extend` does to the
-- buffer as it stands.
theorem text_grows (grant : Grant) (short : s.length < 2^31) (valid : Valid b) (beyond : (bufferSpace b).toNat < s.length) :
    ∃ c, Valid c ∧ unread c = unread b ∧ c.size = b.size ∧ c.rpos = b.rpos ∧ c.wpos = b.wpos ∧
      vprintfTurn b ⟨.text s short,grant⟩ =
        (bufferExtend c (UInt32.ofInt s.length) grant).map fun extended => .running extended.2 := by
  have some_text : s ≠ [] := by
    intro empty
    rw [empty] at beyond
    exact absurd beyond (Nat.not_lt_zero _)
  have short_room : ¬ UInt32.ofInt (s.length : Int) ≤ bufferSpace b := by
    rw [UInt32.le_iff_toNat_le,text_word short]
    omega
  obtain ⟨c,stored,cvalid,same,size,rpos,wpos⟩ := text_stored short valid
  refine ⟨c,cvalid,same,size,rpos,wpos,?_⟩
  rw [vprintfTurn,stored]
  exact (if_neg (text_nonzero short some_text)).trans (if_neg short_room)

theorem text_extends (grant : Grant) (short : s.length < 2^31) (valid : Valid b) (beyond : (bufferSpace b).toNat < s.length)
    (fits : b.wpos.toNat-b.rpos.toNat+s.length < 2^32) :
    ∃ c, vprintfTurn b ⟨.text s short,grant⟩ = some (.running c) ∧ Valid c ∧ unread c = unread b ∧
      c.rpos = 0 ∧ c.wpos.toNat = b.wpos.toNat-b.rpos.toNat ∧
      (Compacts b (UInt32.ofInt s.length) ∧ c.size = b.size ∨
        ¬ Compacts b (UInt32.ofInt s.length) ∧ grant ≠ none ∧ c.size.toNat = c.wpos.toNat+s.length ∨
        ¬ Compacts b (UInt32.ofInt s.length) ∧ grant = none ∧ c.size = b.size) := by
  have word := text_word short
  obtain ⟨stored,svalid,same,size,rpos,wpos,turn⟩ := text_grows grant short valid beyond
  have room : stored.wpos.toNat-stored.rpos.toNat+(UInt32.ofInt (s.length : Int)).toNat < 2^32 := by
    rw [wpos,rpos,word]
    exact fits
  obtain ⟨ret,c,ran,cvalid,kept,front,moved,outcome⟩ := bufferExtend_spec grant svalid.bounded (by rw [word]; omega) room
  refine ⟨c,by rw [turn,ran]; rfl,cvalid,kept.trans same,front,by rw [moved,wpos,rpos],?_⟩
  have alike : Compacts stored (UInt32.ofInt s.length) ↔ Compacts b (UInt32.ofInt s.length) := by
    rw [Compacts,Compacts,wpos,rpos,size]
  rw [alike,size,word] at outcome
  rcases outcome with ⟨compacts,_,csize⟩ | ⟨tight,_,granted,grown⟩ | ⟨tight,_,refused,csize⟩
  · exact Or.inl ⟨compacts,csize⟩
  · exact Or.inr (Or.inl ⟨tight,granted,grown⟩)
  · exact Or.inr (Or.inr ⟨tight,refused,csize⟩)

-- Every pass formats the same arguments, and every allocation is granted.
def Prints (s : List UInt8) (pass : Pass) : Prop := (∃ short, pass.formatted = .text s short) ∧ pass.grant ≠ none

theorem prints_fits (prints : Prints s pass) (valid : Valid b) (some_text : s ≠ []) (within : s.length ≤ (bufferSpace b).toNat) :
    ∃ c, vprintfTurn b pass = some (.returned (UInt32.ofInt s.length) c) ∧ Valid c ∧
      unread c = unread b ++ printed (bufferSpace b).toNat s := by
  obtain ⟨⟨short,same⟩,_⟩ := prints
  obtain ⟨formatted,grant⟩ := pass
  cases same
  exact text_fits grant short valid some_text within

-- One growth is enough, and leaves exactly the length of the text unless
-- moving the unread bytes was enough.
theorem prints_extends (prints : Prints s pass) (valid : Valid b) (beyond : (bufferSpace b).toNat < s.length)
    (fits : b.wpos.toNat-b.rpos.toNat+s.length < 2^32) :
    ∃ c, vprintfTurn b pass = some (.running c) ∧ Valid c ∧ unread c = unread b ∧ c.wpos.toNat ≤ b.wpos.toNat ∧
      (bufferSpace c).toNat = max s.length (b.size.toNat-(b.wpos.toNat-b.rpos.toNat)) := by
  have space := valid.space_exact
  have ordered := valid.ordered
  obtain ⟨⟨short,same⟩,granted⟩ := prints
  obtain ⟨formatted,grant⟩ := pass
  cases same
  have word := text_word short
  obtain ⟨c,turn,cvalid,kept,_,moved,outcome⟩ := text_extends grant short valid beyond fits
  have left := cvalid.space_exact
  refine ⟨c,turn,cvalid,kept,by omega,?_⟩
  simp only [Compacts,word] at outcome
  rcases outcome with ⟨compacts,size⟩ | ⟨tight,_,grown⟩ | ⟨_,refused,_⟩
  · rw [left,size]
    omega
  · rw [left,grown]
    omega
  · exact absurd refused granted

theorem vprintf_appends_iff (valid : Valid b) (some_text : s ≠ []) (fits : b.wpos.toNat+s.length < 2^32)
    (prints : ∀ pass ∈ passes, Prints s pass) (enough : 2 ≤ passes.length) :
    ∃ ret c, bufferVprintf b passes = some (.returned ret c) ∧ ret.toNat = s.length ∧ Valid c ∧
      (unread c = unread b ++ s ↔ s.getLast? = some 0 ∨
        s.length ≠ (bufferSpace b).toNat ∧ b.wpos.toNat-b.rpos.toNat+s.length < b.size.toNat) := by
  have space := valid.space_exact
  have ordered := valid.ordered
  have room := valid.room
  match passes,enough with
  | first::second::rest,_ =>
    have one := prints first List.mem_cons_self
    have two := prints second (List.mem_cons_of_mem _ List.mem_cons_self)
    obtain ⟨short,_⟩ := one.1
    have word := text_word short
    by_cases within : s.length ≤ (bufferSpace b).toNat
    · obtain ⟨c,turn,cvalid,view⟩ := prints_fits one valid some_text within
      refine ⟨_,c,vprintf_returned turn,word,cvalid,?_⟩
      rw [view,List.append_cancel_left_eq,printed_exact_iff some_text within,or_comm]
      refine or_congr_right ?_
      omega
    · obtain ⟨c,turn,cvalid,kept,_,left⟩ := prints_extends one valid (by omega) (by omega)
      have inside : s.length ≤ (bufferSpace c).toNat := by omega
      obtain ⟨d,last,dvalid,view⟩ := prints_fits two cvalid some_text inside
      refine ⟨_,d,by rw [vprintf_running turn,vprintf_returned last],word,dvalid,?_⟩
      rw [view,kept,List.append_cancel_left_eq,printed_exact_iff some_text inside,or_comm]
      refine or_congr_right ?_
      omega

def tight : Buffer := ⟨[97,98,0,0],4,0,2⟩
def printing (s : List UInt8) (short : s.length < 2^31) : Pass := ⟨.text s short,some zeroes⟩

theorem short_text_appended : ∃ ret c, bufferVprintf tight [printing [99] (by decide),printing [99] (by decide)] = some (.returned ret c) ∧
    ret = 1 ∧ unread c = unread tight ++ [99] := by
  have valid : Valid tight := ⟨rfl,by decide,Or.inl (by decide)⟩
  have prints : ∀ pass ∈ [printing [99] (by decide),printing [99] (by decide)], Prints [99] pass := by
    intro pass member
    simp only [List.mem_cons,List.not_mem_nil,or_false,or_self] at member
    subst member
    exact ⟨⟨by decide,rfl⟩,Option.some_ne_none _⟩
  obtain ⟨ret,c,ran,count,_,exact_iff⟩ := vprintf_appends_iff valid (by simp) (by decide) prints (by decide)
  exact ⟨ret,c,ran,UInt32.toNat_inj.mp count,exact_iff.mpr (Or.inr (by decide))⟩

-- Two bytes into a free space of two: the terminator takes the place of the
-- last one. After a growth the free space is always that small.
theorem last_byte_lost : Valid tight ∧
    (∃ c, bufferVprintf tight [printing [99,100] (by decide)] = some (.returned 2 c) ∧
      unread c = [97,98,99,0] ∧ unread c ≠ unread tight ++ [99,100]) ∧
    ∃ c, bufferVprintf tight [printing [99,100,101] (by decide),printing [99,100,101] (by decide)] = some (.returned 3 c) ∧
      unread c = [97,98,99,100,0] ∧ unread c ≠ unread tight ++ [99,100,101] := by
  refine ⟨⟨rfl,by decide,Or.inl (by decide)⟩,?_,?_⟩
  · exact ⟨⟨[97,98,99,0],4,0,4⟩,by decide,by decide,by decide⟩
  · exact ⟨⟨[97,98,99,100,0],5,0,5⟩,by decide,by decide,by decide⟩

-- The invariant is asked of the buffer between passes; a pass without a
-- result is undefined behaviour, not a return.
theorem never_returns (invariant : Buffer → Prop)
    (goes_on : ∀ b, ∀ pass ∈ passes, invariant b →
      vprintfTurn b pass = none ∨ ∃ c, vprintfTurn b pass = some (.running c) ∧ invariant c)
    (start : invariant b) : bufferVprintf b passes ≠ some (.returned ret c) := by
  induction passes generalizing b with
  | nil => exact fun returned => by cases returned
  | cons pass rest ih =>
    rcases goes_on b pass List.mem_cons_self start with stuck | ⟨d,turn,held⟩
    · rw [bufferVprintf,stuck]
      exact fun returned => by cases returned
    · rw [vprintf_running turn]
      exact ih (fun b pass member => goes_on b pass (List.mem_cons_of_mem _ member)) held

-- The block ends before `wpos`: the next pass already points outside it.
theorem broken_turn (pass : Pass) (broken : b.buf.length < b.wpos.toNat) : vprintfTurn b pass = none := by
  have outside : ∀ chunk, storeAtWpos b chunk = none := by
    intro chunk
    rw [storeAtWpos,store,if_neg (by omega)]
    rfl
  rw [vprintfTurn,outside]
  rfl

-- `wpos+ret` wraps: the unread bytes are moved to the front, and then the block
-- is cut below `wpos` or freed, or the allocation fails.
theorem wrapped_turn (grant : Grant) (short : s.length < 2^31) (valid : Valid b) (wraps : 2^32 ≤ b.wpos.toNat-b.rpos.toNat+s.length) :
    ∃ c, vprintfTurn b ⟨.text s short,grant⟩ = some (.running c) ∧
      (Valid c ∧ c.wpos.toNat-c.rpos.toNat = b.wpos.toNat-b.rpos.toNat ∨ c.buf.length < c.wpos.toNat) := by
  have space := valid.space_exact
  have room := valid.room
  have bound := b.size.toNat_lt
  have word := text_word short
  obtain ⟨stored,svalid,_,size,rpos,wpos,turn⟩ := text_grows grant short valid (by omega)
  rw [turn,bufferExtend]
  by_cases consumed : 0 < stored.rpos
  · obtain ⟨c,ran,cvalid,_,front,moved,kept⟩ := compact_spec svalid.bounded
    rw [wpos,rpos] at moved
    have sum : (c.wpos+UInt32.ofInt (s.length : Int)).toNat = c.wpos.toNat+s.length-2^32 := by
      rw [UInt32.toNat_add,word]
      omega
    have enough : c.wpos+UInt32.ofInt (s.length : Int) ≤ c.size := by
      rw [UInt32.le_iff_toNat_le,sum,kept,size]
      omega
    simp only [if_pos consumed,ran,Option.bind_eq_bind,Option.bind_some,if_pos enough,Option.map_some]
    refine ⟨c,rfl,Or.inl ⟨cvalid,?_⟩⟩
    rw [moved,front,UInt32.toNat_zero,Nat.sub_zero]
  · have sum : (stored.wpos+UInt32.ofInt (s.length : Int)).toNat = stored.wpos.toNat+s.length-2^32 := by
      rw [UInt32.toNat_add,word,wpos]
      have below := b.wpos.toNat_lt
      omega
    simp only [if_neg consumed,reallocate]
    split
    · refine ⟨_,rfl,Or.inr ?_⟩
      show 0 < stored.wpos.toNat
      rw [wpos]
      omega
    · cases grant with
      | none => exact ⟨stored,rfl,Or.inl ⟨svalid,by rw [wpos,rpos]⟩⟩
      | some fresh =>
        refine ⟨_,rfl,Or.inr ?_⟩
        show (resize stored.buf _ fresh).length < stored.wpos.toNat
        rw [resize_length,sum,wpos]
        omega

-- The successive passes of one call, the allocator answering as it likes.
def attempts (formatted : Formatted) : (Nat → Grant) → Nat → List Pass
  | _,0 => []
  | grants,n+1 => ⟨formatted,grants 0⟩::attempts formatted (fun i => grants (i+1)) n

theorem attempts_pass {formatted : Formatted} {grants : Nat → Grant} {n : Nat} (member : pass ∈ attempts formatted grants n) :
    ∃ i, pass = ⟨formatted,grants i⟩ := by
  induction n generalizing grants with
  | zero => cases member
  | succ n ih =>
    rcases List.mem_cons.mp member with rfl | later
    · exact ⟨0,rfl⟩
    · obtain ⟨i,rfl⟩ := ih later
      exact ⟨i+1,rfl⟩

-- It returns with the text accounted for, or with 0 and the unread bytes as they were.
def Settles (b : Buffer) (s : List UInt8) (passes : List Pass) : Prop :=
  ∃ ret c, bufferVprintf b passes = some (.returned ret c) ∧ (ret.toNat = s.length ∨ ret = 0 ∧ unread c = unread b)

def Obtains (b : Buffer) (s : List UInt8) (grants : Nat → Grant) : Prop :=
  s.length ≤ (bufferSpace b).toNat ∨ Compacts b (UInt32.ofInt s.length) ∨
    b.wpos.toNat-b.rpos.toNat+s.length < 2^32 ∧ ∃ i, grants i ≠ none

theorem fits_settles (grants : Nat → Grant) (short : s.length < 2^31) (valid : Valid b) (some_text : s ≠ [])
    (within : s.length ≤ (bufferSpace b).toNat) : Settles b s (attempts (.text s short) grants 1) := by
  obtain ⟨c,turn,_,_⟩ := text_fits (grants 0) short valid some_text within
  exact ⟨_,c,vprintf_returned turn,Or.inl (text_word short)⟩

-- One more pass in front, from a buffer with the same unread bytes.
theorem Settles.after {grants : Nat → Grant} {n : Nat} (turn : vprintfTurn b ⟨.text s short,grants 0⟩ = some (.running c))
    (kept : unread c = unread b) (settles : Settles c s (attempts (.text s short) (fun i => grants (i+1)) n)) :
    Settles b s (attempts (.text s short) grants (n+1)) := by
  obtain ⟨ret,d,ran,outcome⟩ := settles
  refine ⟨ret,d,?_,by rw [← kept]; exact outcome⟩
  rw [attempts,vprintf_running turn]
  exact ran

theorem granted_settles {grants : Nat → Grant} (short : s.length < 2^31) (valid : Valid b) (some_text : s ≠ [])
    (fits : b.wpos.toNat-b.rpos.toNat+s.length < 2^32) (granted : grants i ≠ none) :
    ∃ n, Settles b s (attempts (.text s short) grants n) := by
  have word := text_word short
  induction i generalizing b grants with
  | zero =>
    by_cases within : s.length ≤ (bufferSpace b).toNat
    · exact ⟨1,fits_settles grants short valid some_text within⟩
    · have prints : Prints s ⟨.text s short,grants 0⟩ := ⟨⟨short,rfl⟩,granted⟩
      obtain ⟨c,turn,cvalid,kept,_,left⟩ := prints_extends prints valid (by omega) fits
      exact ⟨2,.after turn kept (fits_settles _ short cvalid some_text (by omega))⟩
  | succ i ih =>
    by_cases within : s.length ≤ (bufferSpace b).toNat
    · exact ⟨1,fits_settles grants short valid some_text within⟩
    · obtain ⟨c,turn,cvalid,kept,front,moved,_⟩ := text_extends (grants 0) short valid (by omega) fits
      have later : ∃ n, Settles c s (attempts (.text s short) (fun j => grants (j+1)) n) :=
        ih cvalid (by rw [front,moved,UInt32.toNat_zero,Nat.sub_zero]; exact fits) granted
      obtain ⟨n,settles⟩ := later
      exact ⟨n+1,.after turn kept settles⟩

-- Refused every time, the loop comes back to the same free space.
theorem refused_never_returns {grants : Nat → Grant} {n : Nat} (short : s.length < 2^31) (valid : Valid b)
    (beyond : (bufferSpace b).toNat < s.length) (in_place : ¬ Compacts b (UInt32.ofInt s.length))
    (fits : b.wpos.toNat-b.rpos.toNat+s.length < 2^32) (refused : ∀ i, grants i = none) :
    bufferVprintf b (attempts (.text s short) grants n) ≠ some (.returned ret c) := by
  let stalled : Buffer → Prop := fun b => Valid b ∧ (bufferSpace b).toNat < s.length ∧ ¬ Compacts b (UInt32.ofInt s.length) ∧
    b.wpos.toNat-b.rpos.toNat+s.length < 2^32
  refine never_returns stalled ?_ ⟨valid,beyond,in_place,fits⟩
  intro b pass member held
  obtain ⟨i,rfl⟩ := attempts_pass member
  obtain ⟨valid,beyond,in_place,fits⟩ := held
  have space := valid.space_exact
  have ordered := valid.ordered
  have word := text_word short
  obtain ⟨c,turn,cvalid,_,front,moved,outcome⟩ := text_extends (grants i) short valid beyond fits
  have left := cvalid.space_exact
  refine Or.inr ⟨c,turn,cvalid,?_,?_,?_⟩
  · rcases outcome with ⟨compacts,_⟩ | ⟨_,granted,_⟩ | ⟨_,_,size⟩
    · exact absurd compacts in_place
    · exact absurd (refused i) granted
    · rw [Compacts,word] at in_place
      rw [left,size]
      omega
  · intro compacts
    rw [Compacts,front,UInt32.toNat_zero] at compacts
    exact absurd compacts.1 (Nat.lt_irrefl 0)
  · rw [front,moved,UInt32.toNat_zero,Nat.sub_zero]
    exact fits

theorem wrapped_never_returns {grants : Nat → Grant} {n : Nat} (short : s.length < 2^31) (valid : Valid b)
    (wraps : 2^32 ≤ b.wpos.toNat-b.rpos.toNat+s.length) :
    bufferVprintf b (attempts (.text s short) grants n) ≠ some (.returned ret c) := by
  let wrapping : Buffer → Prop := fun b =>
    Valid b ∧ 2^32 ≤ b.wpos.toNat-b.rpos.toNat+s.length ∨ b.buf.length < b.wpos.toNat
  refine never_returns wrapping ?_ (Or.inl ⟨valid,wraps⟩)
  intro b pass member held
  obtain ⟨i,rfl⟩ := attempts_pass member
  rcases held with ⟨valid,wraps⟩ | broken
  · obtain ⟨c,turn,cvalid | broken⟩ := wrapped_turn (grants i) short valid wraps
    · exact Or.inr ⟨c,turn,Or.inl ⟨cvalid.1,by rw [cvalid.2]; exact wraps⟩⟩
    · exact Or.inr ⟨c,turn,Or.inr broken⟩
  · exact Or.inl (broken_turn _ broken)

theorem vprintf_settles_iff (grants : Nat → Grant) (short : s.length < 2^31) (valid : Valid b) (some_text : s ≠ []) :
    (∃ n, Settles b s (attempts (.text s short) grants n)) ↔ Obtains b s grants := by
  have space := valid.space_exact
  have ordered := valid.ordered
  have word := text_word short
  have bound := b.size.toNat_lt
  constructor
  · rintro ⟨n,ret,c,ran,_⟩
    by_contra missing
    rw [Obtains,not_or,not_or] at missing
    obtain ⟨beyond,in_place,starved⟩ := missing
    by_cases fits : b.wpos.toNat-b.rpos.toNat+s.length < 2^32
    · have refused : ∀ i, grants i = none := by
        intro i
        by_contra granted
        exact starved ⟨fits,i,granted⟩
      exact refused_never_returns short valid (by omega) in_place fits refused ran
    · exact wrapped_never_returns short valid (by omega) ran
  · rintro (within | compacts | ⟨fits,i,granted⟩)
    · exact ⟨1,fits_settles grants short valid some_text within⟩
    · have room := compacts.2
      rw [word] at room
      by_cases within : s.length ≤ (bufferSpace b).toNat
      · exact ⟨1,fits_settles grants short valid some_text within⟩
      · obtain ⟨c,turn,cvalid,kept,_,moved,outcome⟩ := text_extends (grants 0) short valid (by omega) (by omega)
        have left := cvalid.space_exact
        have size : c.size = b.size := by
          rcases outcome with ⟨_,size⟩ | ⟨tight,_⟩ | ⟨tight,_⟩
          · exact size
          · exact absurd compacts tight
          · exact absurd compacts tight
        rw [size] at left
        exact ⟨2,.after turn kept (fits_settles _ short cvalid some_text (by omega))⟩
    · exact granted_settles short valid some_text fits granted

def brimful : Buffer := ⟨[97],1,0,1⟩

-- The first two allocations are refused, every later one is granted.
def hesitant : Nat → Grant := fun i => if i < 2 then none else some zeroes

theorem hesitant_settles : Valid brimful ∧ Obtains brimful [98] hesitant ∧
    ∃ n, Settles brimful [98] (attempts (.text [98] (by decide)) hesitant n) := by
  have valid : Valid brimful := ⟨rfl,by decide,Or.inl (by decide)⟩
  have obtains : Obtains brimful [98] hesitant := Or.inr (Or.inr ⟨by decide,2,Option.some_ne_none _⟩)
  exact ⟨valid,obtains,(vprintf_settles_iff hesitant (by decide) valid (by simp)).mpr obtains⟩

-- A full buffer and an allocator that never grants: after any number of passes
-- the loop stands where it began.
theorem refused_loops_forever : Valid brimful ∧ ∀ n,
    bufferVprintf brimful (attempts (.text [98] (by decide)) (fun _ => none) n) = some (.running brimful) := by
  refine ⟨⟨rfl,by decide,Or.inl (by decide)⟩,?_⟩
  intro n
  induction n with
  | zero => rfl
  | succ n ih =>
    have turn : vprintfTurn brimful ⟨.text [98] (by decide),none⟩ = some (.running brimful) := by decide
    rw [attempts,vprintf_running turn]
    exact ih

def Errs (pass : Pass) : Prop := ∃ ret negative left, pass.formatted = .error ret negative left

-- The call ends with 0, the unread bytes and the capacity as they were.
def Harmless (b : Buffer) (passes : List Pass) : Prop :=
  ∃ c, bufferVprintf b passes = some (.returned 0 c) ∧ unread c = unread b ∧ c.size = b.size

theorem negative_word {ret : Int} (negative : -2^31 ≤ ret ∧ ret < 0) : 2^31 ≤ (UInt32.ofInt ret).toNat := by
  have residue : ret % 2^32 = ret+2^32 := by omega
  have word : (UInt32.ofInt ret).toNat = (ret+2^32).toNat := by
    rw [UInt32.ofInt,residue]
    exact UInt32.toNat_ofNat_of_lt' (by rw [UInt32.size]; omega)
  rw [word]
  omega

theorem error_turn (errs : Errs pass) (turn : vprintfTurn b pass = some (.returned ret c)) : 2^31 ≤ ret.toNat := by
  obtain ⟨out,negative,left,same⟩ := errs
  have large := negative_word negative
  obtain ⟨stored,_,turn⟩ := Option.bind_eq_some_iff.mp turn
  simp only [same,vsnprintf] at turn
  split at turn
  · rename_i zero
    have small := UInt32.le_iff_toNat_le.mp zero
    rw [UInt32.toNat_zero] at small
    omega
  · split at turn
    · cases Option.some.inj turn
      exact large
    · obtain ⟨_,_,impossible⟩ := Option.map_eq_some_iff.mp turn
      cases impossible

theorem errors_return_large (errors : ∀ pass ∈ passes, Errs pass) (ran : bufferVprintf b passes = some (.returned ret c)) :
    2^31 ≤ ret.toNat := by
  induction passes generalizing b with
  | nil => cases ran
  | cons pass rest ih =>
    obtain ⟨progress,turn,tail⟩ := Option.bind_eq_some_iff.mp ran
    cases progress with
    | running d => exact ih (fun pass member => errors pass (List.mem_cons_of_mem _ member)) tail
    | returned count d =>
      cases Option.some.inj tail
      exact error_turn (errors pass List.mem_cons_self) turn

-- A negative result is never taken for one: a call that only meets errors does
-- not return 0, whatever the buffer and the allocator.
theorem errors_never_harmless (b : Buffer) (errors : ∀ pass ∈ passes, Errs pass) : ¬ Harmless b passes := by
  rintro ⟨c,ran,_⟩
  have large := errors_return_large errors ran
  exact absurd large (by decide)

def failing (grant : Grant) : Pass := ⟨.error (-1) (by decide) [],grant⟩

theorem failing_errs (grant : Grant) : Errs (failing grant) := ⟨_,_,_,rfl⟩

theorem failing_not_harmless : Valid tight ∧ ¬ Harmless tight [failing (some zeroes),failing none] := by
  have errors : ∀ pass ∈ [failing (some zeroes),failing none], Errs pass := by
    intro pass member
    simp only [List.mem_cons,List.not_mem_nil,or_false] at member
    rcases member with rfl | rfl
    · exact failing_errs _
    · exact failing_errs _
  exact ⟨⟨rfl,by decide,Or.inl (by decide)⟩,errors_never_harmless tight errors⟩

-- Two bytes unread: the first pass cuts the block to one byte. None unread:
-- 4294967295 bytes are asked for, and refused for as long as the allocator likes.
theorem error_cuts_or_loops : Valid tight ∧ vprintfTurn tight (failing (some zeroes)) = some (.running ⟨[97],1,0,2⟩) ∧
    Valid ⟨[0],1,0,0⟩ ∧ ∀ n, bufferVprintf ⟨[0],1,0,0⟩ (List.replicate n (failing none)) = some (.running ⟨[0],1,0,0⟩) := by
  refine ⟨⟨rfl,by decide,Or.inl (by decide)⟩,by decide,⟨rfl,by decide,Or.inr ⟨rfl,rfl⟩⟩,?_⟩
  intro n
  induction n with
  | zero => rfl
  | succ n ih =>
    have turn : vprintfTurn ⟨[0],1,0,0⟩ (failing none) = some (.running ⟨[0],1,0,0⟩) := by decide
    rw [List.replicate_succ,vprintf_running turn]
    exact ih

end EventLib.BufferVprintf

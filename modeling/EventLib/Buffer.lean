import EventLib.ByteBlock
import EventLib.RecordSplit

namespace EventLib.ByteBuffer
open ByteBlock RecordSplit

-- `buf` is the allocated block itself: its length is what was allocated, which
-- `size` merely records. A result of `none` is undefined behaviour of the
-- source (an access outside a block), never an error code.
structure Buffer where
  buf : List UInt8
  size : UInt32
  rpos : UInt32
  wpos : UInt32
deriving DecidableEq

def bufSizeP : UInt32 := 13

-- Outcome of one `alloc(old,n)`: NULL, or success with the contents of the
-- bytes past the old block.
abbrev Grant := Option (Nat → UInt8)

-- `buf->size` is assigned for a zero argument only. `default_alloc` zeroes the
-- header, so any other argument leaves a buffer of capacity 0.
def bufferNew (size : UInt32) (header block : Bool) : Option Buffer :=
  if header then
    let capacity := if size = 0 then 1 <<< bufSizeP else 0
    if block then some ⟨List.replicate capacity.toNat 0,capacity,0,0⟩ else none
  else none

-- What it makes for any other argument and for 0, and a memory of zeroes.
def emptyBuffer : Buffer := ⟨[],0,0,0⟩
def freshBuffer : Buffer := ⟨List.replicate 8192 0,8192,0,0⟩
def zeroes : Nat → UInt8 := fun _ => 0

def compact (b : Buffer) : Option Buffer :=
  (move b.buf 0 b.rpos.toNat (b.wpos-b.rpos).toNat).map fun moved =>
    {b with buf:=moved,wpos:=b.wpos-b.rpos,rpos:=0}

-- `alloc(p,0)` is how the source frees `p`: it returns NULL and the buffer
-- keeps a dangling pointer, here a block of no bytes.
def reallocate (b : Buffer) (len : UInt32) (grant : Grant) : Int × Buffer :=
  let newlen := b.wpos+len
  if newlen = 0 then (-1,{b with buf:=[]}) else
  match grant with
  | none => (-1,b)
  | some fresh => (0,{b with size:=newlen,buf:=resize b.buf newlen.toNat fresh})

def bufferExtend (b : Buffer) (len : UInt32) (grant : Grant) : Option (Int × Buffer) :=
  if 0 < b.rpos then do
    let c ← compact b
    if c.wpos+len ≤ c.size then some (0,c) else some (reallocate c len grant)
  else some (reallocate b len grant)

def advance (b : Buffer) (n : UInt32) : Buffer :=
  if b.wpos ≤ b.rpos+n then {b with rpos:=0,wpos:=0} else {b with rpos:=b.rpos+n}

def readCount (b : Buffer) (len : UInt32) : UInt32 :=
  if len < b.wpos-b.rpos then len else b.wpos-b.rpos

-- `mem` tells a NULL destination (discard) from a real one.
def bufferRead (b : Buffer) (mem : Bool) (len : UInt32) : Option (UInt32 × List UInt8 × Buffer) :=
  if readCount b len = 0 then some (0,[],b) else do
    let copied ← if mem then load b.buf b.rpos.toNat (readCount b len).toNat else some []
    some (readCount b len,copied,advance b (readCount b len))

def makeRoom (b : Buffer) (len : UInt32) (grant : Grant) : Option (Int × Buffer) :=
  if b.size < b.wpos+len then bufferExtend b len grant else some (0,b)

-- The copy goes to `buf->buf + buf->rpos`, the read position, as the source has it.
def copyIn (b : Buffer) (mem : Option (List UInt8)) (len : UInt32) : Option (UInt32 × Buffer) := do
  let block ← match mem with
    | none => some b.buf
    | some bytes => (load bytes 0 len.toNat).bind (store b.buf b.rpos.toNat)
  some (len,{b with buf:=block,wpos:=b.wpos+len})

def bufferWrite (b : Buffer) (mem : Option (List UInt8)) (len : UInt32) (grant : Grant) :
    Option (UInt32 × Buffer) := do
  let (ret,c) ← makeRoom b len grant
  if ret = -1 then some (0,c) else copyIn c mem len

def bufferAvail (b : Buffer) : UInt32 := b.wpos-b.rpos
def bufferSpace (b : Buffer) : UInt32 := b.size-b.wpos
def bufferLen (b : Buffer) : UInt32 := b.size

-- The pointer result is an offset into the block, paired with `*len`.
def bufferYield (b : Buffer) (delim : List UInt8) (delimLen : UInt32) :
    Option (Option (UInt32 × UInt32) × Buffer) := do
  let needle ← load delim 0 delimLen.toNat
  let hay ← load b.buf b.rpos.toNat (b.wpos-b.rpos).toNat
  match firstMatch needle hay with
  | none => some (none,b)
  | some i =>
    let off := UInt32.ofNat (i+delimLen.toNat)
    some (some (b.rpos,off),advance b off)

def storeAtWpos (b : Buffer) (chunk : List UInt8) : Option Buffer :=
  (store b.buf b.wpos.toNat chunk).map fun block => {b with buf:=block}

-- Stronger than in-bounds: a drained buffer always sits at position 0.
structure Valid (b : Buffer) : Prop where
  block : b.buf.length = b.size.toNat
  room : b.wpos.toNat ≤ b.size.toNat
  order : b.rpos.toNat < b.wpos.toNat ∨ b.rpos = 0 ∧ b.wpos = 0

-- In bounds only: a drained buffer may sit anywhere.
structure Bounded (b : Buffer) : Prop where
  block : b.buf.length = b.size.toNat
  order : b.rpos.toNat ≤ b.wpos.toNat
  room : b.wpos.toNat ≤ b.size.toNat

def unread (b : Buffer) : List UInt8 := slice b.buf b.rpos.toNat (b.wpos.toNat-b.rpos.toNat)

theorem length_word {bytes : List UInt8} (short : bytes.length < 2^32) :
    (UInt32.ofNat bytes.length).toNat = bytes.length := UInt32.toNat_ofNat_of_lt' short

theorem low_word (n : Nat) : (UInt32.ofInt n).toNat = n % 2^32 := by
  have same : (n : Int) % 2^32 = (n % 2^32 : Nat) := by omega
  rw [UInt32.ofInt,same,Int.toNat_natCast,UInt32.toNat_ofNat',Nat.mod_mod]

theorem count_word {n : Nat} (small : n < 2^32) : (UInt32.ofInt n).toNat = n := by
  rw [low_word,Nat.mod_eq_of_lt small]

theorem word_positive {x : UInt32} : 0 < x.toNat ↔ x ≠ 0 := by
  rw [Nat.pos_iff_ne_zero,ne_eq,ne_eq,← UInt32.toNat_inj,UInt32.toNat_zero]

variable {b c : Buffer} {len n : UInt32} {grant : Grant}

theorem sum_exact {x y : UInt32} (fits : x.toNat+y.toNat < 2^32) : (x+y).toNat = x.toNat+y.toNat := by
  rw [UInt32.toNat_add,Nat.mod_eq_of_lt fits]

theorem difference_exact {x y : UInt32} (ordered : y.toNat ≤ x.toNat) : (x-y).toNat = x.toNat-y.toNat :=
  UInt32.toNat_sub_of_le x y (UInt32.le_iff_toNat_le.mpr ordered)

theorem Valid.ordered (valid : Valid b) : b.rpos.toNat ≤ b.wpos.toNat := by
  rcases valid.order with before | ⟨r,w⟩
  · exact Nat.le_of_lt before
  · rw [r,w]

theorem Valid.bounded (valid : Valid b) : Bounded b := ⟨valid.block,valid.ordered,valid.room⟩

theorem Bounded.at_front (bounded : Bounded b) (start : b.rpos = 0) : Valid b := by
  refine ⟨bounded.block,bounded.room,?_⟩
  by_cases empty : b.wpos = 0
  · exact Or.inr ⟨start,empty⟩
  · left
    rw [start]
    exact word_positive.mpr empty

theorem Bounded.unread_length (bounded : Bounded b) : (unread b).length = b.wpos.toNat-b.rpos.toNat := by
  apply slice_length
  have order := bounded.order
  have room := bounded.room
  rw [bounded.block]
  omega

theorem Valid.unread_length (valid : Valid b) : (unread b).length = b.wpos.toNat-b.rpos.toNat :=
  valid.bounded.unread_length

theorem Valid.avail_exact (valid : Valid b) : (bufferAvail b).toNat = (unread b).length := by
  rw [valid.unread_length]
  exact difference_exact valid.ordered

theorem Valid.load_unread (valid : Valid b) : load b.buf b.rpos.toNat (bufferAvail b).toNat = some (unread b) := by
  have ordered := valid.ordered
  have room := valid.room
  have block := valid.block
  rw [bufferAvail,difference_exact ordered]
  exact load_some (by omega)

theorem Valid.unread_small (valid : Valid b) : (unread b).length < 2^32 := by
  rw [← valid.avail_exact]
  exact (bufferAvail b).toNat_lt

theorem Valid.avail_zero (valid : Valid b) : bufferAvail b = 0 ↔ unread b = [] := by
  rw [← List.length_eq_zero_iff,← valid.avail_exact,← UInt32.toNat_inj]
  rfl

theorem Valid.space_exact (valid : Valid b) : (bufferSpace b).toNat = b.size.toNat-b.wpos.toNat :=
  difference_exact valid.room

theorem Valid.drained (valid : Valid b) (empty : unread b = []) : b.rpos = 0 ∧ b.wpos = 0 := by
  have length := valid.unread_length
  rw [empty,List.length_nil] at length
  rcases valid.order with before | sits
  · omega
  · exact sits

theorem bufferNew_valid {size : UInt32} {header block : Bool}
    (made : bufferNew size header block = some b) : Valid b ∧ unread b = [] ∧ b.size.toNat ≤ 2^13 := by
  unfold bufferNew at made
  split at made
  · dsimp only at made
    split at made
    · cases Option.some.inj made
      refine ⟨⟨List.length_replicate,Nat.zero_le _,Or.inr ⟨rfl,rfl⟩⟩,slice_zero,?_⟩
      show (if size = 0 then 1 <<< bufSizeP else 0 : UInt32).toNat ≤ 2^13
      split <;> decide
    · cases made
  · cases made

theorem compact_spec (bounded : Bounded b) : ∃ c, compact b = some c ∧ Valid c ∧ unread c = unread b ∧
    c.rpos = 0 ∧ c.wpos.toNat = b.wpos.toNat-b.rpos.toNat ∧ c.size = b.size := by
  obtain ⟨block,ordered,room⟩ := bounded
  have moved := difference_exact ordered
  have inside : b.rpos.toNat+(b.wpos-b.rpos).toNat ≤ b.buf.length := by omega
  let items := slice b.buf b.rpos.toNat (b.wpos-b.rpos).toNat
  have length : items.length = (b.wpos-b.rpos).toNat := slice_length inside
  let c : Buffer := {b with buf:=put b.buf 0 items,wpos:=b.wpos-b.rpos,rpos:=0}
  have whole : c.buf.length = c.size.toNat := (put_length (by omega)).trans block
  have fits : (b.wpos-b.rpos).toNat ≤ b.size.toNat := by omega
  have cbounded : Bounded c := ⟨whole,Nat.zero_le _,fits⟩
  refine ⟨c,?_,cbounded.at_front rfl,?_,rfl,moved,rfl⟩
  · rw [compact,move_some inside (by omega)]
    rfl
  · have here : slice (put b.buf 0 items) 0 items.length = items := slice_put_here (by omega)
    show slice (put b.buf 0 items) 0 ((b.wpos-b.rpos).toNat-0) = unread b
    rw [Nat.sub_zero,← length,here,unread,← moved]

theorem reallocate_spec (grant : Grant) (valid : Valid b) (start : b.rpos = 0) (positive : 0 < b.wpos.toNat+len.toNat)
    (fits : b.wpos.toNat+len.toNat < 2^32) :
    Valid (reallocate b len grant).2 ∧ unread (reallocate b len grant).2 = unread b ∧
      (reallocate b len grant).2.rpos = 0 ∧ (reallocate b len grant).2.wpos = b.wpos ∧
      ((reallocate b len grant).1 = 0 ∧ grant ≠ none ∧ (reallocate b len grant).2.size.toNat = b.wpos.toNat+len.toNat ∨
        (reallocate b len grant).1 = -1 ∧ grant = none ∧ (reallocate b len grant).2.size = b.size) := by
  have sum := sum_exact fits
  have room := valid.room
  have nonzero : b.wpos+len ≠ 0 := word_positive.mp (by omega)
  unfold reallocate
  simp only [if_neg nonzero]
  cases grant with
  | none => exact ⟨valid,rfl,start,rfl,Or.inr ⟨rfl,rfl,rfl⟩⟩
  | some fresh =>
    refine ⟨⟨resize_length,?_,valid.order⟩,?_,start,rfl,Or.inl ⟨rfl,Option.some_ne_none _,sum⟩⟩
    · show b.wpos.toNat ≤ (b.wpos+len).toNat
      omega
    · have ordered := valid.ordered
      have block := valid.block
      show slice (resize b.buf (b.wpos+len).toNat fresh) b.rpos.toNat (b.wpos.toNat-b.rpos.toNat) = unread b
      exact slice_resize (by omega) (by omega)

-- Moving the unread bytes to the front makes the room, without an allocation.
def Compacts (b : Buffer) (len : UInt32) : Prop :=
  0 < b.rpos.toNat ∧ b.wpos.toNat-b.rpos.toNat+len.toNat ≤ b.size.toNat

instance : Decidable (Compacts b len) := inferInstanceAs (Decidable (_ ∧ _))

-- Everything a call can do to a buffer in bounds, refused allocation included.
theorem bufferExtend_spec (grant : Grant) (bounded : Bounded b) (positive : 0 < len.toNat)
    (fits : b.wpos.toNat-b.rpos.toNat+len.toNat < 2^32) :
    ∃ ret c, bufferExtend b len grant = some (ret,c) ∧ Valid c ∧ unread c = unread b ∧
      c.rpos = 0 ∧ c.wpos.toNat = b.wpos.toNat-b.rpos.toNat ∧
      (Compacts b len ∧ ret = 0 ∧ c.size = b.size ∨
        ¬ Compacts b len ∧ ret = 0 ∧ grant ≠ none ∧ c.size.toNat = c.wpos.toNat+len.toNat ∨
        ¬ Compacts b len ∧ ret = -1 ∧ grant = none ∧ c.size = b.size) := by
  unfold bufferExtend
  by_cases consumed : 0 < b.rpos
  · have start := UInt32.lt_iff_toNat_lt.mp consumed
    rw [UInt32.toNat_zero] at start
    obtain ⟨c,ran,cvalid,same,front,wpos,size⟩ := compact_spec bounded
    have cfits : c.wpos.toNat+len.toNat < 2^32 := by omega
    simp only [if_pos consumed,ran,Option.bind_eq_bind,Option.bind_some]
    by_cases enough : c.wpos+len ≤ c.size
    · have room := UInt32.le_iff_toNat_le.mp enough
      rw [sum_exact cfits,wpos,size] at room
      exact ⟨0,c,by rw [if_pos enough],cvalid,same,front,wpos,Or.inl ⟨⟨start,room⟩,rfl,size⟩⟩
    · have short : ¬ Compacts b len := by
        intro compacts
        apply enough
        rw [UInt32.le_iff_toNat_le,sum_exact cfits,wpos,size]
        exact compacts.2
      obtain ⟨rvalid,rsame,rstart,rwpos,outcome⟩ := reallocate_spec grant cvalid front (by omega) cfits
      refine ⟨_,_,by rw [if_neg enough],rvalid,rsame.trans same,rstart,by rw [rwpos,wpos],Or.inr ?_⟩
      rcases outcome with ⟨ok,granted,grown⟩ | ⟨failed,refused,kept⟩
      · exact Or.inl ⟨short,ok,granted,by rw [grown,rwpos]⟩
      · exact Or.inr ⟨short,failed,refused,kept.trans size⟩
  · have start : b.rpos = 0 := by
      apply UInt32.toNat_inj.mp
      have zero : ¬ (0 : UInt32).toNat < b.rpos.toNat := fun less => consumed (UInt32.lt_iff_toNat_lt.mpr less)
      simpa using zero
    have short : ¬ Compacts b len := by
      intro compacts
      rw [Compacts,start,UInt32.toNat_zero] at compacts
      exact absurd compacts.1 (Nat.lt_irrefl 0)
    rw [start,UInt32.toNat_zero,Nat.sub_zero] at fits
    obtain ⟨rvalid,rsame,rstart,rwpos,outcome⟩ := reallocate_spec grant (bounded.at_front start) start (by omega) fits
    refine ⟨_,_,by rw [if_neg consumed],rvalid,rsame,rstart,by rw [rwpos,start,UInt32.toNat_zero,Nat.sub_zero],Or.inr ?_⟩
    rcases outcome with ⟨ok,granted,grown⟩ | ⟨failed,refused,kept⟩
    · exact Or.inl ⟨short,ok,granted,by rw [grown,rwpos]⟩
    · exact Or.inr ⟨short,failed,refused,kept⟩

-- The new size is counted from `wpos` alone, so only a compaction looks at the
-- size there was.
theorem extend_size_iff (grant : Grant) (bounded : Bounded b) (positive : 0 < len.toNat)
    (fits : b.wpos.toNat-b.rpos.toNat+len.toNat < 2^32) (ran : bufferExtend b len grant = some (ret,c)) :
    b.size ≤ c.size ↔ 0 < b.rpos.toNat ∨ b.size.toNat ≤ b.wpos.toNat+len.toNat ∨ grant = none := by
  obtain ⟨_,_,ran',_,_,_,wpos,outcome⟩ := bufferExtend_spec grant bounded positive fits
  cases Option.some.inj (ran.symm.trans ran')
  have order := bounded.order
  rw [UInt32.le_iff_toNat_le]
  simp only [Compacts] at outcome
  rcases outcome with ⟨compacts,_,size⟩ | ⟨tight,_,granted,size⟩ | ⟨_,_,refused,size⟩
  · rw [size]
    exact ⟨fun _ => Or.inl compacts.1,fun _ => Nat.le_refl _⟩
  · simp only [granted,or_false]
    omega
  · rw [size]
    exact ⟨fun _ => Or.inr (Or.inr refused),fun _ => Nat.le_refl _⟩

theorem advance_same (b : Buffer) (n : UInt32) : (advance b n).buf = b.buf ∧ (advance b n).size = b.size := by
  unfold advance
  split <;> exact ⟨rfl,rfl⟩

theorem advance_spec (valid : Valid b) (within : n.toNat ≤ (unread b).length) :
    Valid (advance b n) ∧ unread (advance b n) = (unread b).drop n.toNat := by
  rw [valid.unread_length] at within
  have ordered := valid.ordered
  have bound := b.wpos.toNat_lt
  have sum : (b.rpos+n).toNat = b.rpos.toNat+n.toNat := sum_exact (by omega)
  unfold advance
  by_cases all : b.wpos ≤ b.rpos+n
  · have reached := UInt32.le_iff_toNat_le.mp all
    rw [if_pos all]
    refine ⟨⟨valid.block,Nat.zero_le _,Or.inr ⟨rfl,rfl⟩⟩,?_⟩
    have gone : (unread b).drop n.toNat = [] := by
      rw [List.drop_eq_nil_iff,valid.unread_length]
      omega
    rw [gone]
    exact slice_zero
  · have short : ¬ b.wpos.toNat ≤ (b.rpos+n).toNat := fun less => all (UInt32.le_iff_toNat_le.mpr less)
    rw [if_neg all]
    refine ⟨⟨valid.block,valid.room,Or.inl ?_⟩,?_⟩
    · show (b.rpos+n).toNat < b.wpos.toNat
      omega
    · show slice b.buf (b.rpos+n).toNat (b.wpos.toNat-(b.rpos+n).toNat) = (unread b).drop n.toNat
      rw [unread,slice_drop,sum,Nat.sub_add_eq]

theorem readCount_exact (len : UInt32) (valid : Valid b) : (readCount b len).toNat = min len.toNat (unread b).length := by
  have avail := valid.avail_exact
  rw [bufferAvail] at avail
  unfold readCount
  by_cases less : len < b.wpos-b.rpos
  · have shorter := UInt32.lt_iff_toNat_lt.mp less
    rw [if_pos less]
    omega
  · have longer : ¬ len.toNat < (b.wpos-b.rpos).toNat := fun small => less (UInt32.lt_iff_toNat_lt.mpr small)
    rw [if_neg less]
    omega

theorem bufferRead_spec (mem : Bool) (len : UInt32) (valid : Valid b) :
    ∃ nread copied c, bufferRead b mem len = some (nread,copied,c) ∧ Valid c ∧
      nread.toNat = min len.toNat (unread b).length ∧ unread c = (unread b).drop len.toNat ∧
      copied = (if mem then (unread b).take len.toNat else []) ∧ c.size = b.size := by
  have count := readCount_exact len valid
  have dropped : (unread b).drop len.toNat = (unread b).drop (readCount b len).toNat := by
    rw [count,List.drop_eq_drop_iff]
    omega
  have taken : (unread b).take len.toNat = (unread b).take (readCount b len).toNat := by
    rw [count,List.take_eq_take_iff]
    omega
  rw [dropped,taken]
  unfold bufferRead
  by_cases nothing : readCount b len = 0
  · rw [if_pos nothing]
    refine ⟨0,[],b,rfl,valid,by rw [← count,nothing],?_,?_,rfl⟩
    · rw [nothing]
      rfl
    · rw [nothing]
      simp
  · have room := valid.room
    have ordered := valid.ordered
    have block := valid.block
    have length := valid.unread_length
    obtain ⟨cvalid,rest⟩ := advance_spec (n:=readCount b len) valid (by omega)
    have loaded : load b.buf b.rpos.toNat (readCount b len).toNat = some ((unread b).take (readCount b len).toNat) := by
      rw [load_some (by omega),unread,slice_take (by omega)]
    rw [if_neg nothing]
    cases mem with
    | true => exact ⟨_,_,_,by simp only [if_true,loaded]; rfl,cvalid,count,rest,rfl,(advance_same _ _).2⟩
    | false => exact ⟨_,_,_,rfl,cvalid,count,rest,rfl,(advance_same _ _).2⟩

theorem makeRoom_fits (grant : Grant) (fits : b.wpos.toNat+len.toNat ≤ b.size.toNat) :
    makeRoom b len grant = some (0,b) := by
  have bound := b.size.toNat_lt
  have sum : (b.wpos+len).toNat = b.wpos.toNat+len.toNat := sum_exact (by omega)
  apply if_neg
  intro beyond
  have more := UInt32.lt_iff_toNat_lt.mp beyond
  omega

-- A buffer that needs no room is left where it sits.
theorem makeRoom_spec (grant : Grant) (bounded : Bounded b) (fits : b.wpos.toNat+len.toNat < 2^32) :
    ∃ ret c, makeRoom b len grant = some (ret,c) ∧ Bounded c ∧ (Valid b → Valid c) ∧ unread c = unread b ∧
      c.wpos.toNat ≤ b.wpos.toNat ∧
      (ret = 0 ∧ c.wpos.toNat+len.toNat ≤ c.size.toNat ∨ ret = -1 ∧ grant = none ∧ c.size = b.size) := by
  by_cases enough : b.wpos.toNat+len.toNat ≤ b.size.toNat
  · exact ⟨0,b,makeRoom_fits grant enough,bounded,id,rfl,Nat.le_refl _,Or.inl ⟨rfl,enough⟩⟩
  · have room := bounded.room
    have full : b.size < b.wpos+len := by
      rw [UInt32.lt_iff_toNat_lt,sum_exact fits]
      omega
    have short : b.wpos.toNat-b.rpos.toNat+len.toNat < 2^32 := by omega
    obtain ⟨ret,c,ran,cvalid,same,_,wpos,outcome⟩ := bufferExtend_spec grant bounded (by omega) short
    refine ⟨ret,c,(if_pos full).trans ran,cvalid.bounded,fun _ => cvalid,same,by omega,?_⟩
    rcases outcome with ⟨compacts,ok,size⟩ | ⟨_,ok,_,grown⟩ | ⟨_,refused⟩
    · exact Or.inl ⟨ok,by rw [wpos,size]; exact compacts.2⟩
    · exact Or.inl ⟨ok,by omega⟩
    · exact Or.inr refused

theorem commit_spec (len : UInt32) (valid : Valid b) (fits : b.wpos.toNat+len.toNat ≤ b.size.toNat) :
    Valid {b with wpos:=b.wpos+len} ∧
      unread {b with wpos:=b.wpos+len} = slice b.buf b.rpos.toNat (b.wpos.toNat-b.rpos.toNat+len.toNat) := by
  have ordered := valid.ordered
  have bound := b.size.toNat_lt
  have sum : (b.wpos+len).toNat = b.wpos.toNat+len.toNat := sum_exact (by omega)
  refine ⟨⟨valid.block,?_,?_⟩,?_⟩
  · show (b.wpos+len).toNat ≤ b.size.toNat
    omega
  · by_cases zero : len = 0
    · subst zero
      simpa using valid.order
    · have positive : 0 < len.toNat := word_positive.mpr zero
      left
      show b.rpos.toNat < (b.wpos+len).toNat
      omega
  · show slice b.buf b.rpos.toNat ((b.wpos+len).toNat-b.rpos.toNat) = _
    rw [sum,Nat.sub_add_comm ordered]

theorem copyIn_moves {mem : Option (List UInt8)} (ran : copyIn b mem len = some (ret,c)) :
    ret = len ∧ c.buf.length = b.buf.length ∧ c.size = b.size ∧ c.rpos = b.rpos ∧ c.wpos = b.wpos+len := by
  cases mem with
  | none =>
    cases Option.some.inj ran
    exact ⟨rfl,rfl,rfl,rfl,rfl⟩
  | some bytes =>
    obtain ⟨after,stored,ran⟩ := Option.bind_eq_some_iff.mp ran
    cases Option.some.inj ran
    obtain ⟨_,_,stored⟩ := Option.bind_eq_some_iff.mp stored
    obtain ⟨inside,rfl⟩ := store_inversion stored
    exact ⟨rfl,put_length inside,rfl,rfl,rfl⟩

theorem copyIn_returns {mem : Option (List UInt8)} (source : ∀ bytes ∈ mem, bytes.length = len.toNat)
    (inside : b.rpos.toNat+len.toNat ≤ b.buf.length) : ∃ c, copyIn b mem len = some (len,c) := by
  cases mem with
  | none => exact ⟨_,rfl⟩
  | some bytes =>
    have exact_len : bytes.length = len.toNat := source bytes rfl
    rw [copyIn,load_all exact_len,Option.bind_some,store_some (by omega)]
    exact ⟨_,rfl⟩

-- `tail` is whatever the block held past the unread bytes. The payload lands
-- over the oldest unread bytes, so it is an append only when there are none.
theorem copyIn_spec (valid : Valid b) (enough : b.wpos.toNat+len.toNat ≤ b.size.toNat)
    (bytes : List UInt8) (exact_len : bytes.length = len.toNat) :
    ∃ c tail, copyIn b (some bytes) len = some (len,c) ∧ Valid c ∧ c.size = b.size ∧ tail.length = len.toNat ∧
      unread c = bytes ++ (unread b++tail).drop len.toNat := by
  have ordered := valid.ordered
  have block := valid.block
  have inside : b.rpos.toNat+bytes.length ≤ b.buf.length := by omega
  let c : Buffer := {b with buf:=put b.buf b.rpos.toNat bytes}
  have cvalid : Valid c := ⟨(put_length inside).trans block,valid.room,valid.order⟩
  obtain ⟨dvalid,view⟩ := commit_spec len cvalid enough
  refine ⟨{c with wpos:=c.wpos+len},slice b.buf b.wpos.toNat len.toNat,?_,dvalid,rfl,slice_length (by omega),?_⟩
  · rw [copyIn,load_all exact_len,Option.bind_some,store_some inside]
    rfl
  · have joined : b.rpos.toNat+(b.wpos.toNat-b.rpos.toNat) = b.wpos.toNat := by omega
    rw [view]
    show slice (put b.buf b.rpos.toNat bytes) b.rpos.toNat (b.wpos.toNat-b.rpos.toNat+len.toNat) = _
    rw [slice_put_over (by omega) inside,slice_append,joined,exact_len]
    rfl

theorem bufferWrite_fits (grant : Grant) (mem : Option (List UInt8)) (fits : b.wpos.toNat+len.toNat ≤ b.size.toNat) :
    bufferWrite b mem len grant = copyIn b mem len := by
  rw [bufferWrite,makeRoom_fits grant fits]
  rfl

theorem bufferWrite_spec (grant : Grant) (valid : Valid b) (fits : b.wpos.toNat+len.toNat < 2^32)
    (bytes : List UInt8) (exact_len : bytes.length = len.toNat) :
    ∃ ret c, bufferWrite b (some bytes) len grant = some (ret,c) ∧ Valid c ∧
      (ret = len ∧ (∃ tail, tail.length = len.toNat ∧ unread c = bytes ++ (unread b++tail).drop len.toNat) ∨
        ret = 0 ∧ grant = none ∧ unread c = unread b) := by
  obtain ⟨ret,c,ran,_,stays,same,_,outcome⟩ := makeRoom_spec grant valid.bounded fits
  have cvalid := stays valid
  simp only [bufferWrite,ran,Option.bind_eq_bind,Option.bind_some]
  rcases outcome with ⟨ok,enough⟩ | ⟨failed,refused,_⟩
  · obtain ⟨d,tail,copied,dvalid,_,length,view⟩ := copyIn_spec cvalid enough bytes exact_len
    rw [if_neg (by rw [ok]; decide)]
    exact ⟨len,d,copied,dvalid,Or.inl ⟨rfl,tail,length,by rw [view,same]⟩⟩
  · exact ⟨0,c,by rw [if_pos failed],cvalid,Or.inr ⟨rfl,refused,same⟩⟩

-- Without a source nothing is copied and `wpos` alone moves.
theorem bufferWrite_commits (len : UInt32) (grant : Grant) (valid : Valid b) (fits : b.wpos.toNat+len.toNat < 2^32) :
    ∃ ret c, bufferWrite b none len grant = some (ret,c) ∧ Valid c ∧ c.wpos.toNat ≤ b.wpos.toNat+len.toNat := by
  obtain ⟨ret,c,ran,_,stays,_,shorter,outcome⟩ := makeRoom_spec grant valid.bounded fits
  have cvalid := stays valid
  simp only [bufferWrite,ran,Option.bind_eq_bind,Option.bind_some]
  rcases outcome with ⟨ok,enough⟩ | ⟨failed,_,_⟩
  · have sum : (c.wpos+len).toNat = c.wpos.toNat+len.toNat := sum_exact (by omega)
    rw [if_neg (by rw [ok]; decide)]
    refine ⟨len,{c with wpos:=c.wpos+len},rfl,(commit_spec len cvalid enough).1,?_⟩
    show (c.wpos+len).toNat ≤ _
    omega
  · exact ⟨0,c,by rw [if_pos failed],cvalid,by omega⟩

-- A store behind `wpos` touches no unread byte.
theorem storeAtWpos_spec {chunk : List UInt8} (valid : Valid b) (stored : storeAtWpos b chunk = some c) :
    Valid c ∧ unread c = unread b ∧ c.size = b.size := by
  obtain ⟨block,put,rfl⟩ := Option.map_eq_some_iff.mp stored
  obtain ⟨inside,rfl⟩ := store_inversion put
  have ordered := valid.ordered
  have below : b.rpos.toNat+(b.wpos.toNat-b.rpos.toNat) ≤ b.wpos.toNat := by omega
  exact ⟨⟨(put_length inside).trans valid.block,valid.room,valid.order⟩,slice_put_before below inside,rfl⟩

theorem storeAtWpos_fits {chunk : List UInt8} (valid : Valid b) (fits : chunk.length ≤ (bufferSpace b).toNat) :
    ∃ c, storeAtWpos b chunk = some c ∧ Valid c ∧ c.wpos = b.wpos := by
  have space := valid.space_exact
  have room := valid.room
  have block := valid.block
  have stored : storeAtWpos b chunk = some {b with buf:=put b.buf b.wpos.toNat chunk} := by
    rw [storeAtWpos,store_some (by omega)]
    rfl
  exact ⟨_,stored,(storeAtWpos_spec valid stored).1,rfl⟩

-- The commit may stop short of what was stored.
theorem commit_stored {chunk : List UInt8} (valid : Valid b) (stored : storeAtWpos b chunk = some c) (within : n.toNat ≤ chunk.length) :
    Valid {c with wpos:=c.wpos+n} ∧ unread {c with wpos:=c.wpos+n} = unread b ++ chunk.take n.toNat := by
  have cvalid := (storeAtWpos_spec valid stored).1
  obtain ⟨block,kept,rfl⟩ := Option.map_eq_some_iff.mp stored
  obtain ⟨inside,rfl⟩ := store_inversion kept
  have ordered := valid.ordered
  have length := valid.unread_length
  have whole := valid.block
  obtain ⟨dvalid,view⟩ := commit_spec n cvalid (show b.wpos.toNat+n.toNat ≤ b.size.toNat by omega)
  refine ⟨dvalid,view.trans ?_⟩
  have after : slice (put b.buf b.wpos.toNat chunk) b.rpos.toNat (b.wpos.toNat-b.rpos.toNat+chunk.length) = unread b ++ chunk :=
    slice_put_after ordered inside
  calc slice (put b.buf b.wpos.toNat chunk) b.rpos.toNat (b.wpos.toNat-b.rpos.toNat+n.toNat)
      = (unread b ++ chunk).take (b.wpos.toNat-b.rpos.toNat+n.toNat) := by rw [← after,slice_take (by omega)]
    _ = unread b ++ chunk.take n.toNat := by rw [← length,List.take_length_add_append]

-- The zero-copy path: the caller's store through `buffer_wpos` and its commit.
theorem deliver_spec (grant : Grant) (valid : Valid b) (chunk : List UInt8) (exact_len : chunk.length = len.toNat)
    (within : len.toNat ≤ (bufferSpace b).toNat) :
    ∃ c d, storeAtWpos b chunk = some c ∧ bufferWrite c none len grant = some (len,d) ∧ Valid d ∧
      unread d = unread b ++ chunk ∧ d.size = b.size := by
  have space := valid.space_exact
  have room := valid.room
  obtain ⟨c,stored,_,wpos⟩ := storeAtWpos_fits valid (exact_len.trans_le within)
  have size := (storeAtWpos_spec valid stored).2.2
  obtain ⟨dvalid,view⟩ := commit_stored valid stored (Nat.le_of_eq exact_len.symm)
  refine ⟨c,{c with wpos:=c.wpos+len},stored,?_,dvalid,?_,size⟩
  · exact bufferWrite_fits grant none (by rw [wpos,size]; omega)
  · rw [view,← exact_len,List.take_length]

theorem bufferYield_spec (valid : Valid b) {delim : List UInt8} {delimLen : UInt32}
    (exact_len : delim.length = delimLen.toNat) :
    ∃ got c, bufferYield b delim delimLen = some (got,c) ∧ Valid c ∧ c.size = b.size ∧
      (firstMatch delim (unread b) = none ∧ got = none ∧ c = b ∨
        ∃ i ret off, firstMatch delim (unread b) = some i ∧ got = some (ret,off) ∧ off.toNat = i+delim.length ∧
          load c.buf ret.toNat off.toNat = some ((unread b).take off.toNat) ∧ unread c = (unread b).drop off.toNat) := by
  have length := valid.unread_length
  have room := valid.room
  have ordered := valid.ordered
  have block := valid.block
  have hay : load b.buf b.rpos.toNat (b.wpos-b.rpos).toNat = some (unread b) := valid.load_unread
  unfold bufferYield
  simp only [load_all exact_len,hay,Option.bind_eq_bind,Option.bind_some]
  cases found : firstMatch delim (unread b) with
  | none => exact ⟨none,b,rfl,valid,rfl,Or.inl ⟨rfl,rfl,rfl⟩⟩
  | some i =>
    have inside := firstMatch_bound found
    have bound := b.wpos.toNat_lt
    have off : (UInt32.ofNat (i+delimLen.toNat)).toNat = i+delim.length := by
      rw [UInt32.toNat_ofNat_of_lt' (by rw [UInt32.size]; omega),exact_len]
    obtain ⟨cvalid,rest⟩ := advance_spec (n:=UInt32.ofNat (i+delimLen.toNat)) valid (by omega)
    refine ⟨_,_,rfl,cvalid,(advance_same _ _).2,Or.inr ⟨i,_,_,rfl,rfl,off,?_,rest⟩⟩
    rw [(advance_same _ _).1,load_some (by omega),unread,slice_take (by omega)]

end EventLib.ByteBuffer

import EventLib.StreamInput

namespace EventLib.StreamFilling
open ByteBlock ByteBuffer Streams StreamInput

def arrived (stm : Stream) (supply : Supply) : List UInt8 := taken (fillCapacity stm.buf) supply

def Appends (stm : Stream) (w : World) (supply : Supply) (grants : Grant × Grant) : Prop :=
  ∃ out, streamFill stm w supply grants = some out ∧ out.ret = 0 ∧
    out.nread.map UInt32.toNat = some (arrived stm supply).length ∧
    unread out.stm.buf = unread stm.buf ++ arrived stm supply

def Untouched (stm : Stream) (w : World) (supply : Supply) (grants : Grant × Grant) : Prop :=
  ∃ out, streamFill stm w supply grants = some out ∧ out.ret = -1 ∧ unread out.stm.buf = unread stm.buf

variable {b c : Buffer} {len ret space cnt : UInt32} {mem : Option (List UInt8)} {fresh : Nat → UInt8} {got : List UInt8}
  {stm : Stream} {w : World} {supply : Supply} {grants : Grant × Grant}

-- No word of the positions here: these hold in 32-bit arithmetic, also where a
-- sum wraps around.
theorem compact_count (ran : compact b = some c) :
    c.buf.length = b.buf.length ∧ c.size = b.size ∧ bufferAvail c = bufferAvail b := by
  obtain ⟨moved,stored,rfl⟩ := Option.map_eq_some_iff.mp ran
  obtain ⟨items,_,stored⟩ := Option.bind_eq_some_iff.mp stored
  obtain ⟨inside,rfl⟩ := store_inversion stored
  exact ⟨put_length inside,rfl,UInt32.sub_zero _⟩

theorem reallocate_granted (nonzero : b.wpos+len ≠ 0) :
    reallocate b len (some fresh) = (0,{b with size:=b.wpos+len,buf:=resize b.buf (b.wpos+len).toNat fresh}) := by
  simp only [reallocate,if_neg nonzero]

theorem extend_granted {result : Int × Buffer} (block : b.buf.length = b.size.toNat) (beyond : b.size < b.wpos+len)
    (ran : bufferExtend b len (some fresh) = some result) :
    result.1 = 0 ∧ result.2.buf.length = result.2.size.toNat ∧ bufferAvail result.2 = bufferAvail b ∧
      result.2.wpos+len ≤ result.2.size := by
  unfold bufferExtend at ran
  by_cases consumed : 0 < b.rpos
  · rw [if_pos consumed] at ran
    obtain ⟨c,did,ran⟩ := Option.bind_eq_some_iff.mp ran
    obtain ⟨length,size,avail⟩ := compact_count did
    by_cases enough : c.wpos+len ≤ c.size
    · rw [if_pos enough] at ran
      cases Option.some.inj ran
      exact ⟨rfl,by rw [length,size]; exact block,avail,enough⟩
    · have nonzero : c.wpos+len ≠ 0 := by
        intro zero
        rw [zero] at enough
        exact enough UInt32.zero_le
      rw [if_neg enough,reallocate_granted nonzero] at ran
      cases Option.some.inj ran
      exact ⟨rfl,resize_length,avail,UInt32.le_refl _⟩
  · have nonzero : b.wpos+len ≠ 0 := by
      intro zero
      rw [zero] at beyond
      exact UInt32.not_lt_zero beyond
    rw [if_neg consumed,reallocate_granted nonzero] at ran
    cases Option.some.inj ran
    exact ⟨rfl,resize_length,rfl,UInt32.le_refl _⟩

theorem makeRoom_granted {result : Int × Buffer} (block : b.buf.length = b.size.toNat)
    (ran : makeRoom b len (some fresh) = some result) :
    result.1 = 0 ∧ result.2.buf.length = result.2.size.toNat ∧ bufferAvail result.2 = bufferAvail b ∧
      result.2.wpos+len ≤ result.2.size := by
  unfold makeRoom at ran
  by_cases beyond : b.size < b.wpos+len
  · rw [if_pos beyond] at ran
    exact extend_granted block beyond ran
  · rw [if_neg beyond] at ran
    cases Option.some.inj ran
    exact ⟨rfl,block,rfl,UInt32.not_lt.mp beyond⟩

theorem copyIn_counts (block : b.buf.length = b.size.toNat) (enough : b.wpos+len ≤ b.size)
    (ran : copyIn b mem len = some (ret,c)) :
    c.buf.length = c.size.toNat ∧ c.wpos ≤ c.size ∧ bufferAvail c = bufferAvail b+len := by
  obtain ⟨_,length,size,rpos,wpos⟩ := copyIn_moves ran
  refine ⟨by rw [length,size]; exact block,by rw [wpos,size]; exact enough,?_⟩
  rw [bufferAvail,bufferAvail,wpos,rpos]
  grind

-- A write that gets its memory adds its length to the unread count, wherever
-- the bytes go.
theorem write_counts (block : b.buf.length = b.size.toNat) (ran : bufferWrite b mem len (some fresh) = some (ret,c)) :
    c.buf.length = c.size.toNat ∧ c.wpos ≤ c.size ∧ bufferAvail c = bufferAvail b+len := by
  obtain ⟨⟨ok,d⟩,made,ran⟩ := Option.bind_eq_some_iff.mp ran
  obtain ⟨zero,length,avail,enough⟩ := makeRoom_granted block made
  have copied : copyIn d mem len = some (ret,c) := by
    dsimp only at ran zero
    rw [if_neg (by rw [zero]; decide)] at ran
    exact ran
  rw [← avail]
  exact copyIn_counts length enough copied

theorem whole_length (block : b.buf.length = b.size.toNat) (room : b.wpos ≤ b.size) (nonempty : unread b ≠ []) :
    (bufferAvail b).toNat = (unread b).length := by
  have inside := UInt32.le_iff_toNat_le.mp room
  have ordered : b.rpos.toNat ≤ b.wpos.toNat := by
    by_contra crossed
    apply nonempty
    rw [unread,Nat.sub_eq_zero_of_le (by omega),slice_zero]
  rw [bufferAvail,difference_exact ordered,unread,slice_length (by omega)]

-- What went to `tmp` is committed twice, so the buffer ends up that much too long.
theorem overflow_counted_twice {fresh' : Nat → UInt8} (block : b.buf.length = b.size.toNat) (beyond : space < cnt)
    (ran : fillCommit b space cnt got (some fresh,some fresh') = some c) :
    c.buf.length = c.size.toNat ∧ c.wpos ≤ c.size ∧ bufferAvail c = bufferAvail b+cnt+(cnt-space) := by
  obtain ⟨⟨_,first⟩,wrote,ran⟩ := Option.bind_eq_some_iff.mp ran
  rw [if_pos beyond] at ran
  obtain ⟨⟨_,second⟩,wrote',rfl⟩ := Option.map_eq_some_iff.mp ran
  obtain ⟨firstBlock,_,firstAvail⟩ := write_counts block wrote
  rw [← firstAvail]
  exact write_counts firstBlock wrote'

theorem overfull_never_appends {fresh' : Nat → UInt8} (valid : Valid stm.buf) (free : stm.lock = 0)
    (appends : Appends stm w supply (some fresh,some fresh')) :
    (arrived stm supply).length ≤ (bufferSpace stm.buf).toNat ∧ (arrived stm supply).length+1 < 2^32 := by
  obtain ⟨out,ran,ok,counted,view⟩ := appends
  obtain ⟨failed,cnt,stm',w',stored,fvalid,_,opened,outcome⟩ := fill_opened (some fresh,some fresh') w supply valid free
  obtain ⟨_,same,_⟩ := storeAtWpos_spec valid stored
  rw [opened,fillAnswered] at ran
  rcases outcome with ⟨good,_,minus,nonzero⟩ | ⟨bad,_⟩
  · rw [if_neg (by rw [good]; decide)] at ran
    obtain ⟨d,committed,rfl⟩ := Option.map_eq_some_iff.mp ran
    have count : cnt.toNat = (arrived stm supply).length := Option.some.inj counted
    have nonempty : arrived stm supply ≠ [] := by
      intro nothing
      rw [nothing] at count
      exact nonzero (UInt32.toNat_inj.mp count)
    have bound := cnt.toNat_lt
    have most : cnt.toNat ≠ 2^32-1 := fun all => minus (UInt32.toNat_inj.mp all)
    refine ⟨?_,by omega⟩
    by_contra long
    have beyond : bufferSpace stm.buf < cnt := UInt32.lt_iff_toNat_lt.mpr (by omega)
    obtain ⟨dblock,droom,davail⟩ := overflow_counted_twice fvalid.block beyond committed
    have joined : unread d = unread stm'.buf ++ arrived stm supply := by
      rw [same]
      exact view
    have whole := whole_length dblock droom (by rw [joined]; simp [nonempty])
    rw [joined,List.length_append,← fvalid.avail_exact,← count] at whole
    have small := (bufferAvail d).toNat_lt
    have exactly : bufferAvail d = bufferAvail stm'.buf+cnt := by
      apply UInt32.toNat_inj.mp
      rw [whole,sum_exact (by omega)]
    have excess : (cnt-bufferSpace stm.buf).toNat = cnt.toNat-(bufferSpace stm.buf).toNat := difference_exact (by omega)
    have nothing_over : cnt-bufferSpace stm.buf = 0 := by
      rw [exactly] at davail
      grind
    rw [nothing_over,UInt32.toNat_zero] at excess
    omega
  · rw [if_pos (by rw [bad]; decide)] at ran
    cases Option.some.inj ran
    cases ok

theorem fitting_appends (grants : Grant × Grant) (w : World) (valid : Valid stm.buf) (free : stm.lock = 0)
    (nonempty : arrived stm supply ≠ []) (fits : (arrived stm supply).length ≤ (bufferSpace stm.buf).toNat)
    (small : (arrived stm supply).length+1 < 2^32) : Appends stm w supply grants := by
  have positive := List.length_pos_iff.mpr nonempty
  obtain ⟨failed,cnt,stm',w',stored,_,_,opened,outcome⟩ := fill_opened grants w supply valid free
  change failed = 0 ∧ cnt = UInt32.ofInt (arrived stm supply).length ∧ _ ∨
    _ ∧ ((arrived stm supply).length = 0 ∨ 2^32 ≤ (arrived stm supply).length+1) at outcome
  rcases outcome with ⟨good,rfl,_⟩ | ⟨_,none_read | long⟩
  · have word : (UInt32.ofInt (arrived stm supply).length).toNat = (arrived stm supply).length := count_word (by omega)
    obtain ⟨_,d,put,wrote,_,view,_⟩ := deliver_spec grants.1 valid (arrived stm supply) word.symm (by omega)
    have inside : ¬ bufferSpace stm.buf < UInt32.ofInt (arrived stm supply).length := by
      rw [UInt32.lt_iff_toNat_lt]
      omega
    rw [show taken (fillCapacity stm.buf) supply = arrived stm supply from rfl,List.take_of_length_le fits] at stored
    cases Option.some.inj (stored.symm.trans put)
    have committed : fillCommit stm'.buf (bufferSpace stm.buf) (UInt32.ofInt (arrived stm supply).length)
        (arrived stm supply) grants = some d := by
      rw [fillCommit,wrote,Option.bind_some,if_neg inside]
    have answered : streamFill stm w supply grants =
        some ⟨0,some (UInt32.ofInt (arrived stm supply).length),streamUnlock {stm' with buf:=d},w',arrived stm supply⟩ := by
      rw [opened,fillAnswered,if_neg (by rw [good]; decide)]
      exact congrArg (Option.map _) committed
    exact ⟨_,answered,rfl,congrArg some word,view⟩
  · omega
  · omega

theorem failing_untouched (grants : Grant × Grant) (w : World) (valid : Valid stm.buf) (free : stm.lock = 0)
    (nothing : arrived stm supply = []) : Untouched stm w supply grants := by
  obtain ⟨failed,cnt,stm',w',stored,_,_,opened,outcome⟩ := fill_opened grants w supply valid free
  rw [show taken (fillCapacity stm.buf) supply = [] from nothing] at stored opened outcome
  rcases outcome with ⟨_,count,_,nonzero⟩ | ⟨bad,_⟩
  · exact absurd count nonzero
  · have answered : streamFill stm w supply grants = some ⟨-1,none,streamUnlock stm',{w' with errno:=stm'.lastErr},[]⟩ := by
      rw [opened,fillAnswered,if_pos (by rw [bad]; decide)]
    exact ⟨_,answered,rfl,(storeAtWpos_spec valid stored).2.1⟩

-- With the memory granted, the burst must stay inside the free space.
theorem fill_appends_iff (fresh fresh' : Nat → UInt8) (w : World) (valid : Valid stm.buf) (free : stm.lock = 0) :
    (arrived stm supply ≠ [] → (Appends stm w supply (some fresh,some fresh') ↔
      (arrived stm supply).length ≤ (bufferSpace stm.buf).toNat ∧ (arrived stm supply).length+1 < 2^32)) ∧
    (arrived stm supply = [] → Untouched stm w supply (some fresh,some fresh')) := by
  refine ⟨?_,failing_untouched _ w valid free⟩
  intro nonempty
  constructor
  · exact overfull_never_appends valid free
  · rintro ⟨fits,small⟩
    exact fitting_appends _ w valid free nonempty fits small

def shifted : Stream := ⟨⟨[9,1,2,0,0],5,1,3⟩,0,0,0⟩

theorem small_burst_appended : unread shifted.buf = [1,2] ∧ Appends shifted ⟨[],0⟩ (.give [3,4]) (some zeroes,some zeroes) ∧
    Untouched shifted ⟨[],0⟩ (.fail 5) (some zeroes,some zeroes) := by
  have valid : Valid shifted.buf := ⟨rfl,by decide,Or.inl (by decide)⟩
  refine ⟨by decide,?_,?_⟩
  · exact ((fill_appends_iff zeroes zeroes ⟨[],0⟩ valid rfl).1 (by decide)).mpr (by decide)
  · exact (fill_appends_iff zeroes zeroes ⟨[],0⟩ valid rfl).2 rfl

-- Three bytes for a free space of two: moving the unread bytes to the front
-- leaves the two stored behind them where they were, and the third is copied
-- over the oldest unread byte.
theorem burst_overwrites : unread shifted.buf = [1,2] ∧
    ∃ out, streamFill shifted ⟨[],0⟩ (.give [3,4,5]) (some zeroes,some zeroes) = some out ∧ out.ret = 0 ∧ out.nread = some 3 ∧
      out.received = [3,4,5] ∧ unread out.stm.buf = [5,2,2,3,4,0] ∧
      ¬ Appends shifted ⟨[],0⟩ (.give [3,4,5]) (some zeroes,some zeroes) := by
  have ran : streamFill shifted ⟨[],0⟩ (.give [3,4,5]) (some zeroes,some zeroes) =
      some ⟨0,some 3,⟨⟨[5,2,2,3,4,0],6,0,6⟩,0,0,0⟩,⟨[],0⟩,[3,4,5]⟩ := rfl
  refine ⟨by decide,_,ran,rfl,rfl,rfl,by decide,?_⟩
  rintro ⟨out,ran',_,_,view⟩
  cases Option.some.inj (ran.symm.trans ran')
  exact absurd view (by decide)

end EventLib.StreamFilling

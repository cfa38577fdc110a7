import EventLib.StreamInput

namespace EventLib.StreamOrder
open ByteBlock ByteBuffer Streams StreamInput

-- End of file or error.
def Ended : Supply → Prop
  | .give bytes => bytes = []
  | .fail _ => True

-- With no bytes missing the count is the length asked for; with some missing,
-- every stretch of answers that suffices for the call shows an end of the source.
def InOrder (stm : Stream) (w : World) (dest : List UInt8) (len : UInt32) (counts : Bool) (turns : List Turn) (out : Handout) : Prop :=
  (out.ret = 0 → out.handed ++ unread out.stm.buf = unread stm.buf ++ out.received ∧
    ∃ n, out.nread = some n ∧ out.handed.length = n.toNat ∧ n.toNat ≤ len.toNat ∧
      (n = len ∨ ∀ used, used <+: turns → streamRead stm w (some dest) len counts used = some out →
        ∃ turn ∈ used, Ended turn.supply)) ∧
  (out.ret ≠ 0 → out.ret = -1 ∧ out.received = [] ∧ unread out.stm.buf = unread stm.buf)

variable {stm : Stream} {w : World} {b : Buffer} {supply : Supply} {capacity : Nat} {dest received : List UInt8} {len ret : UInt32}
  {off : Nat} {turn : Turn} {rest : List Turn}

theorem taken_nothing (positive : 0 < capacity) : taken capacity supply = [] ↔ Ended supply := by
  cases supply with
  | fail errno => exact iff_of_true rfl trivial
  | give bytes =>
    rw [taken,Ended,List.take_eq_nil_iff]
    constructor
    · rintro (zero | empty)
      · omega
      · exact empty
    · exact Or.inr

theorem frontLen_le (b : Buffer) (positive : 0 < len.toNat) : (frontLen b len).toNat ≤ len.toNat := by
  unfold frontLen
  split
  · exact Nat.le_of_eq (congrArg UInt32.toNat (UInt32.sub_zero _))
  · rw [difference_exact (show (1 : UInt32).toNat ≤ len.toNat from positive)]
    exact Nat.sub_le _ _

-- The two places of the scatter read hold what it can bring.
theorem scatter_fits (valid : Valid b) (positive : 0 < len.toNat) (room : off+len.toNat ≤ dest.length) (supply : Supply) :
    (∃ dest', store dest off ((taken (readCapacity b len) supply).take (frontLen b len).toNat) = some dest' ∧
      dest'.length = dest.length) ∧
    ∃ filled, storeAtWpos b ((taken (readCapacity b len) supply).drop (frontLen b len).toNat) = some filled := by
  have front := frontLen_le b positive
  have length : (taken (readCapacity b len) supply).length ≤ (frontLen b len).toNat+(bufferSpace b).toNat := taken_length
  refine ⟨?_,?_⟩
  · have inside : off+((taken (readCapacity b len) supply).take (frontLen b len).toNat).length ≤ dest.length := by
      rw [List.length_take]
      omega
    exact ⟨_,store_some inside,put_length inside⟩
  · have short : ((taken (readCapacity b len) supply).drop (frontLen b len).toNat).length ≤ (bufferSpace b).toNat := by
      rw [List.length_drop]
      omega
    obtain ⟨filled,stored,_⟩ := storeAtWpos_fits valid short
    exact ⟨filled,stored⟩

-- A zero in the variable ends the loop at the first answer, whatever it is.
theorem readLoop_stops (w : World) (received : List UInt8) (valid : Valid stm.buf) (positive : 0 < len.toNat) (room : ret.toNat+len.toNat ≤ dest.length)
    (zero : turn.cnt = 0) :
    ∃ out, readLoop (turn::rest) stm w len ret dest ret.toNat received = some out ∧
      unread out.stm.buf = unread stm.buf ∧ out.received = received ++ taken (readCapacity stm.buf len) turn.supply ∧
      out.handed = dest.take ret.toNat ∧
      (ret ≠ 0 ∧ out.ret = 0 ∧ out.nread = some ret ∨ ret = 0 ∧ out.ret = -1) := by
  obtain ⟨⟨dest',stored,_⟩,filled,kept⟩ := scatter_fits valid positive room turn.supply
  obtain ⟨failed,cnt,stm',w',answer,_⟩ := fdReadv_cases {stm with buf:=filled} w (readCapacity stm.buf len) turn.supply
  have opened : readLoop (turn::rest) stm w len ret dest ret.toNat received =
      if ret ≠ 0 then some (handout stm' w' ret dest' (received++taken (readCapacity stm.buf len) turn.supply))
      else some ⟨-1,none,streamUnlock stm',{w' with errno:=stm'.lastErr},received++taken (readCapacity stm.buf len) turn.supply,[]⟩ := by
    simp only [readLoop,stored,kept,answer,Option.bind_some,zero,or_true,if_true]
  by_cases some_read : ret ≠ 0
  · rw [if_pos some_read] at opened
    obtain ⟨_,_,_,view,handed⟩ := readLoop_ends valid positive (Or.inl zero) opened
    exact ⟨_,opened,view,rfl,handed,Or.inl ⟨some_read,rfl,rfl⟩⟩
  · rw [if_neg some_read] at opened
    obtain ⟨_,_,_,view,handed⟩ := readLoop_ends valid positive (Or.inl zero) opened
    exact ⟨_,opened,view,rfl,handed,Or.inr ⟨Decidable.not_not.mp some_read,rfl⟩⟩

theorem stray_whole (valid : Valid b) (positive : 0 < len.toNat) (room : off+len.toNat ≤ dest.length) :
    ∃ dest', strayBytes b (frontLen b len) len len dest off = some (dest',len) ∧ dest'.length = dest.length := by
  unfold strayBytes
  by_cases spacious : frontLen b len < len
  · have space := valid.space_exact
    have inside := valid.room
    have block := valid.block
    have left : bufferSpace b ≠ 0 := by
      intro full
      rw [frontLen,if_pos full,UInt32.sub_zero] at spacious
      exact UInt32.lt_irrefl _ spacious
    have some_left := word_positive.mpr left
    have byte : load b.buf b.wpos.toNat 1 = some (slice b.buf b.wpos.toNat 1) := load_some (by omega)
    have single : (slice b.buf b.wpos.toNat 1).length = 1 := slice_length (by omega)
    have fits : off+len.toNat-1+(slice b.buf b.wpos.toNat 1).length ≤ dest.length := by omega
    rw [if_pos spacious,byte,Option.bind_some,store_some fits]
    exact ⟨_,rfl,put_length fits⟩
  · rw [if_neg spacious]
    exact ⟨dest,rfl,rfl⟩

-- A failed `readv` with the missing length in the variable passes for all of it.
theorem readLoop_stray (w : World) (received : List UInt8) (valid : Valid stm.buf) (positive : 0 < len.toNat) (room : ret.toNat+len.toNat ≤ dest.length)
    (small : ret.toNat+len.toNat < 2^32) (ended : Ended turn.supply) (stray : turn.cnt = len) :
    ∃ out, readLoop (turn::rest) stm w len ret dest ret.toNat received = some out ∧ out.ret = 0 ∧
      unread out.stm.buf = unread stm.buf ∧ out.received = received ∧ out.handed.length = ret.toNat+len.toNat := by
  have nothing := (taken_nothing (readCapacity_positive stm.buf positive)).mpr ended
  obtain ⟨⟨dest',stored,length⟩,filled,kept⟩ := scatter_fits valid positive room turn.supply
  obtain ⟨failed,cnt,stm',w',answer,buf,_,outcome⟩ := fdReadv_cases {stm with buf:=filled} w (readCapacity stm.buf len) turn.supply
  have same : stm'.buf = stm.buf := by
    rw [nothing,List.drop_nil] at kept
    obtain ⟨block,put,rfl⟩ := Option.map_eq_some_iff.mp kept
    obtain ⟨_,rfl⟩ := store_inversion put
    rw [buf]
    simp [ByteBlock.put]
  have nonzero : ¬ turn.cnt = 0 := by
    rw [stray]
    exact word_positive.mp positive
  have refused : ¬ failed = 0 := by
    rcases outcome with ⟨_,count,_,some_count⟩ | ⟨bad,_⟩
    · rw [nothing] at count
      exact absurd count some_count
    · rw [bad]
      decide
  obtain ⟨dest'',passed,length'⟩ := stray_whole valid positive (room.trans_eq length.symm)
  have opened : readLoop (turn::rest) stm w len ret dest ret.toNat received = some (handout stm' w' (ret+len) dest'' received) := by
    simp only [readLoop,stored,kept,answer,Option.bind_some,if_neg (not_or.mpr ⟨refused,nonzero⟩)]
    simp only [same,stray,passed,nothing,Option.bind_some,UInt32.sub_self,if_true,List.append_nil]
  refine ⟨_,opened,rfl,congrArg unread same,rfl,?_⟩
  show (dest''.take (ret+len).toNat).length = _
  rw [List.length_take,sum_exact small]
  omega

-- What comes before the loop: the buffered bytes, at most as many as asked for.
theorem read_opened (w : World) (counts : Bool) (valid : Valid stm.buf) (free : stm.lock = 0) (positive : 0 < len.toNat)
    (memory : len.toNat ≤ dest.length) :
    ∃ nr b dest', nr.toNat = min len.toNat (unread stm.buf).length ∧ Valid b ∧ unread b = (unread stm.buf).drop len.toNat ∧
      dest'.length = dest.length ∧ dest'.take nr.toNat = (unread stm.buf).take len.toNat ∧
      ∀ turns, streamRead stm w (some dest) len counts turns =
        if len-nr = 0 then some (handout {stm with buf:=b,lock:=1,lastErr:=0} w nr dest' [])
        else readLoop turns {stm with buf:=b,lock:=1,lastErr:=0} w (len-nr) nr dest' nr.toNat [] := by
  obtain ⟨nr,copied,b,did,bvalid,count,left,content,_⟩ := bufferRead_spec true len valid
  rw [if_pos rfl] at content
  have copied_length : copied.length = nr.toNat := by rw [content,List.length_take,count]
  have inside : 0+copied.length ≤ dest.length := by omega
  have nonzero : ¬ len = 0 := word_positive.mp positive
  refine ⟨nr,b,put dest 0 copied,count,bvalid,left,put_length inside,?_,?_⟩
  · rw [← copied_length,← content]
    exact slice_put_here inside
  · intro turns
    have locked : streamLock stm = some {stm with lock:=1} := if_pos free
    simp only [streamRead,if_neg nonzero,locked,Option.bind_some,Option.isSome_some,did,store_some inside]

section calls
variable {counts : Bool} {turns : List Turn} {out : Handout} (valid : Valid stm.buf) (free : stm.lock = 0)
  (positive : 0 < len.toNat) (memory : len.toNat ≤ dest.length)
include valid free positive memory

theorem served_in_order (enough : len.toNat ≤ (unread stm.buf).length)
    (ran : streamRead stm w (some dest) len counts turns = some out) : InOrder stm w dest len counts turns out := by
  obtain ⟨nr,b,dest',count,_,left,_,front,opened⟩ := read_opened w counts valid free positive memory
  have all : nr = len := UInt32.toNat_inj.mp (by omega)
  subst all
  rw [opened turns,if_pos (UInt32.sub_self _)] at ran
  cases Option.some.inj ran
  have handed : (dest'.take nr.toNat).length = nr.toNat := by rw [front,List.length_take]; omega
  refine ⟨?_,fun failed => absurd rfl failed⟩
  intro _
  refine ⟨?_,nr,rfl,handed,Nat.le_refl _,Or.inl rfl⟩
  show dest'.take nr.toNat ++ unread b = unread stm.buf ++ []
  rw [front,left,List.take_append_drop,List.append_nil]

theorem short_opened (w : World) (counts : Bool) (short : (unread stm.buf).length < len.toNat) :
    ∃ nr b dest', nr.toNat = (unread stm.buf).length ∧ Valid b ∧ unread b = [] ∧ dest'.take nr.toNat = unread stm.buf ∧
      0 < (len-nr).toNat ∧ nr.toNat+(len-nr).toNat = len.toNat ∧ nr.toNat+(len-nr).toNat ≤ dest'.length ∧
      ∀ turns, streamRead stm w (some dest) len counts turns =
        readLoop turns {stm with buf:=b,lock:=1,lastErr:=0} w (len-nr) nr dest' nr.toNat [] := by
  obtain ⟨nr,b,dest',count,bvalid,left,length,front,opened⟩ := read_opened w counts valid free positive memory
  have missing : (len-nr).toNat = len.toNat-nr.toNat := difference_exact (by omega)
  have some_missing : ¬ len-nr = 0 := word_positive.mp (by omega)
  refine ⟨nr,b,dest',by omega,bvalid,?_,?_,by omega,by omega,by omega,?_⟩
  · rw [left,List.drop_eq_nil_iff]
    omega
  · rw [front,List.take_of_length_le (by omega)]
  · intro turns
    rw [opened turns,if_neg some_missing]

-- Too few bytes in the buffer and a zero in the variable: what the first `readv`
-- brings is received and handed to nobody.
theorem first_answer_dropped (w : World) (counts : Bool) (rest : List Turn) (short : (unread stm.buf).length < len.toNat)
    (zero : turn.cnt = 0) :
    ∃ out, streamRead stm w (some dest) len counts (turn::rest) = some out ∧ unread out.stm.buf = [] ∧
      out.handed = unread stm.buf ∧ (out.received = [] ↔ Ended turn.supply) ∧
      (unread stm.buf ≠ [] ∧ out.ret = 0 ∧ (∃ n, out.nread = some n ∧ n.toNat = (unread stm.buf).length) ∨
        unread stm.buf = [] ∧ out.ret = -1) := by
  obtain ⟨nr,b,dest',count,bvalid,gone,front,missing,_,room,opened⟩ := short_opened valid free positive memory w counts short
  have readValid : Valid ({stm with buf:=b,lock:=1,lastErr:=0} : Stream).buf := bvalid
  obtain ⟨out,ran,view,received,handed,outcome⟩ := readLoop_stops w [] readValid missing room zero
  refine ⟨out,(opened _).trans ran,view.trans gone,handed.trans front,?_,?_⟩
  · rw [received,List.nil_append]
    exact taken_nothing (readCapacity_positive b missing)
  · rcases outcome with ⟨some_read,ok,counted⟩ | ⟨none_read,failed⟩
    · refine Or.inl ⟨?_,ok,nr,counted,count⟩
      intro empty
      rw [empty] at count
      exact some_read (UInt32.toNat_inj.mp count)
    · rw [none_read] at count
      exact Or.inr ⟨List.length_eq_zero_iff.mp count.symm,failed⟩

theorem stray_length_handed (w : World) (counts : Bool) (rest : List Turn) (short : (unread stm.buf).length < len.toNat)
    (ended : Ended supply) :
    ∃ stray out, streamRead stm w (some dest) len counts (⟨supply,stray⟩::rest) = some out ∧ out.ret = 0 ∧
      unread out.stm.buf = [] ∧ out.received = [] ∧ out.handed.length = len.toNat := by
  obtain ⟨nr,b,dest',_,bvalid,gone,_,missing,total,room,opened⟩ := short_opened valid free positive memory w counts short
  have readValid : Valid ({stm with buf:=b,lock:=1,lastErr:=0} : Stream).buf := bvalid
  have small : nr.toNat+(len-nr).toNat < 2^32 := by
    rw [total]
    exact len.toNat_lt
  have stray : (⟨supply,len-nr⟩ : Turn).cnt = len-nr := rfl
  obtain ⟨out,ran,ok,view,received,handed⟩ := readLoop_stray w [] readValid missing room small ended stray
  exact ⟨len-nr,out,(opened _).trans ran,ok,view.trans gone,received,handed.trans total⟩

-- With a zero in the variable only an answer without bytes does no harm.
theorem zero_stray_in_order_iff (w : World) (counts : Bool) (rest : List Turn) (zero : turn.cnt = 0) :
    (∀ out, streamRead stm w (some dest) len counts (turn::rest) = some out → InOrder stm w dest len counts (turn::rest) out) ↔
      len.toNat ≤ (unread stm.buf).length ∨ Ended turn.supply := by
  by_cases enough : len.toNat ≤ (unread stm.buf).length
  · exact iff_of_true (fun out ran => served_in_order valid free positive memory enough ran) (Or.inl enough)
  · have short : (unread stm.buf).length < len.toNat := by omega
    obtain ⟨out,ran,gone,handed,nothing,outcome⟩ := first_answer_dropped valid free positive memory w counts rest short zero
    constructor
    · intro ordered
      obtain ⟨ok_order,failed_order⟩ := ordered out ran
      refine Or.inr (nothing.mp ?_)
      rcases outcome with ⟨_,ok,_⟩ | ⟨_,failed⟩
      · have joined := (ok_order ok).1
        rw [handed,gone,List.append_nil,List.self_eq_append_right] at joined
        exact joined
      · exact (failed_order (by rw [failed]; decide)).2.1
    · rintro (all | ended) out' ran'
      · exact absurd all enough
      · cases Option.some.inj (ran.symm.trans ran')
        have received := nothing.mpr ended
        refine ⟨?_,?_⟩
        · intro ok
          rcases outcome with ⟨_,_,n,counted,exactly⟩ | ⟨_,failed⟩
          · refine ⟨by rw [handed,gone,received],n,counted,by rw [handed,exactly],by omega,Or.inr ?_⟩
            intro used front again
            cases used with
            | nil =>
              obtain ⟨_,_,_,_,_,_,_,_,_,_,opened⟩ := short_opened valid free positive memory w counts short
              cases (opened []).symm.trans again
            | cons head tail =>
              obtain ⟨rfl,_⟩ := List.cons_prefix_cons.mp front
              exact ⟨head,List.mem_cons_self,ended⟩
          · rw [failed] at ok
            cases ok
        · intro failed
          rcases outcome with ⟨_,ok,_⟩ | ⟨empty,refused⟩
          · exact absurd ok failed
          · exact ⟨refused,received,by rw [gone,empty]⟩

-- `cnt` is never initialised: the order holds for all it may hold exactly when
-- the buffer alone can serve the call.
theorem read_in_order_iff (w : World) (counts : Bool) (supply : Supply) (later : List Supply) :
    ((∀ turns, turns.map Turn.supply = supply::later → ∀ out, streamRead stm w (some dest) len counts turns = some out →
      InOrder stm w dest len counts turns out) ↔ len.toNat ≤ (unread stm.buf).length) ∧
    ∀ rest, ((∀ out, streamRead stm w (some dest) len counts (⟨supply,0⟩::rest) = some out →
      InOrder stm w dest len counts (⟨supply,0⟩::rest) out) ↔ len.toNat ≤ (unread stm.buf).length ∨ Ended supply) := by
  refine ⟨?_,fun rest => zero_stray_in_order_iff valid free positive memory w counts rest rfl⟩
  constructor
  · intro ordered
    by_contra missing
    have short : (unread stm.buf).length < len.toNat := by omega
    have answers : ∀ stray, ((⟨supply,stray⟩::later.map fun supply => ⟨supply,0⟩ : List Turn)).map Turn.supply = supply::later := by
      intro stray
      simp [Function.comp_def]
    by_cases ended : Ended supply
    · obtain ⟨stray,out,ran,ok,gone,received,handed⟩ := stray_length_handed valid free positive memory w counts _ short ended
      have joined := ((ordered _ (answers stray) out ran).1 ok).1
      rw [gone,received,List.append_nil,List.append_nil] at joined
      rw [joined] at handed
      omega
    · have outcome := (zero_stray_in_order_iff valid free positive memory w counts _ rfl).mp (ordered _ (answers 0))
      rcases outcome with enough | closed
      · exact missing enough
      · exact ended closed
  · intro enough turns _ out ran
    exact served_in_order valid free positive memory enough ran

end calls

def buffered : Stream := ⟨⟨[97,98,0,0],4,0,2⟩,0,0,0⟩

theorem buffered_read_in_order : unread buffered.buf = [97,98] ∧
    (∃ out, streamRead buffered ⟨[],0⟩ (some [0,0]) 2 true [⟨.give [99],7⟩] = some out ∧ out.handed = [97,98] ∧
      InOrder buffered ⟨[],0⟩ [0,0] 2 true [⟨.give [99],7⟩] out) ∧
    ∃ out, streamRead buffered ⟨[],0⟩ (some [0,0,0]) 3 true [⟨.fail 5,0⟩] = some out ∧ out.handed = [97,98] ∧
      InOrder buffered ⟨[],0⟩ [0,0,0] 3 true [⟨.fail 5,0⟩] out := by
  have valid : Valid buffered.buf := ⟨rfl,by decide,Or.inl (by decide)⟩
  have two : (2 : UInt32).toNat ≤ ([0,0] : List UInt8).length := by decide
  have three : (3 : UInt32).toNat ≤ ([0,0,0] : List UInt8).length := by decide
  refine ⟨by decide,⟨_,rfl,by decide,?_⟩,_,rfl,by decide,?_⟩
  · exact (read_in_order_iff valid rfl (by decide) two ⟨[],0⟩ true (.give [99]) []).1.mpr (by decide) _ rfl _ rfl
  · exact ((read_in_order_iff valid rfl (by decide) three ⟨[],0⟩ true (.fail 5) []).2 []).mpr (Or.inr trivial) _ rfl

-- The `readv` succeeds: two bytes of the source are stored, one in the caller's
-- memory and one in the buffer, and both are lost with a count of 2 for 3.
-- The second call finds an empty buffer and reports an error for a success.
theorem received_bytes_lost : unread buffered.buf = [97,98] ∧
    (∃ out, streamRead buffered ⟨[],0⟩ (some [0,0,0,0]) 4 true [⟨.give [99,100],0⟩] = some out ∧ out.ret = 0 ∧ out.nread = some 2 ∧
      out.handed = [97,98] ∧ unread out.stm.buf = [] ∧ out.received = [99,100] ∧
      ¬ InOrder buffered ⟨[],0⟩ [0,0,0,0] 4 true [⟨.give [99,100],0⟩] out) ∧
    ∃ out, streamRead ⟨⟨[0,0],2,0,0⟩,0,0,0⟩ ⟨[],0⟩ (some [0,0]) 2 true [⟨.give [99,100],0⟩] = some out ∧ out.ret = -1 ∧
      out.received = [99,100] ∧ ¬ InOrder ⟨⟨[0,0],2,0,0⟩,0,0,0⟩ ⟨[],0⟩ [0,0] 2 true [⟨.give [99,100],0⟩] out := by
  refine ⟨by decide,⟨_,rfl,rfl,rfl,by decide,by decide,rfl,?_⟩,_,rfl,rfl,rfl,?_⟩
  · intro ordered
    exact absurd (ordered.1 rfl).1 (by decide)
  · intro ordered
    cases (ordered.2 (by decide)).2.1

end EventLib.StreamOrder

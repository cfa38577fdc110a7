import EventLib.BufferInvariant
import EventLib.Stream

namespace EventLib.BufferCapacity
open ByteBlock ByteBuffer BufferVprintf BufferInvariant Streams LabelledRuns

variable {b c : Buffer} {len : UInt32} {mem : Option (List UInt8)} {grant : Grant}

section Lengths

def Exact (b : Buffer) (mem : Option (List UInt8)) (len : UInt32) (grant : Grant) : Prop :=
  ∃ ret c, bufferWrite b mem len grant = some (ret,c) ∧
    (ret = len ∧ (unread c).length = (unread b).length+len.toNat ∧ c.wpos ≤ c.size ∧ c.size.toNat = c.buf.length ∨
      ret = 0 ∧ unread c = unread b)

theorem copyIn_exact (bounded : Bounded b) (source : ∀ bytes ∈ mem, bytes.length = len.toNat)
    (enough : b.wpos.toNat+len.toNat ≤ b.size.toNat) :
    ∃ c, copyIn b mem len = some (len,c) ∧ Bounded c ∧ (unread c).length = (unread b).length+len.toNat := by
  have order := bounded.order
  have block := bounded.block
  have bound := b.size.toNat_lt
  obtain ⟨c,ran⟩ := copyIn_returns (b:=b) source (by omega)
  obtain ⟨_,length,size,rpos,wpos⟩ := copyIn_moves ran
  have sum : c.wpos.toNat = b.wpos.toNat+len.toNat := by rw [wpos,sum_exact (by omega)]
  have cbounded : Bounded c := ⟨by rw [length,size,block],by rw [rpos]; omega,by rw [size]; omega⟩
  refine ⟨c,ran,cbounded,?_⟩
  rw [cbounded.unread_length,bounded.unread_length,sum,rpos]
  omega

theorem write_exact (grant : Grant) (bounded : Bounded b) (source : ∀ bytes ∈ mem, bytes.length = len.toNat)
    (fits : b.wpos.toNat+len.toNat < 2^32) : Exact b mem len grant := by
  obtain ⟨ret,c,ran,cbounded,_,same,_,outcome⟩ := makeRoom_spec grant bounded fits
  rcases outcome with ⟨ok,enough⟩ | ⟨failed,_⟩
  · obtain ⟨d,copied,dbounded,count⟩ := copyIn_exact cbounded source enough
    refine ⟨len,d,?_,Or.inl ⟨rfl,by rw [count,same],UInt32.le_iff_toNat_le.mpr dbounded.room,dbounded.block.symm⟩⟩
    simp only [bufferWrite,ran,Option.bind_eq_bind,Option.bind_some]
    rw [if_neg (by rw [ok]; decide)]
    exact copied
  · refine ⟨0,c,?_,Or.inr ⟨rfl,same⟩⟩
    simp only [bufferWrite,ran,Option.bind_eq_bind,Option.bind_some,if_pos failed]

-- A sum that wraps is below `wpos`, so the room test passes and no memory is
-- asked for.
theorem wrapped_write (mem : Option (List UInt8)) (grant : Grant) (room : b.wpos.toNat ≤ b.size.toNat) (wraps : 2^32 ≤ b.wpos.toNat+len.toNat) :
    bufferWrite b mem len grant = copyIn b mem len ∧ (b.wpos+len).toNat = b.wpos.toNat+len.toNat-2^32 := by
  have below := b.wpos.toNat_lt
  have below' := len.toNat_lt
  have sum : (b.wpos+len).toNat = b.wpos.toNat+len.toNat-2^32 := by
    rw [UInt32.toNat_add]
    omega
  have passes : ¬ b.size < b.wpos+len := by
    rw [UInt32.lt_iff_toNat_lt,sum]
    omega
  refine ⟨?_,sum⟩
  rw [bufferWrite,makeRoom,if_neg passes]
  rfl

theorem copyIn_outside {bytes : List UInt8} (exact_len : bytes.length = len.toNat)
    (beyond : b.buf.length < b.rpos.toNat+len.toNat) : copyIn b (some bytes) len = none := by
  rw [copyIn,load_all exact_len,Option.bind_some,store,if_neg (by omega)]
  rfl

theorem write_exact_iff (grant : Grant) (bounded : Bounded b) (source : ∀ bytes ∈ mem, bytes.length = len.toNat) :
    Exact b mem len grant ↔ b.wpos.toNat+len.toNat < 2^32 := by
  constructor
  · rintro ⟨ret,c,ran,outcome⟩
    by_contra long
    have below := b.wpos.toNat_lt
    obtain ⟨copies,sum⟩ := wrapped_write mem grant bounded.room (Nat.le_of_not_lt long)
    rw [copies] at ran
    obtain ⟨whole,_,_,rpos,wpos⟩ := copyIn_moves ran
    rcases outcome with ⟨_,count,_⟩ | ⟨nothing,_⟩
    · have most : (unread c).length ≤ c.wpos.toNat-c.rpos.toNat := List.length_take_le _ _
      rw [wpos,rpos,sum] at most
      rw [bounded.unread_length] at count
      omega
    · rw [← whole,nothing,UInt32.toNat_zero] at long
      omega
  · exact write_exact grant bounded source

def drainedAtEnd : Buffer := ⟨[1,2,3,4],4,4,4⟩

theorem drained_write_exact : Exact drainedAtEnd (some [5,6]) 2 none := by
  have bounded : Bounded drainedAtEnd := ⟨rfl,by decide,by decide⟩
  have source : ∀ bytes ∈ some ([5,6] : List UInt8), bytes.length = (2 : UInt32).toNat := by
    intro bytes same
    cases same
    rfl
  exact (write_exact_iff none bounded source).mpr (by decide)

-- `wpos` 3 becomes 1, below `rpos` 2. With no source the call returns and leaves
-- 4294967295 bytes to read in a block of four; a source is copied past the block.
def nearlyFull : Buffer := ⟨[1,2,3,4],4,2,3⟩

theorem wrapped_length_committed : Bounded nearlyFull ∧
    bufferWrite nearlyFull none 0xFFFFFFFE none = some (0xFFFFFFFE,⟨[1,2,3,4],4,2,1⟩) ∧
    bufferAvail ⟨[1,2,3,4],4,2,1⟩ = 0xFFFFFFFF ∧ unread nearlyFull = [3] ∧ unread ⟨[1,2,3,4],4,2,1⟩ = [] ∧
    ∀ bytes : List UInt8, bytes.length = 0xFFFFFFFE → bufferWrite nearlyFull (some bytes) 0xFFFFFFFE none = none := by
  refine ⟨⟨rfl,by decide,by decide⟩,by decide,by decide,by decide,by decide,?_⟩
  intro bytes exact_len
  rw [(wrapped_write _ none (by decide) (by decide)).1]
  exact copyIn_outside exact_len (by decide)

end Lengths

section Honoured

def capacity (n : UInt32) : UInt32 := if n = 0 then 1 <<< bufSizeP else n

inductive Use where
  | write (mem : Option (List UInt8)) (len : UInt32) (grant : Grant)
  | read (mem : Bool) (len : UInt32)

def Use.call : Use → Call
  | .write mem len grant => .write mem len grant
  | .read mem len => .read mem len

def Use.volume : Use → Nat
  | .write _ len _ => len.toNat
  | .read _ _ => 0

def Use.Sourced : Use → Prop
  | .write mem len _ => ∀ bytes ∈ mem, bytes.length = len.toNat
  | .read _ _ => True

def use (b : Buffer) (u : Use) : Option Buffer := step b u.call

-- The call gets to `buffer_extend`.
def Enters (b : Buffer) : Use → Prop
  | .write _ len _ => b.size < b.wpos+len
  | .read _ _ => False

def Honours (n : UInt32) : Prop := ∀ header block b uses, bufferNew n header block = some b →
  (∀ u ∈ uses, u.Sourced) → (uses.map Use.volume).sum ≤ (capacity n).toNat →
    Along use (fun b u => ¬ Enters b u ∧ bufferLen b = capacity n) b uses ∧
      ∃ last, exec use b uses = some last ∧ bufferLen last = capacity n

-- No answer of `writev` is at hand, so a call that returns has not asked for one.
def give (s : Stream × World) (payload : List UInt8) : Option (Stream × World) :=
  (streamWrite s.1 s.2 payload (UInt32.ofNat payload.length) []).map fun out => (out.stm,out.world)

def Absorbed (s : Stream × World) (payload : List UInt8) : Prop :=
  ∃ out, streamWrite s.1 s.2 payload (UInt32.ofNat payload.length) [] = some out ∧ out.ret = 0 ∧ out.world = s.2

def Absorbs (n : UInt32) : Prop := ∀ header bufHeader block stm w payloads,
  streamNew n header bufHeader block = some stm → (payloads.map List.length).sum < (capacity n).toNat →
    Along give Absorbed (stm,w) payloads ∧ ∃ last, exec give (stm,w) payloads = some (last,w)

theorem read_wpos {mem : Bool} (ran : bufferRead b mem len = some (nread,copied,c)) : c.wpos.toNat ≤ b.wpos.toNat := by
  have shorter : (advance b (readCount b len)).wpos.toNat ≤ b.wpos.toNat := by
    unfold advance
    split
    · exact Nat.zero_le _
    · exact Nat.le_refl _
  unfold bufferRead at ran
  split at ran
  · cases Option.some.inj ran
    exact Nat.le_refl _
  · cases mem with
    | true =>
      obtain ⟨_,_,ran⟩ := Option.bind_eq_some_iff.mp ran
      cases Option.some.inj ran
      exact shorter
    | false =>
      cases Option.some.inj ran
      exact shorter

theorem write_within (grant : Grant) (valid : Valid b) (source : ∀ bytes ∈ mem, bytes.length = len.toNat)
    (enough : b.wpos.toNat+len.toNat ≤ b.size.toNat) :
    ∃ c, bufferWrite b mem len grant = some (len,c) ∧ Valid c ∧ c.size = b.size ∧
      c.wpos.toNat = b.wpos.toNat+len.toNat := by
  have bound := b.size.toNat_lt
  obtain ⟨ret,c,ran,cvalid⟩ := write_stands grant valid source (by omega)
  have copied := ran
  rw [bufferWrite_fits grant mem enough] at copied
  obtain ⟨rfl,_,size,_,wpos⟩ := copyIn_moves copied
  exact ⟨c,ran,cvalid,size,by rw [wpos,sum_exact (by omega)]⟩

theorem use_kept {u : Use} (valid : Valid b) (sourced : u.Sourced) (room : b.wpos.toNat+u.volume ≤ b.size.toNat) :
    ∃ c, use b u = some c ∧ Valid c ∧ c.size = b.size ∧ c.wpos.toNat ≤ b.wpos.toNat+u.volume ∧ ¬ Enters b u := by
  cases u with
  | write mem len grant =>
    have enough : b.wpos.toNat+len.toNat ≤ b.size.toNat := room
    have bound := b.size.toNat_lt
    obtain ⟨c,ran,cvalid,size,wpos⟩ := write_within grant valid sourced enough
    refine ⟨c,?_,cvalid,size,Nat.le_of_eq wpos,?_⟩
    · simp only [use,Use.call,step,ran,Option.map_some]
    · rw [Enters,UInt32.lt_iff_toNat_lt,sum_exact (by omega)]
      omega
  | read mem len =>
    obtain ⟨_,_,c,ran,cvalid,_,_,_,size⟩ := bufferRead_spec mem len valid
    refine ⟨c,?_,cvalid,size,read_wpos ran,id⟩
    simp only [use,Use.call,step,ran,Option.map_some]

-- Induction on the calls: reads never move `wpos` up, so what is still to be
-- written goes behind it.
theorem uses_kept {uses : List Use} (valid : Valid b) (sourced : ∀ u ∈ uses, u.Sourced)
    (room : b.wpos.toNat+(uses.map Use.volume).sum ≤ b.size.toNat) :
    Along use (fun c u => ¬ Enters c u ∧ bufferLen c = b.size) b uses ∧
      ∃ last, exec use b uses = some last ∧ bufferLen last = b.size := by
  induction uses generalizing b with
  | nil => exact ⟨trivial,b,rfl,rfl⟩
  | cons u rest ih =>
    rw [List.forall_mem_cons] at sourced
    rw [List.map_cons,List.sum_cons] at room
    obtain ⟨c,one,cvalid,size,wpos,stays⟩ := use_kept valid sourced.1 (by omega)
    obtain ⟨kept,last,ran,len⟩ := ih cvalid sourced.2 (by rw [size]; omega)
    rw [size] at kept len
    exact ⟨(along_cons one).mpr ⟨⟨stays,rfl⟩,kept⟩,last,exec_cons.mpr ⟨c,one,ran⟩,len⟩

theorem payload_absorbed {stm : Stream} (w : World) {payload : List UInt8} (valid : Valid stm.buf) (free : stm.lock = 0)
    (room : stm.buf.wpos.toNat+payload.length < stm.buf.size.toNat) :
    ∃ b, streamWrite stm w payload (UInt32.ofNat payload.length) [] =
        some ⟨0,some (UInt32.ofNat payload.length),{stm with buf:=b},w,[]⟩ ∧
      Valid b ∧ b.size = stm.buf.size ∧ b.wpos.toNat = stm.buf.wpos.toNat+payload.length := by
  have bound := stm.buf.size.toNat_lt
  have word : (UInt32.ofNat payload.length).toNat = payload.length := length_word (by omega)
  by_cases empty : UInt32.ofNat payload.length = 0
  · have nothing : payload.length = 0 := by rw [← word,empty,UInt32.toNat_zero]
    refine ⟨stm.buf,?_,valid,rfl,by rw [nothing,Nat.add_zero]⟩
    rw [streamWrite,streamWriteBy,if_pos empty,empty]
  · have space := valid.space_exact
    have copies : UInt32.ofNat payload.length < bufferSpace stm.buf := by
      rw [UInt32.lt_iff_toNat_lt,word,space]
      omega
    have source : ∀ bytes ∈ some payload, bytes.length = (UInt32.ofNat payload.length).toNat := by
      intro bytes same
      cases same
      exact word.symm
    obtain ⟨b,ran,bvalid,size,wpos⟩ := write_within none valid source (by omega)
    refine ⟨b,?_,bvalid,size,by rw [wpos,word]⟩
    obtain ⟨buf,need,lock,err⟩ := stm
    subst free
    simp only [streamWrite,streamWriteBy,streamLock,streamWriteRawBy,if_neg empty,if_pos (And.intro empty copies),ran,if_true,
      Option.bind_eq_bind,Option.bind_some,streamUnlock]

theorem payloads_absorbed {stm : Stream} (w : World) {payloads : List (List UInt8)} (valid : Valid stm.buf)
    (free : stm.lock = 0) (room : stm.buf.wpos.toNat+(payloads.map List.length).sum < stm.buf.size.toNat) :
    Along give Absorbed (stm,w) payloads ∧ ∃ last, exec give (stm,w) payloads = some (last,w) := by
  induction payloads generalizing stm with
  | nil => exact ⟨trivial,stm,rfl⟩
  | cons payload rest ih =>
    rw [List.map_cons,List.sum_cons] at room
    have first : stm.buf.wpos.toNat+payload.length < stm.buf.size.toNat := by omega
    obtain ⟨b,ran,bvalid,size,wpos⟩ := payload_absorbed w valid free first
    have one : give (stm,w) payload = some ({stm with buf:=b},w) := by simp only [give,ran,Option.map_some]
    have left : b.wpos.toNat+(rest.map List.length).sum < b.size.toNat := by
      rw [size,wpos]
      omega
    obtain ⟨all,last,final⟩ := @ih {stm with buf:=b} bvalid free left
    exact ⟨(along_cons one).mpr ⟨⟨_,ran,rfl,rfl⟩,all⟩,last,exec_cons.mpr ⟨_,one,final⟩⟩

theorem bufferNew_size {n : UInt32} {header block : Bool} (made : bufferNew n header block = some b) :
    b.size = (if n = 0 then 1 <<< bufSizeP else 0) ∧ b.wpos = 0 := by
  obtain ⟨_,made⟩ := Option.ite_none_right_eq_some.mp made
  obtain ⟨_,made⟩ := Option.ite_none_right_eq_some.mp made
  cases Option.some.inj made
  exact ⟨rfl,rfl⟩

theorem capacity_honoured_iff (n : UInt32) : Honours n ∧ Absorbs n ↔ n = 0 := by
  constructor
  · rintro ⟨honours,_⟩
    by_contra nonzero
    obtain ⟨_,last,ran,len⟩ := honours true true ⟨[],0,0,0⟩ [] (by simp [bufferNew,nonzero])
      (fun u member => absurd member List.not_mem_nil) (Nat.zero_le _)
    cases Option.some.inj ran
    rw [capacity,if_neg nonzero] at len
    exact nonzero len.symm
  · rintro rfl
    constructor
    · intro header block b uses made sourced few
      obtain ⟨size,wpos⟩ := bufferNew_size made
      have same : b.size = capacity 0 := size
      rw [← same] at few ⊢
      exact uses_kept (bufferNew_valid made).1 sourced (by rw [wpos,UInt32.toNat_zero]; omega)
    · intro header bufHeader block stm w payloads made few
      obtain ⟨_,made⟩ := Option.ite_none_right_eq_some.mp made
      obtain ⟨b,buffer,rfl⟩ := Option.map_eq_some_iff.mp made
      obtain ⟨size,wpos⟩ := bufferNew_size buffer
      have same : b.size = capacity 0 := size
      rw [← same] at few
      refine payloads_absorbed w (bufferNew_valid buffer).1 rfl ?_
      show b.wpos.toNat+_ < b.size.toNat
      rw [wpos,UInt32.toNat_zero]
      omega

-- A buffer asked for with four bytes has none: the first byte allocates, and a
-- stream over it hands it to `writev` at once.
def idleWorld : World := ⟨[],0⟩

theorem asked_capacity_ignored : bufferNew 4 true true = some emptyBuffer ∧ capacity 4 = 4 ∧ bufferLen emptyBuffer = 0 ∧
    Enters emptyBuffer (.write (some [97]) 1 (some zeroes)) ∧
    bufferWrite emptyBuffer (some [97]) 1 (some zeroes) = some (1,⟨[97],1,0,1⟩) ∧
    streamNew 4 true true true = some ⟨emptyBuffer,0,0,0⟩ ∧
    streamWrite ⟨emptyBuffer,0,0,0⟩ idleWorld [97] 1 [] = none ∧
    streamWrite ⟨emptyBuffer,0,0,0⟩ idleWorld [97] 1 [.accept 1] = some ⟨0,some 1,⟨emptyBuffer,0,0,0⟩,⟨[97],0⟩,[]⟩ := by
  refine ⟨rfl,rfl,rfl,?_,rfl,rfl,rfl,rfl⟩
  show (0 : UInt32) < 0+1
  decide

end Honoured

section Kept

def Keeps (b : Buffer) (call : Call) : Prop := After step (fun next => bufferLen b ≤ bufferLen next) b call

-- What a direct call of `buffer_extend` has to look out for.
def Widens (b : Buffer) : Call → Prop
  | .extend len grant => 0 < b.rpos.toNat ∨ b.size.toNat ≤ b.wpos.toNat+len.toNat ∨ grant = none
  | _ => True

instance : ∀ call, Decidable (Widens b call)
  | .extend _ _ => inferInstanceAs (Decidable (_ ∨ _ ∨ _))
  | .read _ _ => isTrue trivial
  | .write _ _ _ => isTrue trivial
  | .yield _ => isTrue trivial
  | .vprintf _ => isTrue trivial

theorem makeRoom_size (bounded : Bounded b) (fits : b.wpos.toNat+len.toNat < 2^32)
    (ran : makeRoom b len grant = some (ret,c)) : b.size ≤ c.size := by
  unfold makeRoom at ran
  by_cases beyond : b.size < b.wpos+len
  · have more := UInt32.lt_iff_toNat_lt.mp beyond
    rw [sum_exact fits] at more
    rw [if_pos beyond] at ran
    have room := bounded.room
    exact (extend_size_iff grant bounded (by omega) (by omega) ran).mpr (Or.inr (Or.inl (Nat.le_of_lt more)))
  · rw [if_neg beyond] at ran
    cases Option.some.inj ran
    exact UInt32.le_refl _

theorem write_size (bounded : Bounded b) (fits : b.wpos.toNat+len.toNat < 2^32)
    (ran : bufferWrite b mem len grant = some (ret,c)) : b.size ≤ c.size := by
  obtain ⟨⟨ok,d⟩,made,ran⟩ := Option.bind_eq_some_iff.mp ran
  have larger := makeRoom_size bounded fits made
  dsimp only at ran
  split at ran
  · cases Option.some.inj ran
    exact larger
  · rw [(copyIn_moves ran).2.2.1]
    exact larger

theorem keeps_iff_widens {call : Call} (valid : Valid b) (admits : Admits b call) : Keeps b call ↔ Widens b call := by
  cases call with
  | read mem len =>
    obtain ⟨_,_,c,ran,_,_,_,_,size⟩ := bufferRead_spec mem len valid
    refine iff_of_true ?_ trivial
    intro next did
    rw [step,ran] at did
    cases Option.some.inj did
    exact UInt32.le_of_eq size.symm
  | write mem len grant =>
    refine iff_of_true ?_ trivial
    intro next did
    obtain ⟨⟨ret,c⟩,ran,rfl⟩ := Option.map_eq_some_iff.mp did
    exact write_size valid.bounded admits.2 ran
  | yield delim =>
    obtain ⟨_,c,ran,_,size,_⟩ := bufferYield_spec valid (length_word admits).symm
    refine iff_of_true ?_ trivial
    intro next did
    rw [step,ran] at did
    cases Option.some.inj did
    exact UInt32.le_of_eq size.symm
  | extend len grant =>
    have room : b.wpos.toNat+len.toNat < 2^32 := admits.2
    have short : b.wpos.toNat-b.rpos.toNat+len.toNat < 2^32 := by omega
    obtain ⟨ret,c,ran,_⟩ := bufferExtend_spec grant valid.bounded admits.1 short
    have size := extend_size_iff grant valid.bounded admits.1 short ran
    simp only [Keeps,After,step,ran,Option.map_some,Option.some.injEq,forall_eq']
    exact size
  | vprintf passes =>
    obtain ⟨progress,ran,_,larger⟩ := vprintf_stands valid admits
    refine iff_of_true ?_ trivial
    intro next did
    rw [step,ran] at did
    cases progress with
    | running d => cases did
    | returned ret d =>
      cases Option.some.inj did
      exact larger

theorem capacity_kept_iff_widens {n : UInt32} {header block : Bool} {calls : List Call}
    (made : bufferNew n header block = some b) (admits : Along step Admits b calls) :
    Along step Keeps b calls ↔ Along step Widens b calls := by
  refine along_iff (fun b call valid admits => keeps_iff_widens valid admits) ?_ (bufferNew_valid made).1 admits
  intro b call next valid admits _ ran
  exact (call_stands valid admits).2 next ran

-- The first extension finds bytes consumed and grows, the second asks for what
-- is there, the third is refused.
def wideningCalls : List Call :=
  [.write (some [97,98,99]) 3 (some zeroes),.yield [98],.extend 4 (some zeroes),.extend 4 (some zeroes),.extend 1 none,
    .vprintf [printing [100] one_short],.read true 1,.write none 2 none]

theorem widening_calls_kept : bufferNew 4 true true = some emptyBuffer ∧ Along step Keeps emptyBuffer wideningCalls ∧
    (exec step emptyBuffer wideningCalls).map bufferLen = some 5 := by
  have made : bufferNew 4 true true = some emptyBuffer := rfl
  have admits : Along step Admits emptyBuffer wideningCalls := by decide +kernel
  have widens : Along step Widens emptyBuffer wideningCalls := by decide +kernel
  exact ⟨made,(capacity_kept_iff_widens made admits).mpr widens,by decide +kernel⟩

theorem extension_shrinks : bufferNew 0 true true = some freshBuffer ∧ bufferSpace freshBuffer = 8192 ∧
    Admits freshBuffer (.extend 1 (some zeroes)) ∧ step freshBuffer (.extend 1 (some zeroes)) = some ⟨[0],1,0,0⟩ ∧
    bufferLen ⟨[0],1,0,0⟩ = 1 ∧ bufferLen freshBuffer = 8192 := by
  refine ⟨rfl,rfl,by decide,?_,rfl,rfl⟩
  decide +kernel

end Kept

section Delivered

-- `buffer_extend` with the sizes it asks `alloc` for.
def bufferExtendOn (b : Buffer) (len : UInt32) (grant : Grant) : Option (Int × Buffer × List UInt32) :=
  if 0 < b.rpos then
    (compact b).map fun c =>
      if c.wpos+len ≤ c.size then (0,c,[])
      else ((reallocate c len grant).1,(reallocate c len grant).2,[c.wpos+len])
  else some ((reallocate b len grant).1,(reallocate b len grant).2,[b.wpos+len])

theorem bufferExtendOn_result (b : Buffer) (len : UInt32) (grant : Grant) :
    (bufferExtendOn b len grant).map (fun out => (out.1,out.2.1)) = bufferExtend b len grant := by
  unfold bufferExtendOn bufferExtend
  by_cases consumed : 0 < b.rpos
  · rw [if_pos consumed,if_pos consumed]
    cases compact b with
    | none => rfl
    | some c =>
      by_cases enough : c.wpos+len ≤ c.size
      · simp [enough]
      · simp [enough]
  · rw [if_neg consumed,if_neg consumed]
    rfl

theorem extend_asks_iff {asked : List UInt32} (bounded : Bounded b) (fits : b.wpos.toNat-b.rpos.toNat+len.toNat < 2^32)
    (ran : bufferExtendOn b len grant = some (ret,c,asked)) : asked = [] ↔ Compacts b len := by
  unfold bufferExtendOn at ran
  rw [Compacts]
  by_cases consumed : 0 < b.rpos
  · have start : 0 < b.rpos.toNat := UInt32.lt_iff_toNat_lt.mp consumed
    obtain ⟨d,moved,_,_,_,wpos,size⟩ := compact_spec bounded
    have enough_iff : d.wpos+len ≤ d.size ↔ b.wpos.toNat-b.rpos.toNat+len.toNat ≤ b.size.toNat := by
      rw [UInt32.le_iff_toNat_le,sum_exact (by omega),wpos,size]
    rw [if_pos consumed,moved,Option.map_some] at ran
    rw [← enough_iff]
    by_cases enough : d.wpos+len ≤ d.size
    · rw [if_pos enough] at ran
      cases Option.some.inj ran
      exact ⟨fun _ => ⟨start,enough⟩,fun _ => rfl⟩
    · rw [if_neg enough] at ran
      cases Option.some.inj ran
      exact ⟨fun none_asked => absurd none_asked (List.cons_ne_nil _ _),fun compacts => absurd compacts.2 enough⟩
  · have start : ¬ 0 < b.rpos.toNat := fun positive => consumed (UInt32.lt_iff_toNat_lt.mpr positive)
    rw [if_neg consumed] at ran
    cases Option.some.inj ran
    exact ⟨fun none_asked => absurd none_asked (List.cons_ne_nil _ _),fun compacts => absurd compacts.1 start⟩

theorem extendOn_asks (ran : bufferExtend b len grant = some (ret,c)) : ∃ asked, bufferExtendOn b len grant = some (ret,c,asked) := by
  rw [← bufferExtendOn_result] at ran
  obtain ⟨⟨_,_,asked⟩,asks,result⟩ := Option.map_eq_some_iff.mp ran
  cases result
  exact ⟨asked,asks⟩

theorem extension_delivers (grant : Grant) (valid : Valid b) (positive : 1 ≤ len.toNat) (fits : b.wpos.toNat+len.toNat < 2^32) :
    ∃ ret c asked, bufferExtendOn b len grant = some (ret,c,asked) ∧ (ret = 0 ∨ ret = -1) ∧ (grant ≠ none → ret = 0) ∧
      Valid c ∧ unread c = unread b ∧ (ret = 0 → len ≤ bufferSpace c ∧ c.rpos = 0) ∧ (ret = -1 → bufferLen c = bufferLen b) ∧
      (ret = 0 ∧ asked = [] ↔ 0 < b.rpos.toNat ∧ b.wpos.toNat-b.rpos.toNat+len.toNat ≤ b.size.toNat) := by
  have short : b.wpos.toNat-b.rpos.toNat+len.toNat < 2^32 := by omega
  obtain ⟨ret,c,ran,cvalid,same,front,wpos,outcome⟩ := bufferExtend_spec grant valid.bounded positive short
  obtain ⟨asked,asks⟩ := extendOn_asks ran
  have none_asked := extend_asks_iff valid.bounded short asks
  have space := cvalid.space_exact
  refine ⟨ret,c,asked,asks,?_⟩
  rcases outcome with ⟨compacts,rfl,size⟩ | ⟨tight,rfl,_,size⟩ | ⟨tight,rfl,refused,size⟩
  · have room := compacts.2
    refine ⟨Or.inl rfl,fun _ => rfl,cvalid,same,fun _ => ⟨?_,front⟩,fun _ => size,iff_of_true ⟨rfl,none_asked.mpr compacts⟩ compacts⟩
    rw [UInt32.le_iff_toNat_le,space,size,wpos]
    omega
  · refine ⟨Or.inl rfl,fun _ => rfl,cvalid,same,fun _ => ⟨?_,front⟩,fun failed => absurd failed (by decide),?_⟩
    · rw [UInt32.le_iff_toNat_le,space]
      omega
    · exact iff_of_false (fun quiet => tight (none_asked.mp quiet.2)) tight
  · exact ⟨Or.inr rfl,fun granted => absurd refused granted,cvalid,same,fun ok => absurd ok (by decide),fun _ => size,
      iff_of_false (fun quiet => tight (none_asked.mp quiet.2)) tight⟩

-- One byte read: three more fit the block as it is, four do not and are refused.
def partlyRead : Buffer := ⟨[1,2,3,4,5],5,1,3⟩

theorem partly_read_extends : bufferExtendOn partlyRead 3 none = some (0,⟨[2,3,3,4,5],5,0,2⟩,[]) ∧
    bufferExtendOn partlyRead 4 none = some (-1,⟨[2,3,3,4,5],5,0,2⟩,[6]) ∧
    ∃ ret c asked, bufferExtendOn partlyRead 4 none = some (ret,c,asked) ∧ unread c = [2,3] ∧ bufferLen c = 5 := by
  have valid : Valid partlyRead := ⟨rfl,by decide,by decide⟩
  have refused : bufferExtendOn partlyRead 4 none = some (-1,⟨[2,3,3,4,5],5,0,2⟩,[6]) := by decide
  obtain ⟨ret,c,asked,ran,_,_,_,same,_,kept,_⟩ := extension_delivers none valid (by decide : 1 ≤ (4 : UInt32).toNat) (by decide)
  refine ⟨by decide,refused,ret,c,asked,ran,same,kept ?_⟩
  cases Option.some.inj (ran.symm.trans refused)
  rfl

end Delivered
end EventLib.BufferCapacity

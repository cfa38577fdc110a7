import EventLib.Stream

namespace EventLib.StreamInput
open ByteBlock RecordSplit ByteBuffer Events Streams

def STM_READALL_LEN : Nat := 65535
def SEEK_CUR : Int := 1

-- One `readv` answer: the bytes at hand, none at the end of the file, or an error.
inductive Supply where
  | give (bytes : List UInt8)
  | fail (errno : Int)
deriving DecidableEq

def taken (capacity : Nat) : Supply → List UInt8
  | .give bytes => bytes.take capacity
  | .fail _ => []

def readv (w : World) (capacity : Nat) : Supply → Int × World
  | .give bytes => ((bytes.take capacity).length,w)
  | .fail errno => (-1,{w with errno:=errno})

def fdReadv (stm : Stream) (w : World) (capacity : Nat) (supply : Supply) : Int × UInt32 × Stream × World :=
  report EVMASK_READ stm (readv w capacity supply).2 (UInt32.ofInt (readv w capacity supply).1)

-- `received` is what the call took out of the descriptor.
structure Intake where
  ret : Int
  nread : Option UInt32
  stm : Stream
  world : World
  received : List UInt8
deriving DecidableEq

-- Both writes are asked for in turn: the whole count first, the part that went
-- to `tmp` included, then that part again with its bytes.
def fillCommit (b : Buffer) (space cnt : UInt32) (got : List UInt8) (grants : Grant × Grant) : Option Buffer :=
  (bufferWrite b none cnt grants.1).bind fun first =>
    if space < cnt then (bufferWrite first.2 (some (got.drop space.toNat)) (cnt-space) grants.2).map Prod.snd
    else some first.2

def fillAnswered (space : UInt32) (got : List UInt8) (grants : Grant × Grant) : Int × UInt32 × Stream × World → Option Intake
  | (failed,cnt,stm,w) =>
    if failed ≠ 0 then some ⟨-1,none,streamUnlock stm,{w with errno:=stm.lastErr},got⟩
    else (fillCommit stm.buf space cnt got grants).map fun b => ⟨0,some cnt,streamUnlock {stm with buf:=b},w,got⟩

def fillCapacity (b : Buffer) : Nat := (bufferSpace b).toNat+STM_READALL_LEN

-- The kernel fills the free space behind `wpos` first and `tmp` with the rest.
def streamFill (stm : Stream) (w : World) (supply : Supply) (grants : Grant × Grant) : Option Intake :=
  (streamLock stm).bind fun stm =>
  (storeAtWpos stm.buf ((taken (fillCapacity stm.buf) supply).take (bufferSpace stm.buf).toNat)).bind fun filled =>
    fillAnswered (bufferSpace stm.buf) (taken (fillCapacity stm.buf) supply) grants
      (fdReadv {stm with buf:=filled} w (fillCapacity stm.buf) supply)

-- One turn of the loop in `stream_read`: the answer, and what the variable
-- `cnt`, which nothing initialises, holds when the answer is an error.
structure Turn where
  supply : Supply
  cnt : UInt32
deriving DecidableEq

-- `handed` is the part of the caller's memory that the call reports as read.
structure Handout where
  ret : Int
  nread : Option UInt32
  stm : Stream
  world : World
  received : List UInt8
  handed : List UInt8
deriving DecidableEq

def handout (stm : Stream) (w : World) (ret : UInt32) (dest received : List UInt8) : Handout :=
  ⟨0,some ret,streamUnlock stm,w,received,dest.take ret.toNat⟩

-- A stray count larger than the request sets the last byte asked for from the
-- buffer's free space and counts as the whole request.
def strayBytes (b : Buffer) (front cnt len : UInt32) (dest : List UInt8) (off : Nat) : Option (List UInt8 × UInt32) :=
  if front < cnt then
    ((load b.buf b.wpos.toNat 1).bind (store dest (off+len.toNat-1))).map fun dest => (dest,len)
  else some (dest,cnt)

def frontLen (b : Buffer) (len : UInt32) : UInt32 := len-(if bufferSpace b = 0 then 0 else 1)

def readCapacity (b : Buffer) (len : UInt32) : Nat := (frontLen b len).toNat+(bufferSpace b).toNat

-- The test is `!readv(..) || cnt == 0`, so a successful `readv` ends the loop as
-- the end of the file does, and a failed one with a stray `cnt` counts as data.
def readLoop : List Turn → Stream → World → UInt32 → UInt32 → List UInt8 → Nat → List UInt8 → Option Handout
  | [],_,_,_,_,_,_,_ => none
  | turn::rest,stm,w,len,ret,dest,off,received =>
    let front := frontLen stm.buf len
    let got := taken (readCapacity stm.buf len) turn.supply
    (store dest off (got.take front.toNat)).bind fun dest =>
    (storeAtWpos stm.buf (got.drop front.toNat)).bind fun filled =>
    match fdReadv {stm with buf:=filled} w (readCapacity stm.buf len) turn.supply with
    | (failed,_,stm,w) =>
      if failed = 0 ∨ turn.cnt = 0 then
        if ret ≠ 0 then some (handout stm w ret dest (received++got))
        else some ⟨-1,none,streamUnlock stm,{w with errno:=stm.lastErr},received++got,[]⟩
      else (strayBytes stm.buf front turn.cnt len dest off).bind fun stray =>
        if len-stray.2 = 0 then some (handout stm w (ret+stray.2) stray.1 (received++got))
        else readLoop rest stm w (len-stray.2) (ret+stray.2) stray.1 (off+stray.2.toNat) (received++got)

-- `counts` tells whether `nread` is a pointer; a length of 0 stores through it
-- unasked. With `buf` NULL the bytes are dropped, and too few of them return -1
-- past the unlocking.
def streamRead (stm : Stream) (w : World) (mem : Option (List UInt8)) (len : UInt32) (counts : Bool) (turns : List Turn) :
    Option Handout :=
  if len = 0 then if counts then some ⟨0,some 0,stm,w,[],[]⟩ else none else
  (streamLock stm).bind fun stm =>
  (bufferRead stm.buf mem.isSome len).bind fun buffered =>
    let stm := {stm with buf:=buffered.2.2,lastErr:=0}
    match mem with
    | none =>
      if len-buffered.1 = 0 then some (handout stm w buffered.1 [] []) else some ⟨-1,none,stm,w,[],[]⟩
    | some dest =>
      (store dest 0 buffered.2.1).bind fun dest =>
        if len-buffered.1 = 0 then some (handout stm w buffered.1 dest [])
        else readLoop turns stm w (len-buffered.1) buffered.1 dest buffered.1.toNat []

def streamYield (stm : Stream) (delim : List UInt8) (delimLen : UInt32) : Option (Option (UInt32 × UInt32) × Stream) :=
  (bufferYield stm.buf delim delimLen).map fun yielded => (yielded.1,{stm with buf:=yielded.2})

def fdClose (stm : Stream) (w : World) : Option Int → Int × Stream × World
  | none => (0,stm,w)
  | some errno => (-1,{stm with lastErr:=errno},{w with errno:=errno})

def streamClose (stm : Stream) (w : World) (script : List Answer) (close : Option Int) : Option Outcome :=
  (streamFlush stm w script).map fun out : Outcome =>
    if out.ret ≠ 0 then {out with ret:=-1} else
    match fdClose out.stm out.world close with
    | (failed,stm,w) => {out with ret:=(if failed ≠ 0 then -1 else 0),stm:=stm,world:=w}

def fdSeek (stm : Stream) (w : World) (delta : Int32) (whence : Int) (lseek : Int → Int → Except Int Int) :
    Int × Option UInt32 × Stream × World :=
  match lseek delta.toInt whence with
  | .error errno => (-1,none,{stm with lastErr:=errno},{w with errno:=errno})
  | .ok off => (0,some (UInt32.ofInt off),stm,w)

-- Both tests are negated against the convention that 0 is success: a flush
-- that works ends the call with -1, and so does a seek that works.
def streamSeek (stm : Stream) (w : World) (script : List Answer) (delta : Int32) (whence : Int)
    (lseek : Int → Int → Except Int Int) : Option (Int × Option UInt32 × Stream × World) :=
  (streamFlush stm w script).bind fun flushed =>
    if flushed.ret = 0 then some (-1,none,flushed.stm,flushed.world) else
    (streamLock flushed.stm).map fun stm =>
      let delta := if whence = SEEK_CUR then delta-(bufferAvail stm.buf).toInt32 else delta
      match fdSeek {stm with lastErr:=0} flushed.world delta whence lseek with
      | (failed,newpos,stm,w) =>
        if failed = 0 then (-1,newpos,streamUnlock stm,{w with errno:=stm.lastErr}) else (0,newpos,streamUnlock stm,w)

variable {stm : Stream} {w : World} {capacity : Nat} {supply : Supply}

theorem readv_delivered : (readv w capacity supply).2.delivered = w.delivered := by
  cases supply <;> rfl

theorem taken_length : (taken capacity supply).length ≤ capacity := by
  cases supply with
  | give bytes => exact List.length_take_le _ _
  | fail errno => exact Nat.zero_le _

theorem readv_fails (bad : UInt32.ofInt (readv w capacity supply).1 = -1 ∨ UInt32.ofInt (readv w capacity supply).1 = 0) :
    (taken capacity supply).length = 0 ∨ 2^32 ≤ (taken capacity supply).length+1 := by
  cases supply with
  | fail errno => exact Or.inl rfl
  | give bytes =>
    by_cases small : (bytes.take capacity).length < 2^32
    · have word : (UInt32.ofInt (readv w capacity (.give bytes)).1).toNat = (bytes.take capacity).length := count_word small
      rcases bad with minus | zero
      · rw [minus] at word
        exact Or.inr (by show 2^32 ≤ (bytes.take capacity).length+1; rw [← word]; decide)
      · rw [zero] at word
        exact Or.inl word.symm
    · exact Or.inr (by show 2^32 ≤ (bytes.take capacity).length+1; omega)

-- Either way the stream keeps its buffer and nothing is delivered.
theorem fdReadv_cases (stm : Stream) (w : World) (capacity : Nat) (supply : Supply) :
    ∃ failed cnt stm' w', fdReadv stm w capacity supply = (failed,cnt,stm',w') ∧ stm'.buf = stm.buf ∧ w'.delivered = w.delivered ∧
      (failed = 0 ∧ cnt = UInt32.ofInt (taken capacity supply).length ∧ cnt ≠ -1 ∧ cnt ≠ 0 ∨
        failed = -1 ∧ ((taken capacity supply).length = 0 ∨ 2^32 ≤ (taken capacity supply).length+1)) := by
  rcases report_cases EVMASK_READ stm (readv w capacity supply).2 (UInt32.ofInt (readv w capacity supply).1) with
    ⟨minus,zero,ok⟩ | ⟨bad,stm',failed,buf,_⟩
  · refine ⟨_,_,_,_,ok,rfl,readv_delivered,Or.inl ⟨rfl,?_,minus,zero⟩⟩
    cases supply with
    | give bytes => rfl
    | fail errno => exact absurd rfl minus
  · exact ⟨_,_,_,_,failed,buf,readv_delivered,Or.inr ⟨rfl,readv_fails bad⟩⟩

theorem fill_inversion {grants : Grant × Grant} {out : Intake} (ran : streamFill stm w supply grants = some out) :
    ∃ filled failed cnt stm' w',
      storeAtWpos stm.buf ((taken (fillCapacity stm.buf) supply).take (bufferSpace stm.buf).toNat) = some filled ∧
      stm'.buf = filled ∧ w'.delivered = w.delivered ∧
      fillAnswered (bufferSpace stm.buf) (taken (fillCapacity stm.buf) supply) grants (failed,cnt,stm',w') = some out ∧
      (failed = 0 ∧ cnt = UInt32.ofInt (taken (fillCapacity stm.buf) supply).length ∧ cnt ≠ -1 ∧ cnt ≠ 0 ∨
        failed = -1 ∧ ((taken (fillCapacity stm.buf) supply).length = 0 ∨ 2^32 ≤ (taken (fillCapacity stm.buf) supply).length+1)) := by
  obtain ⟨locked,lock,ran⟩ := Option.bind_eq_some_iff.mp ran
  obtain ⟨_,rfl⟩ := lock_taken lock
  obtain ⟨filled,stored,ran⟩ := Option.bind_eq_some_iff.mp ran
  obtain ⟨failed,cnt,stm',w',answer,buf,delivered,outcome⟩ :=
    fdReadv_cases {stm with buf:=filled,lock:=1} w (fillCapacity stm.buf) supply
  refine ⟨filled,failed,cnt,stm',w',stored,buf,delivered,?_,outcome⟩
  rw [← answer]
  exact ran

theorem fill_received {grants : Grant × Grant} {out : Intake} (ran : streamFill stm w supply grants = some out) :
    out.received = taken (fillCapacity stm.buf) supply := by
  obtain ⟨_,failed,cnt,stm',w',_,_,_,answered,_⟩ := fill_inversion ran
  rw [fillAnswered] at answered
  split at answered
  · cases Option.some.inj answered
    rfl
  · obtain ⟨b,_,rfl⟩ := Option.map_eq_some_iff.mp answered
    rfl

theorem fill_answered {grants : Grant × Grant} {out : Intake} (some_bytes : 0 < (taken (fillCapacity stm.buf) supply).length)
    (small : fillCapacity stm.buf+1 < 2^32) (ran : streamFill stm w supply grants = some out) : out.ret = 0 := by
  have length : (taken (fillCapacity stm.buf) supply).length ≤ fillCapacity stm.buf := taken_length
  obtain ⟨_,failed,cnt,stm',w',_,_,_,answered,outcome⟩ := fill_inversion ran
  rcases outcome with ⟨rfl,_⟩ | ⟨_,empty | long⟩
  · rw [fillAnswered,if_neg (by decide)] at answered
    obtain ⟨b,_,rfl⟩ := Option.map_eq_some_iff.mp answered
    rfl
  · omega
  · omega

-- A fill that stays inside the free space appends what it received.
theorem fill_spec {grants : Grant × Grant} {out : Intake} (valid : Valid stm.buf)
    (fits : (taken (fillCapacity stm.buf) supply).length ≤ (bufferSpace stm.buf).toNat)
    (ran : streamFill stm w supply grants = some out) :
    Valid out.stm.buf ∧ out.stm.buf.size = stm.buf.size ∧ out.world.delivered = w.delivered ∧
      (out.ret = 0 ∧ unread out.stm.buf = unread stm.buf ++ out.received ∨
        out.ret = -1 ∧ unread out.stm.buf = unread stm.buf) := by
  have bound := (bufferSpace stm.buf).toNat_lt
  obtain ⟨filled,failed,cnt,stm',w',stored,buf,delivered,answered,outcome⟩ := fill_inversion ran
  rw [List.take_of_length_le fits] at stored
  rw [fillAnswered] at answered
  rcases outcome with ⟨ok,count,_⟩ | ⟨bad,_⟩
  · have word : cnt.toNat = (taken (fillCapacity stm.buf) supply).length := by
      rw [count]
      exact count_word (by omega)
    have inside : ¬ bufferSpace stm.buf < cnt := by
      rw [UInt32.lt_iff_toNat_lt]
      omega
    obtain ⟨c,d,put,wrote,dvalid,view,size⟩ := deliver_spec grants.1 valid _ word.symm (by omega)
    cases Option.some.inj (stored.symm.trans put)
    rw [if_neg (by rw [ok]; decide),fillCommit,buf,wrote,Option.bind_some,if_neg inside] at answered
    cases Option.some.inj answered
    exact ⟨dvalid,size,delivered,Or.inl ⟨rfl,view⟩⟩
  · obtain ⟨fvalid,view,size⟩ := storeAtWpos_spec valid stored
    rw [if_pos (by rw [bad]; decide)] at answered
    cases Option.some.inj answered
    subst buf
    exact ⟨fvalid,size,delivered,Or.inr ⟨rfl,view⟩⟩

-- Up to the answer of `readv` a free stream gets in any case: the store fits.
theorem fill_opened (grants : Grant × Grant) (w : World) (supply : Supply) (valid : Valid stm.buf) (free : stm.lock = 0) :
    ∃ failed cnt stm' w',
      storeAtWpos stm.buf ((taken (fillCapacity stm.buf) supply).take (bufferSpace stm.buf).toNat) = some stm'.buf ∧
      Valid stm'.buf ∧ stm'.buf.wpos = stm.buf.wpos ∧
      streamFill stm w supply grants =
        fillAnswered (bufferSpace stm.buf) (taken (fillCapacity stm.buf) supply) grants (failed,cnt,stm',w') ∧
      (failed = 0 ∧ cnt = UInt32.ofInt (taken (fillCapacity stm.buf) supply).length ∧ cnt ≠ -1 ∧ cnt ≠ 0 ∨
        failed = -1 ∧ ((taken (fillCapacity stm.buf) supply).length = 0 ∨ 2^32 ≤ (taken (fillCapacity stm.buf) supply).length+1)) := by
  obtain ⟨filled,stored,fvalid,wpos⟩ := storeAtWpos_fits valid
    (List.length_take_le (bufferSpace stm.buf).toNat (taken (fillCapacity stm.buf) supply))
  obtain ⟨failed,cnt,stm',w',answer,buf,_,outcome⟩ :=
    fdReadv_cases {stm with buf:=filled,lock:=1} w (fillCapacity stm.buf) supply
  have kept : stm'.buf = filled := buf
  refine ⟨failed,cnt,stm',w',by rw [kept]; exact stored,by rw [kept]; exact fvalid,by rw [kept]; exact wpos,?_,outcome⟩
  rw [← answer,streamFill,streamLock,if_pos free]
  exact congrArg (Option.bind · _) stored

-- A fill of a sound stream returns, whatever the kernel and the allocator answer.
theorem fill_total (grants : Grant × Grant) (w : World) (supply : Supply) (valid : Valid stm.buf) (free : stm.lock = 0)
    (room : stm.buf.size.toNat+2*STM_READALL_LEN < 2^32) : ∃ out, streamFill stm w supply grants = some out := by
  have space := valid.space_exact
  have inside := valid.room
  have length : (taken (fillCapacity stm.buf) supply).length ≤ (bufferSpace stm.buf).toNat+STM_READALL_LEN := taken_length
  obtain ⟨failed,cnt,stm',w',_,fvalid,wpos,opened,outcome⟩ := fill_opened grants w supply valid free
  rw [opened,fillAnswered]
  rcases outcome with ⟨rfl,count,_⟩ | ⟨rfl,_⟩
  · have word : cnt.toNat = (taken (fillCapacity stm.buf) supply).length := by
      rw [count]
      exact count_word (by omega)
    obtain ⟨ret,b,wrote,bvalid,bound⟩ := bufferWrite_commits cnt grants.1 fvalid (by rw [wpos]; omega)
    rw [wpos] at bound
    simp only [ne_eq,not_true_eq_false,if_false,fillCommit,wrote,Option.bind_some]
    split
    · rename_i beyond
      have more := UInt32.lt_iff_toNat_lt.mp beyond
      have rest : (cnt-bufferSpace stm.buf).toNat = cnt.toNat-(bufferSpace stm.buf).toNat := difference_exact (by omega)
      have exact_len : ((taken (fillCapacity stm.buf) supply).drop (bufferSpace stm.buf).toNat).length =
          (cnt-bufferSpace stm.buf).toNat := by
        rw [List.length_drop]
        omega
      obtain ⟨ret',c,wrote',_⟩ := bufferWrite_spec grants.2 bvalid (by omega) _ exact_len
      simp [wrote']
    · simp
  · simp

def Answers : Supply → Prop
  | .give bytes => bytes ≠ [] ∧ bytes.length+1 < 2^32
  | .fail _ => False

instance : DecidablePred Answers
  | .give _ => inferInstanceAs (Decidable (_ ∧ _))
  | .fail _ => isFalse id

-- The turn ends the loop: `readv` succeeds, or the stray count is 0.
def Ends (turn : Turn) : Prop := turn.cnt = 0 ∨ Answers turn.supply

instance : DecidablePred Ends := fun turn => inferInstanceAs (Decidable (turn.cnt = 0 ∨ Answers turn.supply))

theorem answers_report {stm' : Stream} {w' : World} (answers : Answers supply) (positive : 0 < capacity)
    (answer : fdReadv stm w capacity supply = (failed,cnt,stm',w')) : failed = 0 := by
  obtain ⟨_,_,_,_,same,_,_,outcome⟩ := fdReadv_cases stm w capacity supply
  cases answer.symm.trans same
  cases supply with
  | fail errno => exact answers.elim
  | give bytes =>
    have some_length : bytes.length ≠ 0 := fun zero => answers.1 (List.length_eq_zero_iff.mp zero)
    have small := answers.2
    simp only [taken,List.length_take] at outcome
    rcases outcome with ⟨ok,_⟩ | ⟨_,short | long⟩
    · exact ok
    · omega
    · omega

theorem readCapacity_positive (b : Buffer) {len : UInt32} (positive : 0 < len.toNat) : 0 < readCapacity b len := by
  unfold readCapacity frontLen
  by_cases full : bufferSpace b = 0
  · rw [if_pos full,UInt32.sub_zero]
    omega
  · have space : 0 < (bufferSpace b).toNat := word_positive.mpr full
    omega

-- What a call that ends the loop leaves: the buffer as it was, and for the
-- caller only what came out of the buffer before.
theorem readLoop_ends {turn : Turn} {rest : List Turn} {out : Handout} (valid : Valid stm.buf) (positive : 0 < len.toNat)
    (ends : Ends turn) (ran : readLoop (turn::rest) stm w len ret dest ret.toNat received = some out) :
    Valid out.stm.buf ∧ out.stm.buf.size = stm.buf.size ∧ out.world.delivered = w.delivered ∧
      unread out.stm.buf = unread stm.buf ∧ out.handed = dest.take ret.toNat := by
  obtain ⟨dest',stored,ran⟩ := Option.bind_eq_some_iff.mp ran
  obtain ⟨filled,kept,ran⟩ := Option.bind_eq_some_iff.mp ran
  obtain ⟨inside,rfl⟩ := store_inversion stored
  obtain ⟨fvalid,view,size⟩ := storeAtWpos_spec valid kept
  obtain ⟨failed,cnt,stm',w',answer,buf,delivered,_⟩ :=
    fdReadv_cases {stm with buf:=filled} w (readCapacity stm.buf len) turn.supply
  have stops : failed = 0 ∨ turn.cnt = 0 := by
    rcases ends with zero | answers
    · exact Or.inr zero
    · exact Or.inl (answers_report answers (readCapacity_positive stm.buf positive) answer)
  rw [answer] at ran
  dsimp only at ran
  rw [if_pos stops] at ran
  subst buf
  by_cases some_read : ret ≠ 0
  · rw [if_pos some_read] at ran
    cases Option.some.inj ran
    refine ⟨fvalid,size,delivered,view,?_⟩
    exact slice_put_before (show 0+ret.toNat ≤ ret.toNat by omega) inside
  · rw [if_neg some_read] at ran
    cases Option.some.inj ran
    refine ⟨fvalid,size,delivered,view,?_⟩
    rw [Decidable.not_not.mp some_read]
    rfl

theorem read_spec {mem : Option (List UInt8)} {out : Handout} (valid : Valid stm.buf)
    (ready : mem = none ∨ len.toNat ≤ (unread stm.buf).length ∨ ∀ turn ∈ turns.head?, Ends turn)
    (ran : streamRead stm w mem len counts turns = some out) :
    Valid out.stm.buf ∧ out.stm.buf.size = stm.buf.size ∧ out.world.delivered = w.delivered ∧
      unread out.stm.buf = (unread stm.buf).drop len.toNat ∧
      out.handed = if mem.isSome then (unread stm.buf).take len.toNat else [] := by
  unfold streamRead at ran
  by_cases nothing : len = 0
  · rw [if_pos nothing] at ran
    obtain ⟨_,same⟩ := Option.ite_none_right_eq_some.mp ran
    cases Option.some.inj same
    subst nothing
    exact ⟨valid,rfl,rfl,rfl,by split <;> rfl⟩
  · rw [if_neg nothing] at ran
    obtain ⟨locked,lock,ran⟩ := Option.bind_eq_some_iff.mp ran
    obtain ⟨_,rfl⟩ := lock_taken lock
    obtain ⟨nr,copied,b,did,bvalid,count,left,content,size⟩ := bufferRead_spec mem.isSome len valid
    rw [show bufferRead ({stm with lock:=1} : Stream).buf mem.isSome len = _ from did] at ran
    dsimp only [Option.bind_some] at ran
    have missing : (len-nr).toNat = len.toNat-nr.toNat := difference_exact (by omega)
    cases mem with
    | none =>
      dsimp only at ran
      split at ran
      · cases Option.some.inj ran
        exact ⟨bvalid,size,rfl,left,List.take_nil⟩
      · cases Option.some.inj ran
        exact ⟨bvalid,size,rfl,left,rfl⟩
    | some dest =>
      obtain ⟨dest',stored,ran⟩ := Option.bind_eq_some_iff.mp ran
      obtain ⟨inside,rfl⟩ := store_inversion stored
      rw [Option.isSome_some,if_pos rfl] at content
      have copied_length : copied.length = nr.toNat := by rw [content,List.length_take,count]
      have front : (put dest 0 copied).take nr.toNat = (unread stm.buf).take len.toNat := by
        rw [← copied_length,← content]
        exact slice_put_here inside
      by_cases served : len-nr = 0
      · rw [if_pos served] at ran
        cases Option.some.inj ran
        exact ⟨bvalid,size,rfl,left,front⟩
      · rw [if_neg served] at ran
        have positive : 0 < (len-nr).toNat := word_positive.mpr served
        cases turns with
        | nil => cases ran
        | cons turn rest =>
          have ends : Ends turn := by
            rcases ready with discards | enough | ends
            · cases discards
            · omega
            · exact ends turn rfl
          have readValid : Valid ({stm with buf:=b,lock:=1,lastErr:=0} : Stream).buf := bvalid
          obtain ⟨ovalid,osize,delivered,view,handed⟩ := readLoop_ends readValid positive ends ran
          exact ⟨ovalid,osize.trans size,delivered,view.trans left,handed.trans front⟩

theorem yield_spec {delim : List UInt8} {got : Option (UInt32 × UInt32)} {after : Stream} (valid : Valid stm.buf)
    (short : delim.length < 2^32) (ran : streamYield stm delim (UInt32.ofNat delim.length) = some (got,after)) :
    Valid after.buf ∧ after.buf.size = stm.buf.size ∧
      (got = none ∧ unread after.buf = unread stm.buf ∨
        ∃ start off, firstMatch delim (unread stm.buf) ≠ none ∧ got = some (start,off) ∧
          load after.buf.buf start.toNat off.toNat = some ((unread stm.buf).take off.toNat) ∧
          unread after.buf = (unread stm.buf).drop off.toNat) := by
  obtain ⟨found,b,yielded,bvalid,size,outcome⟩ := bufferYield_spec valid (length_word short).symm
  obtain ⟨_,same,pair⟩ := Option.map_eq_some_iff.mp ran
  cases Option.some.inj (yielded.symm.trans same)
  cases pair
  refine ⟨bvalid,size,?_⟩
  rcases outcome with ⟨_,nothing,rfl⟩ | ⟨i,start,off,match_at,something,_,bytes,left⟩
  · exact Or.inl ⟨nothing,rfl⟩
  · exact Or.inr ⟨start,off,by rw [match_at]; simp,something,bytes,left⟩

theorem close_spec {script : List Answer} {out : Outcome} (valid : Valid stm.buf) (small : stm.buf.size.toNat+1 < 2^32)
    (ran : streamClose stm w script close = some out) : Valid out.stm.buf ∧ out.stm.buf.size = stm.buf.size ∧
      ∃ k, out.world.delivered = w.delivered ++ (unread stm.buf).take k ∧ unread out.stm.buf = (unread stm.buf).drop k := by
  obtain ⟨flushed,did,rfl⟩ := Option.map_eq_some_iff.mp ran
  have spec := flush_spec valid small did
  split
  · exact spec
  · cases close <;> exact spec

-- A stream opened with the default buffer size.

end EventLib.StreamInput

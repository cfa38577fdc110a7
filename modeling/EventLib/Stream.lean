import EventLib.Errno
import EventLib.Buffer
import EventLib.Event

namespace EventLib.Streams
open ByteBlock ByteBuffer Events Errnos

-- The descriptor and the flags select nothing here: every function below goes
-- through `stream_funcs_fd` on the one descriptor the world stands for.
structure Stream where
  buf : Buffer
  needMask : UInt32
  lock : Int
  lastErr : Int
deriving DecidableEq

structure World where
  delivered : List UInt8
  errno : Int
deriving DecidableEq

-- One `writev` answer of the kernel: at most that many of the offered bytes, or an error.
inductive Answer where
  | accept (count : Nat)
  | fail (errno : Int)
deriving DecidableEq

structure Outcome where
  ret : Int
  nwrote : Option UInt32
  stm : Stream
  world : World
  rest : List Answer
deriving DecidableEq

def streamNew (bufsize : UInt32) (header bufHeader block : Bool) : Option Stream :=
  if header then (bufferNew bufsize bufHeader block).map fun b => ⟨b,0,0,0⟩ else none

-- `mtx_lock` spins on a taken lock: the call has no result then.
def streamLock (stm : Stream) : Option Stream := if stm.lock = 0 then some {stm with lock:=1} else none
def streamUnlock (stm : Stream) : Stream := {stm with lock:=0}

def writev (w : World) (iov : List (List UInt8)) : Answer → Int × World
  | .accept count =>
    let sent := iov.flatten.take count
    (sent.length,{w with delivered:=w.delivered++sent})
  | .fail errno => (-1,{w with errno:=errno})

-- `int ret = writev(..)` keeps the low 32 bits of the count; `ret` is that bit
-- pattern, so a count of 2^32-1 reads as -1.
def report (mask : UInt32) (stm : Stream) (w : World) (ret : UInt32) : Int × UInt32 × Stream × World :=
  if ret = -1 then
    let need := if w.errno = EAGAIN then stm.needMask ||| mask else stm.needMask
    (-1,0,{stm with lastErr:=w.errno,needMask:=need},w)
  else if ret = 0 then (-1,0,{stm with lastErr:=0},w)
  else (0,ret,stm,w)

-- The bytes an answer would take of an unlimited offer.
def count : Answer → Nat
  | .accept n => n
  | .fail _ => 0

def fdWritev (stm : Stream) (w : World) (iov : List (List UInt8)) (answer : Answer) : Int × UInt32 × Stream × World :=
  report EVMASK_WRITE stm (writev w iov answer).2 (UInt32.ofInt (writev w iov answer).1)

-- The edit of buffer and iovec array after a short write of `ret` bytes.
def shift (stm : Stream) (ravail ret : UInt32) : List (List UInt8) → Option (Stream × List (List UInt8))
  | [] => none
  | head::more =>
    if head.length < ret.toNat then do
      let (_,_,b) ← bufferRead stm.buf false ravail
      match more with
      | [] => none
      | head'::more' => some ({stm with buf:=b},head'.drop (ret-UInt32.ofNat head.length).toNat::more')
    else if more.length = 1 then do
      let (_,_,b) ← bufferRead stm.buf false ret
      some ({stm with buf:=b},head.drop ret.toNat::more)
    else some (stm,head.drop ret.toNat::more)

-- An entry `writev` of the function table: its return value, the count it
-- stores, the stream and the world after it.
abbrev Writev := Stream → World → List (List UInt8) → Answer → Int × UInt32 × Stream × World

-- Running out of answers is a `writev` that has not returned yet.
def writeLoopBy (writev : Writev) (ravail len : UInt32) :
    List Answer → Stream → World → UInt32 → List (List UInt8) → Option Outcome
  | [],_,_,_,_ => none
  | answer::rest,stm,w,towrite,iov =>
    match writev stm w iov answer with
    | (failed,ret,stm,w) =>
      if failed ≠ 0 then some ⟨-1,none,stm,{w with errno:=stm.lastErr},rest⟩
      else if ret = towrite then do
        let (_,_,b) ← bufferRead stm.buf false ravail
        some ⟨0,some len,{stm with buf:=b},w,rest⟩
      else do
        let (stm,iov) ← shift stm ravail ret iov
        writeLoopBy writev ravail len rest stm w (towrite-ret) iov

-- `_stream_write`, which calls `stm->funcs->writev`. The copying path fits the
-- free space, so it never allocates.
def streamWriteRawBy (writev : Writev) (stm : Stream) (w : World) (buf : List UInt8) (len : UInt32) (script : List Answer) :
    Option Outcome :=
  if len ≠ 0 ∧ len < bufferSpace stm.buf then do
    let (_,b) ← bufferWrite stm.buf (some buf) len none
    some ⟨0,some len,{stm with buf:=b},w,script⟩
  else do
    let ravail := bufferAvail stm.buf
    let head ← load stm.buf.buf stm.buf.rpos.toNat ravail.toNat
    let payload ← load buf 0 len.toNat
    writeLoopBy writev ravail len script stm w (UInt32.ofNat (head.length+payload.length)) [head,payload]

def streamWriteBy (writev : Writev) (stm : Stream) (w : World) (buf : List UInt8) (len : UInt32) (script : List Answer) :
    Option Outcome :=
  if len = 0 then some ⟨0,some 0,stm,w,script⟩ else do
    let stm ← streamLock stm
    let out ← streamWriteRawBy writev stm w buf len script
    some {out with stm:=streamUnlock out.stm}

def streamFlushBy (writev : Writev) (stm : Stream) (w : World) (script : List Answer) : Option Outcome := do
  let stm ← streamLock stm
  if bufferAvail stm.buf = 0 then some ⟨0,none,streamUnlock stm,w,script⟩ else
  let out ← streamWriteRawBy writev stm w [] 0 script
  if bufferAvail out.stm.buf = 0 then some ⟨0,none,streamUnlock out.stm,out.world,out.rest⟩
  else some ⟨-1,none,streamUnlock out.stm,{out.world with errno:=out.stm.lastErr},out.rest⟩

-- A stream on a descriptor has `fd_writev` in its table.
def writeLoop := writeLoopBy fdWritev
def streamWriteRaw := streamWriteRawBy fdWritev
def streamWrite := streamWriteBy fdWritev
def streamFlush := streamFlushBy fdWritev

-- What `stream_new` makes for a non-zero buffer size and for 0.
def bareStream : Stream := ⟨emptyBuffer,0,0,0⟩
def freshStream : Stream := ⟨freshBuffer,0,0,0⟩

variable {stm : Stream} {w : World} {iov : List (List UInt8)} {ravail towrite ret len : UInt32} {payload : List UInt8}

theorem word_nonzero (short : payload.length < 2^32) : UInt32.ofNat payload.length ≠ 0 ↔ payload ≠ [] := by
  rw [← word_positive,length_word short]
  exact List.length_pos_iff

theorem copied_iff {b : Buffer} (short : payload.length < 2^32) :
    UInt32.ofNat payload.length ≠ 0 ∧ UInt32.ofNat payload.length < bufferSpace b ↔
      payload ≠ [] ∧ payload.length < (bufferSpace b).toNat := by
  rw [word_nonzero short,UInt32.lt_iff_toNat_lt,length_word short]

theorem report_cases (mask : UInt32) (stm : Stream) (w : World) (ret : UInt32) :
    ret ≠ -1 ∧ ret ≠ 0 ∧ report mask stm w ret = (0,ret,stm,w) ∨
    (ret = -1 ∨ ret = 0) ∧ ∃ stm', report mask stm w ret = (-1,0,stm',w) ∧ stm'.buf = stm.buf ∧ stm'.lock = stm.lock := by
  unfold report
  by_cases minus : ret = -1
  · rw [if_pos minus]
    exact Or.inr ⟨Or.inl minus,_,rfl,rfl,rfl⟩
  · rw [if_neg minus]
    by_cases zero : ret = 0
    · rw [if_pos zero]
      exact Or.inr ⟨Or.inr zero,_,rfl,rfl,rfl⟩
    · rw [if_neg zero]
      exact Or.inl ⟨minus,zero,rfl⟩

theorem writev_takes (w : World) (iov : List (List UInt8)) (answer : Answer) :
    (writev w iov answer).2.delivered = w.delivered ++ iov.flatten.take (count answer) := by
  cases answer with
  | accept n => rfl
  | fail errno => exact (List.append_nil _).symm

-- What one call of `fd_writev` takes and what it reports of it: the low 32 bits,
-- of which 0 and 2^32-1 are failures.
theorem fdWritev_takes (stm : Stream) (w : World) (iov : List (List UInt8)) (answer : Answer) :
    (∃ ret w', fdWritev stm w iov answer = (0,ret,stm,w') ∧ ret.toNat = min (count answer) iov.flatten.length % 2^32 ∧
      ret.toNat ≠ 0 ∧ ret.toNat ≠ 2^32-1 ∧ w'.delivered = w.delivered ++ iov.flatten.take (count answer)) ∨
    ∃ stm' w', fdWritev stm w iov answer = (-1,0,stm',w') ∧ stm'.buf = stm.buf ∧ stm'.lock = stm.lock ∧
      (min (count answer) iov.flatten.length % 2^32 = 0 ∨ min (count answer) iov.flatten.length % 2^32 = 2^32-1) ∧
      w'.delivered = w.delivered ++ iov.flatten.take (count answer) := by
  have delivered := writev_takes w iov answer
  cases answer with
  | fail errno => exact Or.inr ⟨_,_,rfl,rfl,rfl,Or.inl (by simp [count]),delivered⟩
  | accept n =>
    have word : (UInt32.ofInt (iov.flatten.take n).length).toNat = min n iov.flatten.length % 2^32 := by
      rw [low_word,List.length_take]
    rcases report_cases EVMASK_WRITE stm {w with delivered:=w.delivered++iov.flatten.take n}
      (UInt32.ofInt (iov.flatten.take n).length) with ⟨minus,zero,ok⟩ | ⟨bad,stm',failed,buf,lock⟩
    · refine Or.inl ⟨_,_,ok,word,?_,?_,delivered⟩
      · exact fun same => zero (UInt32.toNat_inj.mp same)
      · exact fun same => minus (UInt32.toNat_inj.mp same)
    · refine Or.inr ⟨stm',_,failed,buf,lock,?_,delivered⟩
      show min n iov.flatten.length % 2^32 = 0 ∨ min n iov.flatten.length % 2^32 = 2^32-1
      rw [← word]
      rcases bad with minus | zero
      · exact Or.inr (congrArg UInt32.toNat minus)
      · exact Or.inl (congrArg UInt32.toNat zero)

-- When the offer fits 32 bits, the count is reported as it is.
theorem fdWritev_spec (stm : Stream) (w : World) (answer : Answer) (small : iov.flatten.length < 2^32) :
    (∃ ret w', fdWritev stm w iov answer = (0,ret,stm,w') ∧ 0 < ret.toNat ∧ ret.toNat = min (count answer) iov.flatten.length ∧
      w'.delivered = w.delivered ++ iov.flatten.take ret.toNat) ∨
    ∃ stm' w', fdWritev stm w iov answer = (-1,0,stm',w') ∧ stm'.buf = stm.buf ∧ stm'.lock = stm.lock ∧
      (min (count answer) iov.flatten.length+1 < 2^32 →
        min (count answer) iov.flatten.length = 0 ∧ w'.delivered = w.delivered) := by
  rcases fdWritev_takes stm w iov answer with ⟨ret,w',wrote,word,nonzero,_,sent⟩ | ⟨stm',w',failed,buf,lock,word,sent⟩
  · rw [Nat.mod_eq_of_lt (by omega)] at word
    refine Or.inl ⟨ret,w',wrote,by omega,word,?_⟩
    rw [sent,word,← List.take_eq_take_min]
  · refine Or.inr ⟨stm',w',failed,buf,lock,?_⟩
    intro counted
    have nothing : min (count answer) iov.flatten.length = 0 := by omega
    refine ⟨nothing,?_⟩
    rw [sent,List.take_eq_take_min,nothing,List.take_zero,List.append_nil]

-- The first iovec is the unread part of the buffer until it has gone out whole.
structure Laid (stm : Stream) (ravail : UInt32) (iov : List (List UInt8)) (payload : List UInt8) : Prop where
  valid : Valid stm.buf
  layout : iov = [unread stm.buf,payload] ∨ iov = [payload] ∧ unread stm.buf = []
  covers : (unread stm.buf).length ≤ ravail.toNat

structure Aligned (stm : Stream) (ravail towrite : UInt32) (iov : List (List UInt8)) (payload : List UInt8) : Prop
    extends Laid stm ravail iov payload where
  remaining : towrite.toNat = (unread stm.buf).length+payload.length

theorem Laid.flatten (laid : Laid stm ravail iov payload) : iov.flatten = unread stm.buf ++ payload := by
  rcases laid.layout with rfl | ⟨rfl,empty⟩
  · simp
  · simp [empty]

theorem drop_exact {total part : UInt32} (small : part.toNat < total.toNat) : (total-part).toNat = total.toNat-part.toNat :=
  difference_exact (Nat.le_of_lt small)

theorem shift_moves (laid : Laid stm ravail iov payload) (within : ret.toNat ≤ (unread stm.buf).length+payload.length) :
    ∃ b iov', shift stm ravail ret iov = some ({stm with buf:=b},iov') ∧ b.size = stm.buf.size ∧
      unread b = (unread stm.buf).drop ret.toNat ∧
      Laid {stm with buf:=b} ravail iov' (payload.drop (ret.toNat-(unread stm.buf).length)) := by
  obtain ⟨valid,layout,covers⟩ := laid
  have bound := ret.toNat_lt
  rcases layout with rfl | ⟨rfl,empty⟩
  · by_cases crossing : (unread stm.buf).length < ret.toNat
    · obtain ⟨_,_,b,did,bvalid,_,rest,_,size⟩ := bufferRead_spec false ravail valid
      have gone : unread b = [] := by rw [rest,List.drop_eq_nil_iff]; exact covers
      have past : (ret-UInt32.ofNat (unread stm.buf).length).toNat = ret.toNat-(unread stm.buf).length := by
        have word : (UInt32.ofNat (unread stm.buf).length).toNat = (unread stm.buf).length :=
          UInt32.toNat_ofNat_of_lt' (by rw [UInt32.size]; omega)
        rw [difference_exact (by omega),word]
      refine ⟨b,[payload.drop (ret.toNat-(unread stm.buf).length)],?_,size,?_,⟨bvalid,Or.inr ⟨rfl,gone⟩,by simp [gone]⟩⟩
      · simp only [shift,if_pos crossing,did,past,Option.bind_eq_bind,Option.bind_some]
      · rw [gone,eq_comm,List.drop_eq_nil_iff]
        omega
    · obtain ⟨_,_,b,did,bvalid,_,rest,_,size⟩ := bufferRead_spec false ret valid
      have whole : payload.drop (ret.toNat-(unread stm.buf).length) = payload := by
        rw [Nat.sub_eq_zero_of_le (by omega),List.drop_zero]
      rw [whole]
      refine ⟨b,[(unread stm.buf).drop ret.toNat,payload],?_,size,rest,⟨bvalid,Or.inl (by rw [rest]),?_⟩⟩
      · simp only [shift,if_neg crossing,did,List.length_singleton,if_true,Option.bind_eq_bind,Option.bind_some]
      · simp only [rest,List.length_drop]
        omega
  · rw [empty,List.length_nil,Nat.zero_add] at within
    refine ⟨stm.buf,[payload.drop ret.toNat],?_,rfl,by simp [empty],⟨valid,Or.inr ⟨by simp [empty],empty⟩,covers⟩⟩
    simp [shift,if_neg (Nat.not_lt.mpr within)]

theorem shift_spec (aligned : Aligned stm ravail towrite iov payload) (short : ret.toNat < towrite.toNat) :
    ∃ b iov', shift stm ravail ret iov = some ({stm with buf:=b},iov') ∧ b.size = stm.buf.size ∧
      unread b = (unread stm.buf).drop ret.toNat ∧
      Aligned {stm with buf:=b} ravail (towrite-ret) iov' (payload.drop (ret.toNat-(unread stm.buf).length)) := by
  have remaining := aligned.remaining
  have within : ret.toNat ≤ (unread stm.buf).length+payload.length := by omega
  obtain ⟨b,iov',shifted,size,buffer,laid⟩ := shift_moves aligned.toLaid within
  refine ⟨b,iov',shifted,size,buffer,⟨laid,?_⟩⟩
  rw [buffer,List.length_drop,List.length_drop,drop_exact short]
  omega

-- A call either delivers buffer and payload whole, or stops after some prefix
-- with exactly the undelivered buffer bytes still unread.
def Conserved (before : Stream) (w : World) (payload : List UInt8) (len : UInt32) (out : Outcome) : Prop :=
  out.ret = 0 ∧ out.nwrote = some len ∧ out.world.delivered = w.delivered ++ (unread before.buf ++ payload) ∧
    unread out.stm.buf = [] ∨
  out.ret = -1 ∧ out.nwrote = none ∧ ((unread before.buf).length+payload.length+1 < 2^32 →
    ∃ k, out.world.delivered = w.delivered ++ (unread before.buf ++ payload).take k ∧
      unread out.stm.buf = (unread before.buf).drop k)

theorem Conserved.after_prefix {middle : Stream} {w' : World} {out : Outcome}
    (buffer : unread middle.buf = (unread stm.buf).drop ret.toNat)
    (sent : w'.delivered = w.delivered ++ (unread stm.buf ++ payload).take ret.toNat)
    (rest : Conserved middle w' (payload.drop (ret.toNat-(unread stm.buf).length)) len out) :
    Conserved stm w payload len out := by
  have split : unread middle.buf ++ payload.drop (ret.toNat-(unread stm.buf).length) =
      (unread stm.buf ++ payload).drop ret.toNat := by rw [buffer,List.drop_append]
  rcases rest with ⟨ok,count,all,empty⟩ | ⟨failed,count,tail⟩
  · refine Or.inl ⟨ok,count,?_,empty⟩
    rw [all,sent,split,List.append_assoc,List.take_append_drop]
  · refine Or.inr ⟨failed,count,?_⟩
    intro room
    have shorter : (unread middle.buf).length+(payload.drop (ret.toNat-(unread stm.buf).length)).length+1 < 2^32 := by
      rw [buffer,List.length_drop,List.length_drop]
      omega
    obtain ⟨k,delivered,left⟩ := tail shorter
    refine ⟨ret.toNat+k,?_,?_⟩
    · rw [delivered,sent,split,List.append_assoc,List.take_add]
    · rw [left,buffer,List.drop_drop]

-- Short of a count that reads as -1, both ends of a call look alike.
theorem Conserved.cut {out : Outcome} (conserved : Conserved stm w payload len out)
    (room : (unread stm.buf).length+payload.length+1 < 2^32) :
    ∃ k, out.world.delivered = w.delivered ++ (unread stm.buf ++ payload).take k ∧
      unread out.stm.buf = (unread stm.buf).drop k := by
  rcases conserved with ⟨_,_,all,gone⟩ | ⟨_,_,partly⟩
  · refine ⟨(unread stm.buf ++ payload).length,by rw [List.take_length]; exact all,?_⟩
    rw [gone,eq_comm,List.drop_eq_nil_iff,List.length_append]
    omega
  · exact partly room

theorem writeLoop_spec {script : List Answer} {out : Outcome} (aligned : Aligned stm ravail towrite iov payload)
    (ran : writeLoop ravail len script stm w towrite iov = some out) :
    Valid out.stm.buf ∧ out.stm.buf.size = stm.buf.size ∧ out.stm.lock = stm.lock ∧ Conserved stm w payload len out := by
  induction script generalizing stm w towrite iov payload with
  | nil => cases ran
  | cons answer rest ih =>
    have flat := aligned.flatten
    have remaining := aligned.remaining
    have total : iov.flatten.length = towrite.toNat := by rw [flat,List.length_append,remaining]
    have small : iov.flatten.length < 2^32 := by rw [total]; exact towrite.toNat_lt
    rcases fdWritev_spec stm w answer small with ⟨ret,w',wrote,positive,took,sent⟩ | ⟨stm',w',failed,buf,lock,quiet⟩
    · simp only [writeLoop,writeLoopBy,wrote,ne_eq,not_true_eq_false,if_false] at ran
      rw [flat] at sent
      by_cases last : ret = towrite
      · obtain ⟨_,_,b,did,bvalid,_,left,_,size⟩ := bufferRead_spec false ravail aligned.valid
        rw [if_pos last] at ran
        simp only [did,Option.bind_eq_bind,Option.bind_some,Option.some.injEq] at ran
        subst ran
        refine ⟨bvalid,size,rfl,Or.inl ⟨rfl,rfl,?_,?_⟩⟩
        · show w'.delivered = _
          rw [sent,last,List.take_of_length_le]
          rw [List.length_append,aligned.remaining]
        · show unread b = []
          rw [left,List.drop_eq_nil_iff]
          exact aligned.covers
      · have short : ret.toNat < towrite.toNat := by
          have different : ret.toNat ≠ towrite.toNat := fun same => last (UInt32.toNat_inj.mp same)
          omega
        obtain ⟨b,iov',shifted,size,buffer,next⟩ := shift_spec aligned short
        rw [if_neg last] at ran
        simp only [shifted,Option.bind_eq_bind,Option.bind_some] at ran
        obtain ⟨ovalid,osize,olock,conserved⟩ := ih next ran
        exact ⟨ovalid,osize.trans size,olock,conserved.after_prefix buffer sent⟩
    · simp only [writeLoop,writeLoopBy,failed] at ran
      rw [if_pos (by decide)] at ran
      cases Option.some.inj ran
      refine ⟨by rw [buf]; exact aligned.valid,by rw [buf],lock,Or.inr ⟨rfl,rfl,?_⟩⟩
      intro room
      refine ⟨0,?_,by rw [buf,List.drop_zero]⟩
      show w'.delivered = _
      rw [(quiet (by omega)).2,List.take_zero,List.append_nil]

theorem rawBy_loop (writev : Writev) (w : World) (script : List Answer) (valid : Valid stm.buf)
    (direct : ¬ (len ≠ 0 ∧ len < bufferSpace stm.buf)) (exact_len : payload.length = len.toNat) :
    streamWriteRawBy writev stm w payload len script = writeLoopBy writev (bufferAvail stm.buf) len script stm w
      (UInt32.ofNat ((unread stm.buf).length+payload.length)) [unread stm.buf,payload] := by
  rw [streamWriteRawBy,if_neg direct]
  simp only [valid.load_unread,load_all exact_len,Option.bind_eq_bind,Option.bind_some]

theorem Laid.start (valid : Valid stm.buf) (payload : List UInt8) :
    Laid stm (bufferAvail stm.buf) [unread stm.buf,payload] payload :=
  ⟨valid,Or.inl rfl,by rw [valid.avail_exact]⟩

theorem raw_direct {script : List Answer} {out : Outcome} (valid : Valid stm.buf)
    (direct : ¬ (len ≠ 0 ∧ len < bufferSpace stm.buf)) (exact_len : payload.length = len.toNat)
    (room : (unread stm.buf).length+len.toNat < 2^32) (ran : streamWriteRaw stm w payload len script = some out) :
    Valid out.stm.buf ∧ out.stm.buf.size = stm.buf.size ∧ out.stm.lock = stm.lock ∧ Conserved stm w payload len out := by
  rw [streamWriteRaw,rawBy_loop fdWritev w script valid direct exact_len] at ran
  refine writeLoop_spec ⟨Laid.start valid payload,?_⟩ ran
  exact UInt32.toNat_ofNat_of_lt' (by rw [UInt32.size]; omega)

theorem lock_taken {locked : Stream} (taken : streamLock stm = some locked) : stm.lock = 0 ∧ locked = {stm with lock:=1} := by
  obtain ⟨free,same⟩ := Option.ite_none_right_eq_some.mp taken
  exact ⟨free,(Option.some.inj same).symm⟩

theorem writeBy_locked (writev : Writev) (w : World) (script : List Answer) (free : stm.lock = 0) (nonzero : len ≠ 0) :
    streamWriteBy writev stm w payload len script =
      (streamWriteRawBy writev {stm with lock:=1} w payload len script).map fun out => {out with stm:=streamUnlock out.stm} := by
  have locked : streamLock stm = some {stm with lock:=1} := if_pos free
  simp only [streamWriteBy,if_neg nonzero,locked,Option.bind_eq_bind,Option.bind_some,Option.map_eq_bind]
  rfl

-- An empty payload returns before the lock; every other write runs
-- `_stream_write` under it and gives it back.
theorem write_inversion {script : List Answer} {out : Outcome} (short : payload.length < 2^32)
    (ran : streamWrite stm w payload (UInt32.ofNat payload.length) script = some out) :
    payload = [] ∧ out = ⟨0,some 0,stm,w,script⟩ ∨
    payload ≠ [] ∧ stm.lock = 0 ∧ ∃ inner, out = {inner with stm:=streamUnlock inner.stm} ∧
      streamWriteRaw {stm with lock:=1} w payload (UInt32.ofNat payload.length) script = some inner := by
  unfold streamWrite streamWriteBy at ran
  by_cases empty : payload = []
  · subst empty
    cases Option.some.inj ran
    exact Or.inl ⟨rfl,rfl⟩
  · rw [if_neg ((word_nonzero short).mpr empty)] at ran
    obtain ⟨locked,lock,ran⟩ := Option.bind_eq_some_iff.mp ran
    obtain ⟨free,rfl⟩ := lock_taken lock
    obtain ⟨inner,raw,ran⟩ := Option.bind_eq_some_iff.mp ran
    exact Or.inr ⟨empty,free,inner,(Option.some.inj ran).symm,raw⟩

theorem streamNew_valid {bufsize : UInt32} {header bufHeader block : Bool}
    (made : streamNew bufsize header bufHeader block = some stm) :
    Valid stm.buf ∧ unread stm.buf = [] ∧ stm.buf.size.toNat ≤ 2^13 ∧ stm.lock = 0 := by
  obtain ⟨_,made⟩ := Option.ite_none_right_eq_some.mp made
  obtain ⟨b,buffer,rfl⟩ := Option.map_eq_some_iff.mp made
  obtain ⟨valid,empty,small⟩ := bufferNew_valid buffer
  exact ⟨valid,empty,small,rfl⟩

-- An empty buffer returns at once; otherwise what `_stream_write` left decides,
-- not what it returned.
theorem flush_inversion {writev : Writev} {out : Outcome} (ran : streamFlushBy writev stm w script = some out) :
    bufferAvail stm.buf = 0 ∧ out = ⟨0,none,streamUnlock stm,w,script⟩ ∨
    bufferAvail stm.buf ≠ 0 ∧ ∃ inner, streamWriteRawBy writev {stm with lock:=1} w [] 0 script = some inner ∧
      out.stm = streamUnlock inner.stm ∧ out.world.delivered = inner.world.delivered ∧ out.rest = inner.rest ∧
      (bufferAvail inner.stm.buf = 0 ∧ out.ret = 0 ∨ bufferAvail inner.stm.buf ≠ 0 ∧ out.ret = -1) := by
  obtain ⟨locked,taken,ran⟩ := Option.bind_eq_some_iff.mp ran
  obtain ⟨_,rfl⟩ := lock_taken taken
  by_cases empty : bufferAvail ({stm with lock:=1} : Stream).buf = 0
  · rw [if_pos empty] at ran
    exact Or.inl ⟨empty,(Option.some.inj ran).symm⟩
  · rw [if_neg empty] at ran
    obtain ⟨inner,raw,ran⟩ := Option.bind_eq_some_iff.mp ran
    refine Or.inr ⟨empty,inner,raw,?_⟩
    by_cases drained : bufferAvail inner.stm.buf = 0
    · rw [if_pos drained] at ran
      cases Option.some.inj ran
      exact ⟨rfl,rfl,rfl,Or.inl ⟨drained,rfl⟩⟩
    · rw [if_neg drained] at ran
      cases Option.some.inj ran
      exact ⟨rfl,rfl,rfl,Or.inr ⟨drained,rfl⟩⟩

theorem flush_frees {out : Outcome} (ran : streamFlush stm w script = some out) : out.stm.lock = 0 := by
  rcases flush_inversion ran with ⟨_,rfl⟩ | ⟨_,inner,_,same,_⟩
  · rfl
  · rw [same]
    rfl

theorem flush_spec {script : List Answer} {out : Outcome} (valid : Valid stm.buf) (small : stm.buf.size.toNat+1 < 2^32)
    (ran : streamFlush stm w script = some out) : Valid out.stm.buf ∧ out.stm.buf.size = stm.buf.size ∧
      ∃ k, out.world.delivered = w.delivered ++ (unread stm.buf).take k ∧ unread out.stm.buf = (unread stm.buf).drop k := by
  have length := valid.unread_length
  have inside := valid.room
  rcases flush_inversion ran with ⟨_,rfl⟩ | ⟨_,inner,raw,same,delivered,_⟩
  · exact ⟨valid,rfl,0,by simp,rfl⟩
  · have lockedValid : Valid ({stm with lock:=1} : Stream).buf := valid
    obtain ⟨ovalid,osize,_,conserved⟩ := raw_direct lockedValid (fun copies => copies.1 rfl) rfl
      (show (unread stm.buf).length+0 < 2^32 by omega) raw
    have sent := conserved.cut (show (unread stm.buf).length+0+1 < 2^32 by omega)
    rw [List.append_nil] at sent
    rw [same,delivered]
    exact ⟨ovalid,osize,sent⟩

theorem raw_copy (writev : Writev) (script : List Answer) (valid : Valid stm.buf) (copies : len ≠ 0 ∧ len < bufferSpace stm.buf)
    (exact_len : payload.length = len.toNat) :
    ∃ b tail, streamWriteRawBy writev stm w payload len script = some ⟨0,some len,{stm with buf:=b},w,script⟩ ∧ Valid b ∧
      b.size = stm.buf.size ∧ tail.length = len.toNat ∧ unread b = payload ++ (unread stm.buf++tail).drop len.toNat := by
  have space := valid.space_exact
  have less := UInt32.lt_iff_toNat_lt.mp copies.2
  have enough : stm.buf.wpos.toNat+len.toNat ≤ stm.buf.size.toNat := by omega
  obtain ⟨b,tail,copied,bvalid,size,length,view⟩ := copyIn_spec valid enough payload exact_len
  refine ⟨b,tail,?_,bvalid,size,length,view⟩
  rw [streamWriteRawBy,if_pos copies,bufferWrite_fits none _ enough,copied]
  rfl

-- A copied payload lands at the read position, over what was there.
theorem write_spec {script : List Answer} {out : Outcome} (valid : Valid stm.buf) (short : payload.length < 2^32)
    (room : ¬ (UInt32.ofNat payload.length ≠ 0 ∧ UInt32.ofNat payload.length < bufferSpace stm.buf) →
      (unread stm.buf).length+payload.length+1 < 2^32)
    (ran : streamWrite stm w payload (UInt32.ofNat payload.length) script = some out) :
    Valid out.stm.buf ∧ out.stm.buf.size = stm.buf.size ∧
      ((UInt32.ofNat payload.length ≠ 0 ∧ UInt32.ofNat payload.length < bufferSpace stm.buf) ∧
          out.world.delivered = w.delivered ∧
          (∃ tail, tail.length = payload.length ∧ unread out.stm.buf = payload ++ (unread stm.buf++tail).drop payload.length) ∨
        ¬ (UInt32.ofNat payload.length ≠ 0 ∧ UInt32.ofNat payload.length < bufferSpace stm.buf) ∧
          ∃ k, out.world.delivered = w.delivered ++ (unread stm.buf ++ payload).take k ∧
            unread out.stm.buf = (unread stm.buf).drop k) := by
  have word := length_word short
  have lockedValid : Valid ({stm with lock:=1} : Stream).buf := valid
  rcases write_inversion short ran with ⟨rfl,rfl⟩ | ⟨_,_,inner,rfl,raw⟩
  · exact ⟨valid,rfl,Or.inr ⟨fun copies => copies.1 rfl,0,by simp,rfl⟩⟩
  · by_cases copies : UInt32.ofNat payload.length ≠ 0 ∧ UInt32.ofNat payload.length < bufferSpace stm.buf
    · obtain ⟨b,tail,copied,bvalid,size,length,view⟩ := raw_copy (w:=w) fdWritev script lockedValid copies word.symm
      cases Option.some.inj (raw.symm.trans copied)
      rw [word] at length view
      exact ⟨bvalid,size,Or.inl ⟨copies,rfl,tail,length,view⟩⟩
    · have enough := room copies
      obtain ⟨ovalid,osize,_,conserved⟩ := raw_direct lockedValid copies word.symm
        (show (unread stm.buf).length+_ < 2^32 by omega) raw
      exact ⟨ovalid,osize,Or.inr ⟨copies,conserved.cut enough⟩⟩

end EventLib.Streams

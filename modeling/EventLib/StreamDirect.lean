import EventLib.Stream
import EventLib.PartialTransfer
import EventLib.LabelledRuns

namespace EventLib.StreamDirect
open ByteBlock ByteBuffer Events Streams PartialTransfer LabelledRuns Errnos

variable {writev : Writev} {stm : Stream} {w : World} {iov : List (List UInt8)} {ravail towrite ret len : UInt32}
  {payload : List UInt8} {answer : Answer} {script : List Answer} {total n : Nat} {out : Outcome}

-- The count between 1 and the bytes offered is reported and delivered, or the
-- call fails with nothing delivered; a count of 0 is a failure.
def Reported (stm : Stream) (w : World) (iov : List (List UInt8)) (answer : Answer) (result : Int × UInt32 × Stream × World) : Prop :=
  (∃ ret w', result = (0,ret,stm,w') ∧ 0 < ret.toNat ∧ ret.toNat = min (count answer) iov.flatten.length ∧
    w'.delivered = w.delivered ++ iov.flatten.take ret.toNat) ∨
  ∃ stm' w', result = (-1,0,stm',w') ∧ min (count answer) iov.flatten.length = 0 ∧ stm'.buf = stm.buf ∧ stm'.lock = stm.lock ∧
    w'.delivered = w.delivered

def Reports (writev : Writev) (total : Nat) (script : List Answer) : Prop :=
  ∀ answer ∈ script, ∀ stm w iov, iov.flatten.length ≤ total → Reported stm w iov answer (writev stm w iov answer)

theorem Reports.fewer {less : Nat} (reports : Reports writev total script) (fewer : less ≤ total) : Reports writev less script :=
  fun answer member stm w iov small => reports answer member stm w iov (Nat.le_trans small fewer)

theorem Reports.tail {rest : List Answer} (reports : Reports writev total (answer::rest)) : Reports writev total rest :=
  fun later member => reports later (List.mem_cons_of_mem _ member)

theorem accept_below (counts : ∀ n, .accept n ∈ script → n+1 < 2^32) (member : answer ∈ script) : count answer+1 < 2^32 := by
  cases answer with
  | accept n => exact counts n member
  | fail errno =>
    show 0+1 < 2^32
    decide

-- `fd_writev` reports so unless one `writev` takes 2^32-1 bytes, which it reads as -1.
theorem fdWritev_reports (small : total < 2^32) (counted : total+1 < 2^32 ∨ ∀ n, .accept n ∈ script → n+1 < 2^32) :
    Reports fdWritev total script := by
  intro answer member stm w iov offer
  rcases fdWritev_spec stm w answer (by omega : iov.flatten.length < 2^32) with
    ⟨ret,w',wrote,positive,took,sent⟩ | ⟨stm',w',failed,buf,lock,quiet⟩
  · exact Or.inl ⟨ret,w',wrote,positive,took,sent⟩
  · have short : min (count answer) iov.flatten.length+1 < 2^32 := by
      rcases counted with room | counts
      · omega
      · have bound := accept_below counts member
        omega
    obtain ⟨nothing,delivered⟩ := quiet short
    exact Or.inr ⟨stm',w',failed,nothing,buf,lock,delivered⟩

-- What a call leaves once `n` bytes of buffer and payload have been taken.
structure Sent (before : Stream) (w : World) (payload : List UInt8) (len : UInt32) (n : Nat) (out : Outcome) : Prop where
  valid : Valid out.stm.buf
  size : out.stm.buf.size = before.buf.size
  lock : out.stm.lock = before.lock
  delivered : out.world.delivered = w.delivered ++ (unread before.buf ++ payload).take n
  left : unread out.stm.buf = (unread before.buf).drop n
  ended : n = (unread before.buf).length+payload.length ∧ out.ret = 0 ∧ out.nwrote = some len ∨
    n < (unread before.buf).length+payload.length ∧ out.ret = -1 ∧ out.nwrote = none

theorem Sent.after_prefix {middle : Stream} {w' : World} (buffer : unread middle.buf = (unread stm.buf).drop ret.toNat)
    (size : middle.buf.size = stm.buf.size) (lock : middle.lock = stm.lock)
    (short : ret.toNat < (unread stm.buf).length+payload.length)
    (sent : w'.delivered = w.delivered ++ (unread stm.buf ++ payload).take ret.toNat)
    (rest : Sent middle w' (payload.drop (ret.toNat-(unread stm.buf).length)) len n out) :
    Sent stm w payload len (ret.toNat+n) out := by
  have split : unread middle.buf ++ payload.drop (ret.toNat-(unread stm.buf).length) =
      (unread stm.buf ++ payload).drop ret.toNat := by rw [buffer,List.drop_append]
  have ended := rest.ended
  rw [buffer,List.length_drop,List.length_drop] at ended
  refine ⟨rest.valid,rest.size.trans size,rest.lock.trans lock,?_,?_,?_⟩
  · rw [rest.delivered,sent,split,List.append_assoc,List.take_add]
  · rw [rest.left,buffer,List.drop_drop]
  · rcases ended with ⟨all,ok⟩ | ⟨fewer,failed⟩
    · exact Or.inl ⟨by omega,ok⟩
    · exact Or.inr ⟨by omega,failed⟩

-- The loop settles exactly when the schedule does, with the bytes it took.
theorem writeLoopBy_transfers (reports : Reports writev towrite.toNat script) (aligned : Aligned stm ravail towrite iov payload)
    (positive : 0 < towrite.toNat) :
    transfer count script towrite.toNat = none ∧ writeLoopBy writev ravail len script stm w towrite iov = none ∨
    ∃ n out, transfer count script towrite.toNat = some (n,out.rest) ∧
      writeLoopBy writev ravail len script stm w towrite iov = some out ∧ Sent stm w payload len n out := by
  induction script generalizing stm w towrite iov payload with
  | nil => exact Or.inl ⟨rfl,rfl⟩
  | cons answer rest ih =>
    have flat := aligned.flatten
    have offer : iov.flatten.length = towrite.toNat := by rw [flat,List.length_append,aligned.remaining]
    have remaining := aligned.remaining
    rcases reports answer List.mem_cons_self stm w iov (Nat.le_of_eq offer) with
      ⟨ret,w',wrote,some_taken,took,sent⟩ | ⟨stm',w',failed,nothing,buf,lock,quiet⟩
    · rw [offer] at took
      rw [flat] at sent
      by_cases last : ret = towrite
      · obtain ⟨_,_,b,did,bvalid,_,left,_,size⟩ := bufferRead_spec false ravail aligned.valid
        have gone : unread b = [] := by
          rw [left,List.drop_eq_nil_iff]
          exact aligned.covers
        refine Or.inr ⟨_,⟨0,some len,{stm with buf:=b},w',rest⟩,transfer_whole positive (by rw [last] at took; omega),?_,
          ⟨bvalid,size,rfl,by rw [← last]; exact sent,?_,Or.inl ⟨remaining,rfl,rfl⟩⟩⟩
        · simp only [writeLoopBy,wrote,ne_eq,not_true_eq_false,if_false,if_pos last,did,Option.bind_eq_bind,Option.bind_some]
        · rw [gone,eq_comm,List.drop_eq_nil_iff]
          omega
      · have short : ret.toNat < towrite.toNat := by
          have different : ret.toNat ≠ towrite.toNat := fun same => last (UInt32.toNat_inj.mp same)
          omega
        have counted : count answer = ret.toNat := by omega
        have left := drop_exact short
        obtain ⟨b,iov',shifted,size,buffer,next⟩ := shift_spec aligned short
        have again : writeLoopBy writev ravail len (answer::rest) stm w towrite iov =
            writeLoopBy writev ravail len rest {stm with buf:=b} w' (towrite-ret) iov' := by
          simp only [writeLoopBy,wrote,ne_eq,not_true_eq_false,if_false,if_neg last,shifted,Option.bind_eq_bind,Option.bind_some]
        rw [again,transfer_part (by omega) (by omega),counted,← left]
        rcases ih (reports.tail.fewer (by omega)) next (by omega) with ⟨open_ended,unfinished⟩ | ⟨n,out,settled,ran,rest⟩
        · exact Or.inl ⟨by rw [open_ended]; rfl,unfinished⟩
        · have kept : ({stm with buf:=b} : Stream).lock = stm.lock := rfl
          exact Or.inr ⟨_,out,by rw [settled]; rfl,ran,rest.after_prefix buffer size kept (by omega) sent⟩
    · have refused : count answer = 0 := by omega
      refine Or.inr ⟨0,⟨-1,none,stm',{w' with errno:=stm'.lastErr},rest⟩,transfer_refused refused,?_,
        ⟨by rw [buf]; exact aligned.valid,by rw [buf],lock,?_,by rw [buf,List.drop_zero],Or.inr ⟨by omega,rfl,rfl⟩⟩⟩
      · simp only [writeLoopBy,failed]
        rw [if_pos (by decide)]
      · rw [List.take_zero,List.append_nil]
        exact quiet

theorem rawBy_transfers (stm : Stream) (w : World) (reports : Reports writev ((unread stm.buf).length+len.toNat) script) (valid : Valid stm.buf)
    (direct : ¬ (len ≠ 0 ∧ len < bufferSpace stm.buf)) (exact_len : payload.length = len.toNat)
    (some_bytes : 0 < (unread stm.buf).length+len.toNat) (room : (unread stm.buf).length+len.toNat < 2^32) :
    transfer count script ((unread stm.buf).length+len.toNat) = none ∧ streamWriteRawBy writev stm w payload len script = none ∨
    ∃ n out, transfer count script ((unread stm.buf).length+len.toNat) = some (n,out.rest) ∧
      streamWriteRawBy writev stm w payload len script = some out ∧ Sent stm w payload len n out := by
  have word : (UInt32.ofNat ((unread stm.buf).length+payload.length)).toNat = (unread stm.buf).length+len.toNat := by
    rw [exact_len]
    exact UInt32.toNat_ofNat_of_lt' room
  have aligned : Aligned stm (bufferAvail stm.buf) (UInt32.ofNat ((unread stm.buf).length+payload.length))
      [unread stm.buf,payload] payload := ⟨Laid.start valid payload,by rw [word,exact_len]⟩
  rw [rawBy_loop writev w script valid direct exact_len,← word]
  exact writeLoopBy_transfers (by rw [word]; exact reports) aligned (by rw [word]; exact some_bytes)

-- Without a payload an empty buffer and the whole of it taken are the same.
theorem Sent.emptied_iff (sent : Sent stm w [] len n out) : bufferAvail out.stm.buf = 0 ↔ n = (unread stm.buf).length := by
  rw [sent.valid.avail_zero,sent.left,List.drop_eq_nil_iff]
  constructor
  · intro all
    rcases sent.ended with ⟨whole,_⟩ | ⟨fewer,_⟩
    · exact whole
    · exact absurd all (Nat.not_le.mpr fewer)
  · intro whole
    exact Nat.le_of_eq whole.symm

theorem flush_transfers (w : World) (reports : Reports writev (unread stm.buf).length script) (valid : Valid stm.buf)
    (left : unread stm.buf ≠ []) :
    transfer count script (unread stm.buf).length = none ∧ streamWriteRawBy writev {stm with lock:=1} w [] 0 script = none ∨
    ∃ n out, transfer count script (unread stm.buf).length = some (n,out.rest) ∧
      streamWriteRawBy writev {stm with lock:=1} w [] 0 script = some out ∧ Sent {stm with lock:=1} w [] 0 n out := by
  have nothing : ([] : List UInt8).length = (0 : UInt32).toNat := rfl
  exact rawBy_transfers {stm with lock:=1} w reports valid (fun copies => copies.1 rfl) nothing (List.length_pos_iff.mpr left)
    valid.unread_small

-- The lock and the early return are `stream_flush`'s; the rest is `_stream_write`'s.
theorem flushBy_spec (reports : Reports writev (unread stm.buf).length script) (valid : Valid stm.buf)
    (ran : streamFlushBy writev stm w script = some out) :
    Valid out.stm.buf ∧ out.stm.buf.size = stm.buf.size ∧ out.stm.lock = 0 ∧
      (unread stm.buf = [] ∧ out.ret = 0 ∧ out.rest = script ∧ out.world.delivered = w.delivered ∧ unread out.stm.buf = [] ∨
        unread stm.buf ≠ [] ∧ ∃ n, transfer count script (unread stm.buf).length = some (n,out.rest) ∧
          out.world.delivered = w.delivered ++ (unread stm.buf).take n ∧ unread out.stm.buf = (unread stm.buf).drop n ∧
          (n = (unread stm.buf).length ∧ out.ret = 0 ∨ n < (unread stm.buf).length ∧ out.ret = -1)) := by
  rcases flush_inversion ran with ⟨none_left,rfl⟩ | ⟨some_left,inner,raw,same,delivered,rest,outcome⟩
  · have empty := valid.avail_zero.mp none_left
    exact ⟨valid,rfl,rfl,Or.inl ⟨empty,rfl,rfl,rfl,empty⟩⟩
  · have left : unread stm.buf ≠ [] := fun empty => some_left (valid.avail_zero.mpr empty)
    rcases flush_transfers w reports valid left with ⟨_,unfinished⟩ | ⟨n,inner',settled,ran',sent⟩
    · cases raw.symm.trans unfinished
    · cases Option.some.inj (raw.symm.trans ran')
      have bytes := sent.delivered
      rw [List.append_nil] at bytes
      rw [same,delivered,rest]
      refine ⟨sent.valid,sent.size,rfl,Or.inr ⟨left,n,settled,bytes,sent.left,?_⟩⟩
      rcases outcome with ⟨drained,ok⟩ | ⟨undrained,failed⟩
      · exact Or.inl ⟨sent.emptied_iff.mp drained,ok⟩
      · refine Or.inr ⟨?_,failed⟩
        rcases sent.ended with ⟨whole,_⟩ | ⟨fewer,_⟩
        · exact absurd (sent.emptied_iff.mpr whole) undrained
        · exact fewer

-- A flush that finds the lock free returns unless the schedule leaves it writing.
theorem flushBy_returns (reports : Reports writev (unread stm.buf).length script) (valid : Valid stm.buf) (free : stm.lock = 0)
    (unfinished : streamFlushBy writev stm w script = none) :
    unread stm.buf ≠ [] ∧ transfer count script (unread stm.buf).length = none := by
  have locked : streamLock stm = some {stm with lock:=1} := if_pos free
  simp only [streamFlushBy,locked,Option.bind_eq_bind,Option.bind_some] at unfinished
  by_cases empty : bufferAvail stm.buf = 0
  · rw [if_pos empty] at unfinished
    cases unfinished
  · have left : unread stm.buf ≠ [] := fun none_left => empty (valid.avail_zero.mpr none_left)
    refine ⟨left,?_⟩
    rw [if_neg empty] at unfinished
    rcases flush_transfers w reports valid left with ⟨pending,_⟩ | ⟨n,inner,_,ran,_⟩
    · exact pending
    · rw [ran,Option.bind_some] at unfinished
      split at unfinished <;> cases unfinished

-- `front` are the answers that took something and left something, `final` the
-- one that refused or took the rest.
def Conserves (stm : Stream) (w : World) (payload : List UInt8) (len : UInt32) (script : List Answer) (out : Outcome) : Prop :=
  ∃ front final n, script = front ++ final::out.rest ∧ (∀ answer ∈ front, 0 < count answer) ∧
    (front.map count).sum < (unread stm.buf).length+payload.length ∧
    out.world.delivered = w.delivered ++ (unread stm.buf ++ payload).take n ∧
    (out.ret = 0 ∧ 0 < count final ∧ front.length+1 ≤ (unread stm.buf).length+payload.length ∧
        (unread stm.buf).length+payload.length ≤ (front.map count).sum+count final ∧
        n = (unread stm.buf).length+payload.length ∧ unread out.stm.buf = [] ∧ out.nwrote = some len ∨
      out.ret = -1 ∧ count final = 0 ∧ front.length ≤ (unread stm.buf).length+payload.length ∧
        n = (front.map count).sum ∧ unread out.stm.buf = (unread stm.buf).drop n)

theorem Sent.conserves (sent : Sent stm w payload len n out) (positive : 0 < (unread stm.buf).length+payload.length)
    (settled : transfer count script ((unread stm.buf).length+payload.length) = some (n,out.rest)) :
    Conserves stm w payload len script out := by
  obtain ⟨front,final,split,takes,short,finish⟩ := transfer_spec positive settled
  have calls := transfer_answers takes
  refine ⟨front,final,n,split,takes,short,sent.delivered,?_⟩
  rcases sent.ended with ⟨all,ok,told⟩ | ⟨fewer,failed,_⟩
  · refine Or.inl ⟨ok,by omega,by omega,by omega,all,?_,told⟩
    rw [sent.left,List.drop_eq_nil_iff]
    omega
  · exact Or.inr ⟨failed,by omega,by omega,by omega,sent.left⟩

def flushStep (writev : Writev) (s : Stream × World) (script : List Answer) : Option (Stream × World) :=
  (streamFlushBy writev s.1 s.2 script).map fun out => (out.stm,out.world)

-- 0 exactly for an emptied buffer, and the bytes go on where they stopped: the
-- flush takes from there on what the schedule takes of an attempt. It stays
-- without a result only behind a taken lock or in a `writev` that has not returned.
structure Resumes (writev : Writev) (s : Stream × World) (script : List Answer) : Prop where
  unfinished : streamFlushBy writev s.1 s.2 script = none →
    s.1.lock ≠ 0 ∨ unread s.1.buf ≠ [] ∧ transfer count script (unread s.1.buf).length = none
  returned : ∀ out, streamFlushBy writev s.1 s.2 script = some out →
    (out.ret = 0 ∧ unread out.stm.buf = [] ∨ out.ret = -1 ∧ unread out.stm.buf ≠ []) ∧
    ∃ n, out.world.delivered = s.2.delivered ++ (unread s.1.buf).take n ∧ unread out.stm.buf = (unread s.1.buf).drop n ∧
      (unread s.1.buf = [] ∧ n = 0 ∧ out.rest = script ∨
        unread s.1.buf ≠ [] ∧ transfer count script (unread s.1.buf).length = some (n,out.rest))

theorem flush_resumes (reports : Reports writev (unread stm.buf).length script) (valid : Valid stm.buf) :
    Resumes writev (stm,w) script := by
  refine ⟨?_,?_⟩
  · intro unfinished
    by_cases free : stm.lock = 0
    · exact Or.inr (flushBy_returns reports valid free unfinished)
    · exact Or.inl free
  · intro out ran
    obtain ⟨_,_,_,outcome⟩ := flushBy_spec reports valid ran
    rcases outcome with ⟨empty,ok,unused,delivered,gone⟩ | ⟨left,n,settled,delivered,kept,⟨whole,ok⟩ | ⟨fewer,failed⟩⟩
    · exact ⟨Or.inl ⟨ok,gone⟩,0,by simpa using delivered,by rw [gone,empty]; rfl,Or.inl ⟨empty,rfl,unused⟩⟩
    · refine ⟨Or.inl ⟨ok,?_⟩,n,delivered,kept,Or.inr ⟨left,settled⟩⟩
      rw [kept,whole,List.drop_length]
    · refine ⟨Or.inr ⟨failed,?_⟩,n,delivered,kept,Or.inr ⟨left,settled⟩⟩
      rw [kept]
      intro none_left
      exact absurd (List.drop_eq_nil_iff.mp none_left) (Nat.not_le.mpr fewer)

theorem flush_shortens {next : Stream × World} (reports : Reports writev (unread stm.buf).length script) (valid : Valid stm.buf)
    (ran : flushStep writev (stm,w) script = some next) :
    Valid next.1.buf ∧ (unread next.1.buf).length ≤ (unread stm.buf).length := by
  obtain ⟨out,flushed,rfl⟩ := Option.map_eq_some_iff.mp ran
  obtain ⟨_,n,_,left,_⟩ := (flush_resumes reports valid).returned out flushed
  refine ⟨(flushBy_spec reports valid flushed).1,?_⟩
  rw [left,List.length_drop]
  exact Nat.sub_le _ _

theorem direct_path_conserves (w : World) {flushes : List (List Answer)} (valid : Valid stm.buf)
    (direct : ¬ (len ≠ 0 ∧ len < bufferSpace stm.buf)) (exact_len : payload.length = len.toNat)
    (some_bytes : 0 < (unread stm.buf).length+len.toNat) (room : (unread stm.buf).length+len.toNat < 2^32)
    (reports : Reports writev ((unread stm.buf).length+len.toNat) script)
    (reported : ∀ script ∈ flushes, Reports writev (unread stm.buf).length script) :
    (streamWriteRawBy writev stm w payload len script = none →
      (∀ answer ∈ script, 0 < count answer) ∧ (script.map count).sum < (unread stm.buf).length+len.toNat ∧
        script.length < (unread stm.buf).length+len.toNat) ∧
    (∀ out, streamWriteRawBy writev stm w payload len script = some out → Conserves stm w payload len script out) ∧
    Along (flushStep writev) (Resumes writev) (stm,w) flushes := by
  have outcome := rawBy_transfers stm w reports valid direct exact_len some_bytes room
  refine ⟨?_,?_,?_⟩
  · intro unfinished
    rcases outcome with ⟨pending,_⟩ | ⟨_,_,_,ran,_⟩
    · obtain ⟨takes,short⟩ := transfer_pending some_bytes pending
      exact ⟨takes,short,Nat.lt_of_le_of_lt (transfer_answers takes) short⟩
    · cases ran.symm.trans unfinished
  · intro out ran
    rcases outcome with ⟨_,unfinished⟩ | ⟨n,out',settled,ran',sent⟩
    · cases ran.symm.trans unfinished
    · cases Option.some.inj (ran.symm.trans ran')
      rw [← exact_len] at some_bytes settled
      exact sent.conserves some_bytes settled
  · have shortens : ∀ (s : Stream × World) script next, Valid s.1.buf ∧ (unread s.1.buf).length ≤ (unread stm.buf).length →
        Reports writev (unread stm.buf).length script → flushStep writev s script = some next →
        Valid next.1.buf ∧ (unread next.1.buf).length ≤ (unread stm.buf).length := by
      intro s script next held reports ran
      obtain ⟨nextValid,shorter⟩ := flush_shortens (reports.fewer held.2) held.1 ran
      exact ⟨nextValid,Nat.le_trans shorter held.2⟩
    refine along_guarded shortens ?_ ⟨valid,Nat.le_refl _⟩ (along_of_forall reported)
    intro s script held reports
    exact flush_resumes (reports.fewer held.2) held.1

def halfFull : Stream := ⟨⟨[0,97,98,0,0],5,1,3⟩,0,0,0⟩

-- The first write ends inside the buffer, the second inside the payload.
theorem crossing_write_conserves : unread halfFull.buf = [97,98] ∧ streamWriteRawBy fdWritev halfFull ⟨[],0⟩ [99,100] 2
      [.accept 1,.accept 2,.fail EAGAIN] = some ⟨-1,none,⟨⟨[0,97,98,0,0],5,0,0⟩,EVMASK_WRITE,0,EAGAIN⟩,⟨[97,98,99],EAGAIN⟩,[]⟩ ∧
    Conserves halfFull ⟨[],0⟩ [99,100] 2 [.accept 1,.accept 2,.fail EAGAIN]
      ⟨-1,none,⟨⟨[0,97,98,0,0],5,0,0⟩,EVMASK_WRITE,0,EAGAIN⟩,⟨[97,98,99],EAGAIN⟩,[]⟩ ∧
    Along (flushStep fdWritev) (Resumes fdWritev) (halfFull,⟨[],0⟩) [[.accept 1,.fail EAGAIN],[.accept 1]] := by
  have valid : Valid halfFull.buf := ⟨rfl,by decide,Or.inl (by decide)⟩
  have ran : streamWriteRawBy fdWritev halfFull ⟨[],0⟩ [99,100] 2 [.accept 1,.accept 2,.fail EAGAIN] =
    some ⟨-1,none,⟨⟨[0,97,98,0,0],5,0,0⟩,EVMASK_WRITE,0,EAGAIN⟩,⟨[97,98,99],EAGAIN⟩,[]⟩ := by decide
  have reports : Reports fdWritev 4 [.accept 1,.accept 2,.fail EAGAIN] := fdWritev_reports (by decide) (Or.inl (by decide))
  have reported : ∀ script ∈ [[.accept 1,.fail EAGAIN],[.accept 1]], Reports fdWritev 2 script := by
    intro script _
    exact fdWritev_reports (by decide) (Or.inl (by decide))
  have nothing : ([99,100] : List UInt8).length = (2 : UInt32).toNat := rfl
  have results := direct_path_conserves ⟨[],0⟩ valid (by decide) nothing (by decide) (by decide) reports reported
  exact ⟨by decide,ran,results.2.1 _ ran,results.2.2⟩

theorem write_direct (valid : Valid stm.buf) (free : stm.lock = 0) (nonempty : payload ≠ [])
    (direct : (bufferSpace stm.buf).toNat ≤ payload.length) (room : (unread stm.buf).length+payload.length+1 < 2^32) :
    transfer count script ((unread stm.buf).length+payload.length) = none ∧
      streamWrite stm w payload (UInt32.ofNat payload.length) script = none ∨
    ∃ n out, transfer count script ((unread stm.buf).length+payload.length) = some (n,out.rest) ∧
      streamWrite stm w payload (UInt32.ofNat payload.length) script = some out ∧
      Sent stm w payload (UInt32.ofNat payload.length) n out := by
  have word : (UInt32.ofNat payload.length).toNat = payload.length := length_word (by omega)
  have positive : 0 < payload.length := List.length_pos_iff.mpr nonempty
  have short : payload.length < 2^32 := by omega
  have nonzero := (word_nonzero short).mpr nonempty
  have past : ¬ (UInt32.ofNat payload.length ≠ 0 ∧ UInt32.ofNat payload.length < bufferSpace stm.buf) := by
    rw [copied_iff short]
    exact fun copied => absurd direct (Nat.not_le.mpr copied.2)
  have reports : Reports fdWritev ((unread stm.buf).length+payload.length) script :=
    fdWritev_reports (by omega) (Or.inl room)
  have positive_total : 0 < (unread stm.buf).length+(UInt32.ofNat payload.length).toNat := by omega
  have small_total : (unread stm.buf).length+(UInt32.ofNat payload.length).toNat < 2^32 := by omega
  rw [← word] at reports
  have outcome := rawBy_transfers {stm with lock:=1} w reports valid past word.symm positive_total small_total
  rw [word] at outcome
  rw [streamWrite,writeBy_locked fdWritev w script free nonzero]
  rcases outcome with ⟨pending,unfinished⟩ | ⟨n,out,settled,ran,sent⟩
  · exact Or.inl ⟨pending,by rw [unfinished]; rfl⟩
  · exact Or.inr ⟨n,{out with stm:=streamUnlock out.stm},settled,by rw [ran]; rfl,
      ⟨sent.valid,sent.size,free.symm,sent.delivered,sent.left,sent.ended⟩⟩

end EventLib.StreamDirect

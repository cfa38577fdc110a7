import EventLib.Socket
import EventLib.StreamDirect

namespace EventLib.SocketWouldBlock
open ByteBuffer Events Streams StreamInput StreamDirect Sockets PartialTransfer Errnos

-- The only failure is EAGAIN. A count of 0 would be one, and a count of 2^32-1
-- is one for `fd_writev`.
def Patient (script : List Answer) : Prop :=
  ∀ answer ∈ script, match answer with
    | .accept n => 0 < n ∧ n+1 < 2^32
    | .fail errno => errno = EAGAIN

def Calm (b : Buffer) : Supply → Prop
  | .give bytes => bytes ≠ [] ∧ (bytes.take (fillCapacity b)).length+1 < 2^32
  | .fail errno => errno = EAGAIN

variable {π : Type} {mask : UInt32} {sock : Socket π} {stm : Stream} {w : World} {script : List Answer} {supply : Supply}
  {grants : Grant × Grant} {d : Dispatched π}

theorem and_or_word (x y z : UInt32) : x &&& (y ||| z) = (x &&& y) ||| (x &&& z) := by
  apply UInt32.toNat_inj.mp
  simp [Nat.and_or_distrib_left]

theorem clean_selects (clean : mask &&& EVMASK_ERROR = 0) (bit : UInt32) : mask &&& (bit ||| EVMASK_ERROR) = mask &&& bit := by
  rw [and_or_word,clean,UInt32.or_zero]

theorem error_contained (mask : UInt32) : (mask ||| EVMASK_ERROR) &&& EVMASK_ERROR = EVMASK_ERROR := by
  apply UInt32.toNat_inj.mp
  apply Nat.eq_of_testBit_eq
  intro i
  rw [UInt32.toNat_and,UInt32.toNat_or,Nat.testBit_and,Nat.testBit_or]
  cases EVMASK_ERROR.toNat.testBit i <;> simp

-- Once the error bit is set the second test fails.
theorem error_blocks_read (mask : UInt32) : ¬ (mask ||| EVMASK_ERROR) &&& (EVMASK_READ ||| EVMASK_ERROR) = EVMASK_READ := by
  intro reads
  have both : (mask ||| EVMASK_ERROR) &&& (EVMASK_READ ||| EVMASK_ERROR) &&& EVMASK_ERROR = EVMASK_ERROR := by
    rw [UInt32.and_assoc,show (EVMASK_READ ||| EVMASK_ERROR) &&& EVMASK_ERROR = EVMASK_ERROR by decide]
    exact error_contained mask
  rw [reads] at both
  exact absurd both (by decide)

theorem patient_reports (patient : Patient script) (small : total < 2^32) : Reports fdWritev total script := by
  refine fdWritev_reports small (Or.inr ?_)
  intro n member
  exact (patient (.accept n) member).2

-- The flush fails exactly when EAGAIN comes before the last buffered byte.
theorem patient_flush {out : Outcome} (patient : Patient script) (valid : Valid stm.buf)
    (ran : streamFlush stm w script = some out) :
    out.ret = 0 ↔ unread stm.buf = [] ∨
      (transfer count script (unread stm.buf).length).map Prod.fst = some (unread stm.buf).length := by
  obtain ⟨_,_,_,outcome⟩ := flushBy_spec (patient_reports patient valid.unread_small) valid ran
  rcases outcome with ⟨empty,ok,_⟩ | ⟨pending,n,settled,_,_,⟨whole,ok⟩ | ⟨fewer,failed⟩⟩
  · exact iff_of_true ok (Or.inl empty)
  · exact iff_of_true ok (Or.inr (by rw [settled,whole]; rfl))
  · refine iff_of_false (by rw [failed]; decide) ?_
    rintro (empty | all)
    · exact pending empty
    · rw [settled] at all
      exact Nat.ne_of_lt fewer (Option.some.inj all)

theorem calm_fill {out : Intake} (calm : Calm stm.buf supply) (ran : streamFill stm w supply grants = some out) :
    ¬ (out.ret ≠ 0 ∧ out.stm.lastErr ≠ EAGAIN) := by
  rintro ⟨failed,other⟩
  cases supply with
  | fail errno =>
    obtain ⟨_,_,ran⟩ := Option.bind_eq_some_iff.mp ran
    obtain ⟨_,_,ran⟩ := Option.bind_eq_some_iff.mp ran
    cases Option.some.inj ran
    exact other calm
  | give bytes =>
    obtain ⟨_,_,_,_,_,_,_,_,answered,outcome⟩ := fill_inversion ran
    have some_bytes : 0 < (bytes.take (fillCapacity stm.buf)).length := by
      have positive := List.length_pos_iff.mpr calm.1
      rw [List.length_take,fillCapacity,STM_READALL_LEN]
      omega
    have small := calm.2
    rcases outcome with ⟨rfl,_⟩ | ⟨_,nothing | long⟩
    · rw [fillAnswered,if_neg (by decide)] at answered
      obtain ⟨_,_,rfl⟩ := Option.map_eq_some_iff.mp answered
      exact failed rfl
    · exact Nat.ne_of_gt some_bytes nothing
    · exact absurd small (Nat.not_lt.mpr long)

theorem calm_read {before : Dispatched π} {b : Buffer} (calm : Calm b supply) (ran : dispatchRead before supply grants = some d)
    (same : before.sock.istm.buf = b) : d.mask = before.mask := by
  subst same
  unfold dispatchRead at ran
  split at ran
  · obtain ⟨_,read,rfl⟩ := Option.map_eq_some_iff.mp ran
    obtain ⟨out,filled,rfl⟩ := Option.map_eq_some_iff.mp read
    show markError before.mask (if out.ret ≠ 0 ∧ out.stm.lastErr ≠ EAGAIN then -1 else 0) = before.mask
    rw [if_neg (calm_fill calm filled)]
    rfl
  · cases Option.some.inj ran
    rfl

theorem would_block_not_error_iff (clean : mask &&& EVMASK_ERROR = 0) (valid : Valid sock.ostm.buf) (patient : Patient script)
    (calm : Calm sock.istm.buf supply) (ran : sockDispatch mask sock w script supply grants = some d) :
    d.mask &&& EVMASK_ERROR = 0 ↔ mask &&& EVMASK_WRITE ≠ EVMASK_WRITE ∨ unread sock.ostm.buf = [] ∨
      (transfer count script (unread sock.ostm.buf).length).map Prod.fst = some (unread sock.ostm.buf).length := by
  obtain ⟨middle,wrote,read⟩ := Option.bind_eq_some_iff.mp ran
  unfold dispatchWrite at wrote
  dsimp only at wrote
  rw [clean_selects clean] at wrote
  by_cases writes : mask &&& EVMASK_WRITE = EVMASK_WRITE
  · rw [if_pos writes] at wrote
    obtain ⟨_,tried,rfl⟩ := Option.map_eq_some_iff.mp wrote
    obtain ⟨out,flushed,rfl⟩ := Option.map_eq_some_iff.mp tried
    have flush := patient_flush patient valid flushed
    by_cases ok : out.ret = 0
    · have same : d.mask = markError mask out.ret := calm_read calm read rfl
      rw [same,markError,if_neg (not_not.mpr ok),clean]
      exact iff_of_true rfl (Or.inr (flush.mp ok))
    · have marked : markError mask out.ret = mask ||| EVMASK_ERROR := if_pos ok
      simp only [dispatchRead,marked,if_neg (error_blocks_read mask)] at read
      cases Option.some.inj read
      refine iff_of_false ?_ ?_
      · rw [error_contained]
        decide
      · rintro (no_write | drains)
        · exact no_write writes
        · exact ok (flush.mpr drains)
  · rw [if_neg writes] at wrote
    cases Option.some.inj wrote
    have same : d.mask = mask := calm_read calm read rfl
    rw [same,clean]
    exact iff_of_true rfl (Or.inl writes)

def connected : Socket Nat := ⟨0,1,⟨⟨[0,0],2,0,0⟩,0,0,0⟩,⟨⟨[97,98],2,0,2⟩,0,0,0⟩⟩

theorem full_write_not_error : ∃ d, sockDispatch (EVMASK_READ ||| EVMASK_WRITE) connected ⟨[],0⟩ [.accept 1,.accept 1]
      (.fail EAGAIN) (some zeroes,some zeroes) = some d ∧ d.world.delivered = [97,98] ∧ d.mask &&& EVMASK_ERROR = 0 := by
  have valid : Valid connected.ostm.buf := ⟨rfl,by decide,Or.inl (by decide)⟩
  have patient : Patient [.accept 1,.accept 1] := by
    intro answer member
    simp only [List.mem_cons,List.not_mem_nil,or_false,or_self] at member
    subst member
    decide
  have calm : Calm connected.istm.buf (.fail EAGAIN) := rfl
  have clean : (EVMASK_READ ||| EVMASK_WRITE) &&& EVMASK_ERROR = 0 := by decide
  have returned : (sockDispatch (EVMASK_READ ||| EVMASK_WRITE) connected ⟨[],0⟩ [.accept 1,.accept 1] (.fail EAGAIN)
      (some zeroes,some zeroes)).map (fun d => d.world.delivered) = some [97,98] := by decide
  obtain ⟨d,ran,sent⟩ := Option.map_eq_some_iff.mp returned
  exact ⟨d,ran,sent,(would_block_not_error_iff clean valid patient calm ran).mpr (Or.inr (Or.inr (by decide)))⟩

-- One of two bytes goes out, then the kernel has no room: the healthy connection
-- is reported with the error bit, and `last_err` says EAGAIN.
theorem would_block_reported : Patient [.accept 1,.fail EAGAIN] ∧ Calm connected.istm.buf (.fail EAGAIN) ∧
    ∃ d, sockDispatch (EVMASK_READ ||| EVMASK_WRITE) connected ⟨[],0⟩ [.accept 1,.fail EAGAIN] (.fail EAGAIN)
        (some zeroes,some zeroes) = some d ∧ d.sock.ostm.lastErr = EAGAIN ∧ d.mask &&& EVMASK_ERROR = EVMASK_ERROR := by
  refine ⟨?_,rfl,_,rfl,rfl,by decide⟩
  intro answer member
  simp only [List.mem_cons,List.not_mem_nil,or_false] at member
  rcases member with rfl | rfl
  · decide
  · rfl

end EventLib.SocketWouldBlock

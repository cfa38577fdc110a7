import EventLib.StreamDirect

namespace EventLib.FailedWrite
open ByteBuffer Streams StreamDirect PartialTransfer Errnos

-- `fd_writev` on a descriptor that records of every call only what it took of
-- the last iovec, which is the payload.
def payloadWritev : Writev := fun stm w iov answer =>
  match fdWritev stm w iov answer with
  | (failed,ret,stm,after) =>
    (failed,ret,stm,{after with delivered:=w.delivered++(iov.flatten.take (count answer)).drop iov.dropLast.flatten.length})

-- The bytes of the payload that reach the descriptor during the call, each time
-- they do, and what the buffer has gained by its end.
def payloadTaken (stm : Stream) (w : World) (payload : List UInt8) (script : List Answer) (out : Outcome) : Nat :=
  (streamWriteBy payloadWritev stm {w with delivered:=[]} payload (UInt32.ofNat payload.length) script).elim 0
      (fun seen => seen.world.delivered.length)+
    ((unread out.stm.buf).length-(unread stm.buf).length)

-- A caller that stored 0 in `*nwrote` still reads 0 when the call stores nothing.
def Tells (stm : Stream) (w : World) (payload : List UInt8) (script : List Answer) (out : Outcome) : Prop :=
  out.ret = -1 → (out.nwrote.getD 0).toNat = payloadTaken stm w payload script out

-- The direct path in numbers, for `buffered` bytes in the buffer and `left` of
-- the payload: how many of the payload go out, and whether the call succeeds.
-- Counts and what is left to write are compared modulo 2^32.
def attempt : List Answer → Nat → Nat → Option (Nat × Bool)
  | [],_,_ => none
  | answer::rest,buffered,left =>
    let taken := min (count answer) (buffered+left)
    let ret := taken % 2^32
    if ret = 0 ∨ ret = 2^32-1 then some (taken-buffered,false)
    else if ret = (buffered+left) % 2^32 then some (taken-buffered,true)
    else (attempt rest (buffered-ret) (left-(ret-buffered))).map fun more => (taken-buffered+more.1,more.2)

-- The call fails before the payload is reached, or not at all.
def Spares (script : List Answer) (buffered left : Nat) : Prop :=
  ∀ n, attempt script buffered left = some (n,false) → n = 0

variable {stm : Stream} {w v : World} {iov : List (List UInt8)} {ravail towrite len : UInt32} {payload : List UInt8}
  {answer : Answer} {script : List Answer} {buffered left : Nat} {out : Outcome}

section Observed

def blind (out : Outcome) : Outcome := {out with world:={out.world with delivered:=[]}}

theorem blind_same {seen : Outcome} (same : blind out = blind seen) :
    out.ret = seen.ret ∧ out.nwrote = seen.nwrote ∧ out.stm = seen.stm := by
  simp only [blind,Outcome.mk.injEq] at same
  exact ⟨same.1,same.2.1,same.2.2.1⟩

theorem report_world (mask : UInt32) (stm : Stream) (w : World) (ret : UInt32) : (report mask stm w ret).2.2.2 = w := by
  unfold report
  split
  · rfl
  · split <;> rfl

theorem report_same (mask : UInt32) (stm : Stream) (ret : UInt32) (same : w.errno = v.errno) :
    report mask stm v ret = ((report mask stm w ret).1,(report mask stm w ret).2.1,(report mask stm w ret).2.2.1,v) := by
  unfold report
  rw [same]
  split
  · rfl
  · split <;> rfl

-- The recording changes nothing the caller of `writev` is told.
theorem payloadWritev_agrees (stm : Stream) (iov : List (List UInt8)) (answer : Answer) (same : w.errno = v.errno) :
    ∃ failed ret stm' w' v', fdWritev stm w iov answer = (failed,ret,stm',w') ∧
      payloadWritev stm v iov answer = (failed,ret,stm',v') ∧ w'.errno = v'.errno := by
  have told : fdWritev stm v iov answer = ((fdWritev stm w iov answer).1,(fdWritev stm w iov answer).2.1,
      (fdWritev stm w iov answer).2.2.1,(writev v iov answer).2) := by
    cases answer with
    | accept n => exact report_same _ stm _ same
    | fail errno => rfl
  have left : (fdWritev stm w iov answer).2.2.2 = (writev w iov answer).2 := report_world ..
  have errnos : (writev w iov answer).2.errno = (writev v iov answer).2.errno := by
    cases answer with
    | accept n => exact same
    | fail errno => rfl
  rcases real : fdWritev stm w iov answer with ⟨failed,ret,stm',w'⟩
  rw [real] at told left
  refine ⟨failed,ret,stm',w',_,rfl,by rw [payloadWritev,told],?_⟩
  exact (congrArg World.errno left).trans errnos

theorem loop_blind (ravail len : UInt32) (script : List Answer) (stm : Stream) (towrite : UInt32) (iov : List (List UInt8))
    (same : w.errno = v.errno) :
    (writeLoopBy payloadWritev ravail len script stm v towrite iov).map blind =
      (writeLoop ravail len script stm w towrite iov).map blind := by
  rw [writeLoop]
  induction script generalizing stm w v towrite iov with
  | nil => rfl
  | cons answer rest ih =>
    obtain ⟨failed,ret,stm',w',v',real,seen,errnos⟩ := payloadWritev_agrees stm iov answer same
    simp only [writeLoopBy,real,seen]
    by_cases wrong : failed = 0
    · rw [if_neg (not_not_intro wrong),if_neg (not_not_intro wrong)]
      by_cases last : ret = towrite
      · rw [if_pos last,if_pos last]
        cases bufferRead stm'.buf false ravail with
        | none => rfl
        | some got => simp only [Option.bind_eq_bind,Option.bind_some,Option.map_some,blind,errnos]
      · rw [if_neg last,if_neg last]
        cases shift stm' ravail ret iov with
        | none => rfl
        | some moved => exact ih _ _ _ errnos
    · rw [if_pos wrong,if_pos wrong]
      rfl

end Observed

section Counted

theorem first_buffered (laid : Laid stm ravail iov payload) : iov.dropLast.flatten = unread stm.buf := by
  rcases laid.layout with rfl | ⟨rfl,empty⟩
  · simp
  · simp [empty]

-- What is recorded of one call is the part of the count past the buffered bytes.
theorem payloadWritev_takes (w : World) (answer : Answer) (laid : Laid stm ravail iov payload) :
    (∃ ret w', payloadWritev stm w iov answer = (0,ret,stm,w') ∧
      ret.toNat = min (count answer) ((unread stm.buf).length+payload.length) % 2^32 ∧
      ¬ (ret.toNat = 0 ∨ ret.toNat = 2^32-1) ∧ w'.delivered.length = w.delivered.length+
        (min (count answer) ((unread stm.buf).length+payload.length)-(unread stm.buf).length)) ∨
    ∃ stm' w', payloadWritev stm w iov answer = (-1,0,stm',w') ∧ stm'.buf = stm.buf ∧
      (min (count answer) ((unread stm.buf).length+payload.length) % 2^32 = 0 ∨
        min (count answer) ((unread stm.buf).length+payload.length) % 2^32 = 2^32-1) ∧
      w'.delivered.length = w.delivered.length+
        (min (count answer) ((unread stm.buf).length+payload.length)-(unread stm.buf).length) := by
  have total : iov.flatten.length = (unread stm.buf).length+payload.length := by rw [laid.flatten,List.length_append]
  have recorded : (w.delivered++(iov.flatten.take (count answer)).drop iov.dropLast.flatten.length).length =
      w.delivered.length+(min (count answer) ((unread stm.buf).length+payload.length)-(unread stm.buf).length) := by
    rw [first_buffered laid,List.length_append,List.length_drop,List.length_take,total]
  rcases fdWritev_takes stm w iov answer with ⟨ret,w',wrote,word,nonzero,readable,_⟩ | ⟨stm',w',failed,buf,_,word,_⟩
  · rw [total] at word
    exact Or.inl ⟨ret,_,by rw [payloadWritev,wrote],word,not_or.mpr ⟨nonzero,readable⟩,recorded⟩
  · rw [total] at word
    exact Or.inr ⟨stm',_,by rw [payloadWritev,failed],buf,word,recorded⟩

-- What the loop does is `attempt`, as long as `towrite` is what is left modulo 2^32.
theorem loop_attempts (len : UInt32) (script : List Answer) (w : World) (laid : Laid stm ravail iov payload)
    (remaining : towrite.toNat = ((unread stm.buf).length+payload.length) % 2^32) :
    attempt script (unread stm.buf).length payload.length = none ∧
      writeLoopBy payloadWritev ravail len script stm w towrite iov = none ∨
    ∃ n ok out, attempt script (unread stm.buf).length payload.length = some (n,ok) ∧
      writeLoopBy payloadWritev ravail len script stm w towrite iov = some out ∧
      out.world.delivered.length = w.delivered.length+n ∧ (unread out.stm.buf).length ≤ (unread stm.buf).length ∧
      (ok = true ∧ out.ret = 0 ∨ ok = false ∧ out.ret = -1 ∧ out.nwrote = none) := by
  induction script generalizing stm w towrite iov payload with
  | nil => exact Or.inl ⟨rfl,rfl⟩
  | cons answer rest ih =>
    rcases payloadWritev_takes w answer laid with ⟨ret,w',wrote,word,reads,told⟩ | ⟨stm',w',failed,buf,word,told⟩
    · by_cases last : ret = towrite
      · obtain ⟨_,_,b,did,_,_,gone,_,_⟩ := bufferRead_spec false ravail laid.valid
        refine Or.inr ⟨_,true,⟨0,some len,{stm with buf:=b},w',rest⟩,?_,?_,told,?_,Or.inl ⟨rfl,rfl⟩⟩
        · rw [attempt,← word,if_neg reads,if_pos (by rw [last,remaining])]
        · simp only [writeLoopBy,wrote,ne_eq,not_true_eq_false,if_false,if_pos last,did,Option.bind_eq_bind,Option.bind_some]
        · rw [gone,List.length_drop]
          exact Nat.sub_le _ _
      · have within : ret.toNat ≤ (unread stm.buf).length+payload.length := by omega
        have different : ret.toNat ≠ ((unread stm.buf).length+payload.length) % 2^32 := by
          rw [← remaining]
          exact fun same => last (UInt32.toNat_inj.mp same)
        obtain ⟨b,iov',shifted,_,buffer,next⟩ := shift_moves laid within
        have less : (towrite-ret).toNat = ((unread b).length+(payload.drop (ret.toNat-(unread stm.buf).length)).length) % 2^32 := by
          rw [buffer,List.length_drop,List.length_drop,UInt32.toNat_sub,remaining]
          omega
        have again : writeLoopBy payloadWritev ravail len (answer::rest) stm w towrite iov =
            writeLoopBy payloadWritev ravail len rest {stm with buf:=b} w' (towrite-ret) iov' := by
          simp only [writeLoopBy,wrote,ne_eq,not_true_eq_false,if_false,if_neg last,shifted,Option.bind_eq_bind,Option.bind_some]
        have outcome := ih w' next less
        rw [buffer,List.length_drop,List.length_drop] at outcome
        rw [again,attempt,← word,if_neg reads,if_neg different]
        rcases outcome with ⟨pending,unfinished⟩ | ⟨n,ok,out,settled,ran,more,shorter,ended⟩
        · exact Or.inl ⟨by rw [pending]; rfl,unfinished⟩
        · exact Or.inr ⟨_,ok,out,by rw [settled]; rfl,ran,by omega,by omega,ended⟩
    · refine Or.inr ⟨_,false,⟨-1,none,stm',{w' with errno:=stm'.lastErr},rest⟩,?_,?_,told,by rw [buf],Or.inr ⟨rfl,rfl,rfl⟩⟩
      · rw [attempt,if_pos word]
      · simp only [writeLoopBy,failed]
        rw [if_pos (by decide)]

-- Without a payload none of it goes out.
theorem attempt_nothing {n : Nat} {ok : Bool} (ran : attempt script buffered 0 = some (n,ok)) : n = 0 := by
  induction script generalizing buffered n ok with
  | nil => cases ran
  | cons answer rest ih =>
    simp only [attempt] at ran
    split at ran
    · cases Option.some.inj ran
      omega
    · split at ran
      · cases Option.some.inj ran
        omega
      · obtain ⟨⟨m,ok'⟩,tail,same⟩ := Option.map_eq_some_iff.mp ran
        rw [Nat.zero_sub] at tail
        have none_later := ih tail
        cases same
        omega

-- Below 2^32-1 bytes in all nothing wraps and no count reads as a failure.
theorem attempt_transfer (positive : 0 < buffered+left) (room : buffered+left+1 < 2^32) :
    attempt script buffered left =
      (transfer count script (buffered+left)).map fun taken => (taken.1-buffered,decide (taken.1 = buffered+left)) := by
  induction script generalizing buffered left with
  | nil => rfl
  | cons answer rest ih =>
    have same : min (count answer) (buffered+left) % 2^32 = min (count answer) (buffered+left) := Nat.mod_eq_of_lt (by omega)
    have all : (buffered+left) % 2^32 = buffered+left := Nat.mod_eq_of_lt (by omega)
    simp only [attempt,same,all]
    by_cases nothing : count answer = 0
    · rw [transfer_refused nothing,if_pos (by omega)]
      simp [nothing]
      omega
    · rw [if_neg (by omega)]
      by_cases enough : buffered+left ≤ count answer
      · rw [transfer_whole positive enough,if_pos (by omega),Nat.min_eq_right enough]
        simp
      · have taken : min (count answer) (buffered+left) = count answer := by omega
        have rest_left : buffered-count answer+(left-(count answer-buffered)) = buffered+left-count answer := by omega
        rw [transfer_part (by omega) (by omega),if_neg (by omega),taken,ih (by omega) (by omega),rest_left,Option.map_map,
          Option.map_map]
        congr 1
        funext more
        simp only [Function.comp_apply,Prod.mk.injEq,decide_eq_decide]
        omega

theorem spares_iff (room : buffered+left+1 < 2^32) :
    Spares script buffered left ↔ ∀ n unused, transfer count script (buffered+left) = some (n,unused) → n ≤ buffered ∨ n = buffered+left := by
  by_cases nothing : left = 0
  · subst nothing
    exact iff_of_true (fun n ran => attempt_nothing ran) (fun n unused ran => Or.inl (transfer_le ran))
  · rw [Spares,attempt_transfer (by omega) room]
    constructor
    · intro spares n unused ran
      by_cases whole : n = buffered+left
      · exact Or.inr whole
      · have none_reached := spares (n-buffered) (by rw [ran]; simp [whole])
        omega
    · intro spares n ran
      obtain ⟨⟨m,unused⟩,settled,same⟩ := Option.map_eq_some_iff.mp ran
      simp only [Prod.mk.injEq,decide_eq_false_iff_not] at same
      have bound := spares m unused settled
      omega

end Counted

section Calls

-- A call that passes the length test, finds the lock free and does not copy.
structure Direct (stm : Stream) (payload : List UInt8) : Prop where
  valid : Valid stm.buf
  short : payload.length < 2^32
  free : stm.lock = 0
  nonempty : payload ≠ []
  full : (bufferSpace stm.buf).toNat ≤ payload.length

theorem Direct.opened (direct : Direct stm payload) (writev : Writev) (w : World) (script : List Answer) :
    streamWriteBy writev stm w payload (UInt32.ofNat payload.length) script =
      (writeLoopBy writev (bufferAvail stm.buf) (UInt32.ofNat payload.length) script {stm with lock:=1} w
        (UInt32.ofNat ((unread stm.buf).length+payload.length)) [unread stm.buf,payload]).map
          fun out => {out with stm:=streamUnlock out.stm} := by
  have word := length_word direct.short
  have nonzero := (word_nonzero direct.short).mpr direct.nonempty
  have past : ¬ (UInt32.ofNat payload.length ≠ 0 ∧ UInt32.ofNat payload.length < bufferSpace stm.buf) := by
    rw [copied_iff direct.short]
    exact fun copied => absurd direct.full (Nat.not_le.mpr copied.2)
  have lockedValid : Valid ({stm with lock:=1} : Stream).buf := direct.valid
  rw [writeBy_locked writev w script direct.free nonzero,rawBy_loop writev w script lockedValid past word.symm]

theorem Direct.write_blind (direct : Direct stm payload) (script : List Answer) (same : w.errno = v.errno) :
    (streamWriteBy payloadWritev stm v payload (UInt32.ofNat payload.length) script).map blind =
      (streamWrite stm w payload (UInt32.ofNat payload.length) script).map blind := by
  have agree := congrArg (Option.map fun out : Outcome => {out with stm:=streamUnlock out.stm})
    (loop_blind (bufferAvail stm.buf) (UInt32.ofNat payload.length) script {stm with lock:=1}
      (UInt32.ofNat ((unread stm.buf).length+payload.length)) [unread stm.buf,payload] same)
  rw [Option.map_map,Option.map_map] at agree
  rw [streamWrite,direct.opened,direct.opened,Option.map_map,Option.map_map]
  exact agree

theorem Direct.recorded (direct : Direct stm payload) (w : World) (script : List Answer) :
    attempt script (unread stm.buf).length payload.length = none ∧
      streamWriteBy payloadWritev stm w payload (UInt32.ofNat payload.length) script = none ∨
    ∃ n ok out, attempt script (unread stm.buf).length payload.length = some (n,ok) ∧
      streamWriteBy payloadWritev stm w payload (UInt32.ofNat payload.length) script = some out ∧
      out.world.delivered.length = w.delivered.length+n ∧ (unread out.stm.buf).length ≤ (unread stm.buf).length ∧
      (ok = true ∧ out.ret = 0 ∨ ok = false ∧ out.ret = -1 ∧ out.nwrote = none) := by
  have word : (UInt32.ofNat ((unread stm.buf).length+payload.length)).toNat =
      ((unread stm.buf).length+payload.length) % 2^32 := UInt32.toNat_ofNat'
  have laid : Laid {stm with lock:=1} (bufferAvail stm.buf) [unread stm.buf,payload] payload :=
    @Laid.start {stm with lock:=1} direct.valid payload
  rw [direct.opened]
  rcases loop_attempts (UInt32.ofNat payload.length) script w laid word with
    ⟨pending,unfinished⟩ | ⟨n,ok,out,settled,ran,told,shorter,ended⟩
  · exact Or.inl ⟨pending,by rw [unfinished]; rfl⟩
  · exact Or.inr ⟨n,ok,{out with stm:=streamUnlock out.stm},settled,by rw [ran]; rfl,told,shorter,ended⟩

-- Such a write does what `attempt` says, in what it returns and in what the
-- payload loses.
theorem Direct.attempts (direct : Direct stm payload) (w : World) (script : List Answer) :
    attempt script (unread stm.buf).length payload.length = none ∧
      streamWrite stm w payload (UInt32.ofNat payload.length) script = none ∨
    ∃ n ok out, attempt script (unread stm.buf).length payload.length = some (n,ok) ∧
      streamWrite stm w payload (UInt32.ofNat payload.length) script = some out ∧
      payloadTaken stm w payload script out = n ∧ (ok = true ∧ out.ret = 0 ∨ ok = false ∧ out.ret = -1 ∧ out.nwrote = none) := by
  have same : w.errno = ({w with delivered:=[]} : World).errno := rfl
  have agree := direct.write_blind script same
  rcases direct.recorded {w with delivered:=[]} script with
    ⟨pending,unfinished⟩ | ⟨n,ok,seen,settled,ran,told,shorter,ended⟩
  · rw [unfinished,Option.map_none,eq_comm,Option.map_eq_none_iff] at agree
    exact Or.inl ⟨pending,agree⟩
  · rw [ran,Option.map_some,eq_comm] at agree
    obtain ⟨out,real,blinded⟩ := Option.map_eq_some_iff.mp agree
    obtain ⟨ret,nwrote,left⟩ := blind_same blinded
    refine Or.inr ⟨n,ok,out,settled,real,?_,by rw [ret,nwrote]; exact ended⟩
    rw [payloadTaken,ran,left,Nat.sub_eq_zero_of_le shorter]
    exact told.trans (Nat.zero_add n)

-- An empty write and a copied one return 0.
theorem failed_write (short : payload.length < 2^32) (failed : out.ret = -1)
    (ran : streamWrite stm w payload (UInt32.ofNat payload.length) script = some out) :
    stm.lock = 0 ∧ payload ≠ [] ∧ (bufferSpace stm.buf).toNat ≤ payload.length := by
  rcases write_inversion short ran with ⟨_,rfl⟩ | ⟨nonempty,free,inner,rfl,raw⟩
  · cases failed
  · refine ⟨free,nonempty,?_⟩
    by_contra fits
    have copies := (copied_iff short).mpr ⟨nonempty,Nat.not_le.mp fits⟩
    rw [streamWriteRaw,streamWriteRawBy,if_pos copies] at raw
    obtain ⟨_,_,raw⟩ := Option.bind_eq_some_iff.mp raw
    cases Option.some.inj raw
    cases failed

end Calls

theorem failed_write_tells_iff (valid : Valid stm.buf) (short : payload.length < 2^32) :
    ((∀ out, streamWrite stm w payload (UInt32.ofNat payload.length) script = some out → Tells stm w payload script out) ↔
      stm.lock ≠ 0 ∨ payload.length < (bufferSpace stm.buf).toNat ∨ Spares script (unread stm.buf).length payload.length) ∧
    ((unread stm.buf).length+payload.length+1 < 2^32 →
      (Spares script (unread stm.buf).length payload.length ↔
        ∀ n unused, transfer count script ((unread stm.buf).length+payload.length) = some (n,unused) →
          n ≤ (unread stm.buf).length ∨ n = (unread stm.buf).length+payload.length)) := by
  refine ⟨⟨?_,?_⟩,spares_iff⟩
  · intro tells
    by_cases free : stm.lock = 0
    · by_cases copied : payload.length < (bufferSpace stm.buf).toNat
      · exact Or.inr (Or.inl copied)
      · refine Or.inr (Or.inr ?_)
        intro n reached
        by_cases empty : payload = []
        · subst empty
          exact attempt_nothing reached
        · rcases Direct.attempts ⟨valid,short,free,empty,Nat.not_lt.mp copied⟩ w script with
            ⟨pending,_⟩ | ⟨m,ok,out,settled,ran,taken,⟨rfl,_⟩ | ⟨rfl,failed,untold⟩⟩
          · cases pending.symm.trans reached
          · cases settled.symm.trans reached
          · cases Option.some.inj (settled.symm.trans reached)
            have told := tells out ran failed
            rw [untold,taken] at told
            exact told.symm
    · exact Or.inl free
  · intro spared out ran failed
    obtain ⟨free,nonempty,direct⟩ := failed_write short failed ran
    rcases spared with held | copied | spares
    · exact absurd free held
    · omega
    · rcases Direct.attempts ⟨valid,short,free,nonempty,direct⟩ w script with
        ⟨_,unfinished⟩ | ⟨n,ok,out',settled,ran',taken,⟨rfl,good⟩ | ⟨rfl,_,untold⟩⟩
      · cases ran.symm.trans unfinished
      · cases Option.some.inj (ran.symm.trans ran')
        cases good.symm.trans failed
      · cases Option.some.inj (ran.symm.trans ran')
        rw [untold,taken,spares n settled]
        rfl

-- The buffered bytes go out and the payload is not reached.
theorem unreached_payload_told : unread halfFull.buf = [97,98] ∧
    (∃ out, streamWrite halfFull ⟨[],0⟩ [99,100] 2 [.accept 2,.fail EAGAIN] = some out ∧ out.ret = -1) ∧
    ∀ out, streamWrite halfFull ⟨[],0⟩ [99,100] 2 [.accept 2,.fail EAGAIN] = some out →
      Tells halfFull ⟨[],0⟩ [99,100] [.accept 2,.fail EAGAIN] out := by
  have valid : Valid halfFull.buf := ⟨rfl,by decide,Or.inl (by decide)⟩
  have short : ([99,100] : List UInt8).length < 2^32 := by decide
  refine ⟨by decide,⟨_,rfl,rfl⟩,?_⟩
  refine (failed_write_tells_iff valid short).1.mpr (Or.inr (Or.inr ?_))
  refine ((failed_write_tells_iff (w:=⟨[],0⟩) valid short).2 (by decide)).mpr ?_
  intro n unused settled
  have taken : transfer count [.accept 2,.fail EAGAIN] 4 = some (2,[]) := rfl
  cases Option.some.inj (taken.symm.trans settled)
  exact Or.inl (by decide)

-- One of two payload bytes goes out and `*nwrote` stays 0: writing the payload
-- again sends that byte twice.
theorem taken_byte_untold : streamNew 8192 true true true = some bareStream ∧
    ∃ out, streamWrite bareStream ⟨[],0⟩ [97,98] 2 [.accept 1,.fail EAGAIN] = some out ∧ out.ret = -1 ∧ out.nwrote = none ∧
      out.world.delivered = [97] ∧ unread out.stm.buf = [] ∧
      payloadTaken bareStream ⟨[],0⟩ [97,98] [.accept 1,.fail EAGAIN] out = 1 ∧
      ¬ Tells bareStream ⟨[],0⟩ [97,98] [.accept 1,.fail EAGAIN] out ∧
      (streamWrite out.stm out.world [97,98] 2 [.accept 2]).map (fun again => again.world.delivered) = some [97,97,98] := by
  refine ⟨rfl,_,rfl,rfl,rfl,rfl,rfl,rfl,?_,by decide⟩
  intro told
  cases told rfl

end EventLib.FailedWrite

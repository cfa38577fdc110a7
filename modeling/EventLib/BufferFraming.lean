import EventLib.Buffer
import EventLib.LabelledRuns

namespace EventLib.BufferFraming
open ByteBlock ByteBuffer LabelledRuns RecordSplit

inductive Action where
  | deliver (chunk : List UInt8)
  | extend (len : UInt32) (grant : Grant)
  | yield

structure Session where
  buffer : Buffer
  delivered : List UInt8
  yielded : List (List UInt8)
deriving DecidableEq

def start (b : Buffer) : Session := ⟨b,[],[]⟩

-- A record is what the returned pointer and length denote right after the call.
def step (delim : List UInt8) (s : Session) : Action → Option Session
  | .deliver chunk => do
    let stored ← storeAtWpos s.buffer chunk
    let (_,c) ← bufferWrite stored none (UInt32.ofNat chunk.length) none
    some {s with buffer:=c,delivered:=s.delivered++chunk}
  | .extend len grant => do
    let (_,c) ← bufferExtend s.buffer len grant
    some {s with buffer:=c}
  | .yield => do
    let (got,c) ← bufferYield s.buffer delim (UInt32.ofNat delim.length)
    match got with
    | none => some {s with buffer:=c}
    | some (ret,off) =>
      let record ← load c.buf ret.toNat off.toNat
      some {s with buffer:=c,yielded:=s.yielded++[record]}

def Allowed (s : Session) : Action → Prop
  | .deliver chunk => chunk.length ≤ (bufferSpace s.buffer).toNat
  | .extend len _ => 1 ≤ len.toNat ∧ s.buffer.wpos.toNat+len.toNat < 2^32
  | .yield => True

instance (s : Session) (action : Action) : Decidable (Allowed s action) :=
  match action with
  | .deliver chunk => inferInstanceAs (Decidable (chunk.length ≤ (bufferSpace s.buffer).toNat))
  | .extend len _ => inferInstanceAs (Decidable (1 ≤ len.toNat ∧ s.buffer.wpos.toNat+len.toNat < 2^32))
  | .yield => isTrue trivial

def Action.chunk : Action → List UInt8
  | .deliver chunk => chunk
  | _ => []

structure Framed (delim : List UInt8) (s : Session) : Prop where
  valid : Valid s.buffer
  each : ∀ record ∈ s.yielded, EndsAtFirst delim record
  whole : s.yielded.flatten ++ unread s.buffer = s.delivered

variable {delim : List UInt8} {s next : Session}

theorem deliver_framed {chunk : List UInt8} (framed : Framed delim s)
    (within : chunk.length ≤ (bufferSpace s.buffer).toNat) :
    ∃ next, step delim s (.deliver chunk) = some next ∧ Framed delim next ∧
      next.delivered = s.delivered ++ chunk := by
  have bound := (bufferSpace s.buffer).toNat_lt
  have word := length_word (Nat.lt_of_le_of_lt within bound)
  obtain ⟨stored,c,put,committed,cvalid,view,_⟩ :=
    deliver_spec none framed.valid chunk word.symm (by rw [word]; exact within)
  refine ⟨⟨c,s.delivered++chunk,s.yielded⟩,?_,⟨cvalid,framed.each,?_⟩,rfl⟩
  · simp only [step,put,committed,Option.bind_eq_bind,Option.bind_some]
  · show s.yielded.flatten ++ unread c = s.delivered ++ chunk
    rw [view,← List.append_assoc,framed.whole]

theorem extend_framed {len : UInt32} (grant : Grant) (framed : Framed delim s)
    (positive : 1 ≤ len.toNat) (fits : s.buffer.wpos.toNat+len.toNat < 2^32) :
    ∃ next, step delim s (.extend len grant) = some next ∧ Framed delim next ∧ next.delivered = s.delivered := by
  obtain ⟨ret,c,ran,cvalid,same,_⟩ := bufferExtend_spec grant framed.valid.bounded positive (by omega)
  refine ⟨⟨c,s.delivered,s.yielded⟩,?_,⟨cvalid,framed.each,?_⟩,rfl⟩
  · simp only [step,ran,Option.bind_eq_bind,Option.bind_some]
  · exact (congrArg (s.yielded.flatten ++ ·) same).trans framed.whole

theorem yield_framed (framed : Framed delim s) (short : delim.length < 2^32) :
    ∃ next, step delim s .yield = some next ∧ Framed delim next ∧ next.delivered = s.delivered := by
  have word := length_word short
  obtain ⟨got,c,ran,cvalid,_,outcome⟩ := bufferYield_spec framed.valid word.symm
  rcases outcome with ⟨_,rfl,rfl⟩ | ⟨i,ret,off,found,rfl,length,loaded,rest⟩
  · refine ⟨s,?_,framed,rfl⟩
    simp only [step,ran,Option.bind_eq_bind,Option.bind_some]
  · refine ⟨⟨c,s.delivered,s.yielded++[(unread s.buffer).take off.toNat]⟩,?_,⟨cvalid,?_,?_⟩,rfl⟩
    · simp only [step,ran,loaded,Option.bind_eq_bind,Option.bind_some]
    · intro record member
      rcases List.mem_append.mp member with old | new
      · exact framed.each record old
      · rw [List.mem_singleton.mp new,length]
        exact endsAtFirst_take found
    · show (s.yielded++[(unread s.buffer).take off.toNat]).flatten ++ unread c = s.delivered
      rw [List.flatten_append,List.flatten_singleton,List.append_assoc,rest,List.take_append_drop]
      exact framed.whole

theorem step_framed {action : Action} (framed : Framed delim s) (short : delim.length < 2^32)
    (allowed : Allowed s action) :
    ∃ next, step delim s action = some next ∧ Framed delim next ∧ next.delivered = s.delivered ++ action.chunk := by
  cases action with
  | deliver chunk => exact deliver_framed framed allowed
  | extend len grant =>
    obtain ⟨next,ran,valid,same⟩ := extend_framed grant framed allowed.1 allowed.2
    exact ⟨next,ran,valid,same.trans (List.append_nil _).symm⟩
  | yield =>
    obtain ⟨next,ran,valid,same⟩ := yield_framed framed short
    exact ⟨next,ran,valid,same.trans (List.append_nil _).symm⟩

theorem run_framed {actions : List Action} (framed : Framed delim s) (short : delim.length < 2^32)
    (allowed : Along (step delim) Allowed s actions) :
    ∃ last, exec (step delim) s actions = some last ∧ Framed delim last ∧
      last.delivered = s.delivered ++ actions.flatMap Action.chunk := by
  induction actions generalizing s with
  | nil => exact ⟨s,rfl,framed,(List.append_nil _).symm⟩
  | cons action rest ih =>
    obtain ⟨next,ran,valid,grown⟩ := step_framed framed short allowed.1
    obtain ⟨last,tail,final,total⟩ := ih valid (allowed.2 next ran)
    refine ⟨last,exec_cons.mpr ⟨next,ran,tail⟩,final,?_⟩
    rw [total,grown,List.flatMap_cons,List.append_assoc]

-- Nothing in the invariant mentions the chunks: records already cut stay the
-- records of every text that extends what was delivered.
theorem framed_records (framed : Framed delim s) (nonempty : 0 < delim.length) (text : List UInt8)
    (delivered : s.delivered <+: text) : s.yielded <+: records delim text := by
  obtain ⟨future,rfl⟩ := delivered
  rw [← framed.whole,List.append_assoc,records_flatten nonempty framed.each]
  exact List.prefix_append _ _

theorem refused_yield {c : Buffer} (framed : Framed delim s) (short : delim.length < 2^32)
    (nonempty : 0 < delim.length)
    (refused : bufferYield s.buffer delim (UInt32.ofNat delim.length) = some (none,c)) :
    s.yielded = records delim s.delivered ∧ ¬ delim <:+: unread s.buffer := by
  have word := length_word short
  obtain ⟨got,d,ran,_,_,outcome⟩ := bufferYield_spec framed.valid word.symm
  rw [refused] at ran
  cases Option.some.inj ran
  rcases outcome with ⟨absent,_,_⟩ | ⟨_,_,_,_,impossible,_⟩
  · have clean := firstMatch_none.mp absent
    exact ⟨by rw [← framed.whole,records_exact nonempty framed.each clean],clean⟩
  · cases impossible

theorem framing_ignores_chunks {b : Buffer} {actions : List Action} (valid : Valid b) (empty : unread b = [])
    (nonempty : 1 ≤ delim.length) (short : delim.length < 2^32)
    (allowed : Along (step delim) Allowed (start b) actions) :
    ∃ last, exec (step delim) (start b) actions = some last ∧
      last.delivered = actions.flatMap Action.chunk ∧
      last.yielded.flatten ++ unread last.buffer = last.delivered ∧
      ∀ text, last.delivered <+: text → last.yielded <+: records delim text ∧
        ∀ c, bufferYield last.buffer delim (UInt32.ofNat delim.length) = some (none,c) → last.delivered = text →
          last.yielded = records delim text ∧ ¬ delim <:+: unread last.buffer := by
  have initial : Framed delim (start b) := ⟨valid,fun _ member => absurd member List.not_mem_nil,empty⟩
  obtain ⟨last,ran,framed,total⟩ := run_framed initial short allowed
  refine ⟨last,ran,total,framed.whole,?_⟩
  intro text delivered
  refine ⟨framed_records framed nonempty text delivered,?_⟩
  intro c refused all
  rw [← all]
  exact refused_yield framed short nonempty refused

def smallBuffer : Buffer := ⟨[0,0,0],3,0,0⟩

-- The two-byte delimiter straddles a chunk boundary, a growth and a compaction.
def straddling : List Action :=
  [.deliver [97,13],.yield,.extend 4 (some fun _ => 7),.deliver [10,98,13],.yield,.extend 3 none,.deliver [10],.yield]

theorem framing_ignores_chunks_straddling :
    Along (step [13,10]) Allowed (start smallBuffer) straddling ∧
    ∃ last, exec (step [13,10]) (start smallBuffer) straddling = some last ∧
      last.yielded <+: records [13,10] [97,13,10,98,13,10,99] := by
  have allowed : Along (step [13,10]) Allowed (start smallBuffer) straddling := by decide
  have valid : Valid smallBuffer := ⟨rfl,by decide,Or.inr ⟨rfl,rfl⟩⟩
  obtain ⟨last,ran,total,_,split⟩ := framing_ignores_chunks valid rfl (by decide) (by decide) allowed
  exact ⟨allowed,last,ran,(split _ (by rw [total]; decide)).1⟩

end EventLib.BufferFraming

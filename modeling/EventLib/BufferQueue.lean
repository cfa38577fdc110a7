import EventLib.Buffer
import EventLib.LabelledRuns

namespace EventLib.BufferQueue
open ByteBuffer LabelledRuns

-- `fresh` is what the allocator leaves in the grown part; every allocation of
-- these runs succeeds. A NULL destination of a read discards the bytes.
inductive Call where
  | write (mem : List UInt8) (fresh : Nat → UInt8)
  | read (mem : Bool) (len : UInt32)
  | avail

structure Session where
  buffer : Buffer
  written : List UInt8
  taken : List UInt8
deriving DecidableEq

def start (b : Buffer) : Session := ⟨b,[],[]⟩

def step (s : Session) : Call → Option Session
  | .write mem fresh =>
    (bufferWrite s.buffer (some mem) (UInt32.ofNat mem.length) (some fresh)).map fun result =>
      {s with buffer:=result.2,written:=s.written++mem}
  | .read mem len =>
    (bufferRead s.buffer mem len).map fun result =>
      {s with buffer:=result.2.2,taken:=s.taken++(if mem then result.2.1 else (unread s.buffer).take len.toNat)}
  | .avail => some s

def Fits (s : Session) : Call → Prop
  | .write mem _ => s.buffer.wpos.toNat+mem.length < 2^32
  | _ => True

instance (s : Session) (call : Call) : Decidable (Fits s call) :=
  match call with
  | .write mem _ => inferInstanceAs (Decidable (s.buffer.wpos.toNat+mem.length < 2^32))
  | .read _ _ => isTrue trivial
  | .avail => isTrue trivial

def Appends (b : Buffer) (mem : List UInt8) (fresh : Nat → UInt8) : Prop :=
  ∃ c, bufferWrite b (some mem) (UInt32.ofNat mem.length) (some fresh) = some (UInt32.ofNat mem.length,c) ∧
    unread c = unread b ++ mem

def TakesOldest (b : Buffer) (mem : Bool) (len : UInt32) : Prop :=
  ∃ nread copied c, bufferRead b mem len = some (nread,copied,c) ∧
    nread.toNat = min len.toNat (unread b).length ∧ (mem = true → copied = (unread b).take len.toNat) ∧
    unread c = (unread b).drop len.toNat

-- The queue law asked of one call, in the state before it.
def Fifo (s : Session) : Call → Prop
  | .write mem fresh => Appends s.buffer mem fresh
  | .read mem len => TakesOldest s.buffer mem len
  | .avail => (bufferAvail s.buffer).toNat+s.taken.length = s.written.length

def FifoAnyBytes (s : Session) : Call → Prop
  | .write mem fresh => ∀ bytes, bytes.length = mem.length → Appends s.buffer bytes fresh
  | call => Fifo s call

def Drained (s : Session) : Call → Prop
  | .write mem _ => mem = [] ∨ bufferAvail s.buffer = 0
  | _ => True

instance (s : Session) (call : Call) : Decidable (Drained s call) :=
  match call with
  | .write mem _ => inferInstanceAs (Decidable (mem = [] ∨ bufferAvail s.buffer = 0))
  | .read _ _ => isTrue trivial
  | .avail => isTrue trivial

structure Balanced (s : Session) : Prop where
  valid : Valid s.buffer
  balance : s.taken ++ unread s.buffer = s.written

theorem write_lands {b : Buffer} {mem : List UInt8} (fresh : Nat → UInt8) (valid : Valid b)
    (fits : b.wpos.toNat+mem.length < 2^32) :
    ∃ c tail, bufferWrite b (some mem) (UInt32.ofNat mem.length) (some fresh) = some (UInt32.ofNat mem.length,c) ∧
      Valid c ∧ tail.length = mem.length ∧ unread c = mem ++ (unread b++tail).drop mem.length := by
  have word := length_word (show mem.length < 2^32 by omega)
  obtain ⟨ret,c,ran,cvalid,outcome⟩ :=
    bufferWrite_spec (some fresh) valid (by rw [word]; exact fits) mem word.symm
  rw [word] at outcome
  rcases outcome with ⟨rfl,tail,length,landed⟩ | ⟨_,refused,_⟩
  · exact ⟨c,tail,ran,cvalid,length,landed⟩
  · cases refused

theorem write_appends {b : Buffer} {mem : List UInt8} (fresh : Nat → UInt8) (valid : Valid b)
    (fits : b.wpos.toNat+mem.length < 2^32) (drained : mem = [] ∨ bufferAvail b = 0) : Appends b mem fresh := by
  obtain ⟨c,tail,ran,_,length,landed⟩ := write_lands fresh valid fits
  refine ⟨c,ran,?_⟩
  rcases drained with rfl | zero
  · have none_after : tail = [] := List.length_eq_zero_iff.mp length
    simpa [none_after] using landed
  · have empty := valid.avail_zero.mp zero
    have past : tail.drop mem.length = [] := by rw [List.drop_eq_nil_iff,length]
    simpa [empty,past] using landed

-- A payload whose first byte differs from the oldest unread byte shows the overwrite.
theorem appends_any_iff {b : Buffer} {n : Nat} (fresh : Nat → UInt8) (valid : Valid b)
    (fits : b.wpos.toNat+n < 2^32) :
    (∀ bytes : List UInt8, bytes.length = n → Appends b bytes fresh) ↔ n = 0 ∨ bufferAvail b = 0 := by
  constructor
  · intro always
    cases n with
    | zero => exact Or.inl rfl
    | succ n =>
      right
      rw [valid.avail_zero]
      cases oldest : unread b with
      | nil => rfl
      | cons x rest =>
        have length : (List.replicate (n+1) (x+1)).length = n+1 := List.length_replicate
        obtain ⟨c,ran,appended⟩ := always _ length
        obtain ⟨d,tail,ran',_,_,landed⟩ := write_lands fresh valid (by rw [length]; exact fits)
        cases Option.some.inj (ran.symm.trans ran')
        rw [landed,oldest,List.replicate_succ,List.cons_append,List.cons_append] at appended
        have head : x+1 = x := (List.cons.inj appended).1
        exact absurd head (by simp)
  · intro drained bytes length
    apply write_appends fresh valid (by rw [length]; exact fits)
    rcases drained with zero | zero
    · exact Or.inl (List.length_eq_zero_iff.mp (length.trans zero))
    · exact Or.inr zero

theorem read_takes {b : Buffer} (mem : Bool) (len : UInt32) (valid : Valid b) : TakesOldest b mem len := by
  obtain ⟨nread,copied,c,ran,_,count,rest,bytes,_⟩ := bufferRead_spec mem len valid
  exact ⟨nread,copied,c,ran,count,fun wanted => by simpa [wanted] using bytes,rest⟩

theorem avail_balanced {s : Session} (balanced : Balanced s) :
    (bufferAvail s.buffer).toNat+s.taken.length = s.written.length := by
  rw [balanced.valid.avail_exact,← balanced.balance,List.length_append,Nat.add_comm]

theorem drained_fifo {s : Session} {call : Call} (balanced : Balanced s) (fits : Fits s call)
    (drained : Drained s call) : Fifo s call := by
  cases call with
  | write mem fresh => exact write_appends fresh balanced.valid fits drained
  | read mem len => exact read_takes mem len balanced.valid
  | avail => exact avail_balanced balanced

theorem any_bytes_exact {s : Session} {call : Call} (balanced : Balanced s) (fits : Fits s call) :
    FifoAnyBytes s call ↔ Drained s call := by
  cases call with
  | write mem fresh =>
    have same := appends_any_iff fresh balanced.valid fits
    rw [List.length_eq_zero_iff] at same
    exact same
  | read mem len => exact ⟨fun _ => trivial,fun _ => read_takes mem len balanced.valid⟩
  | avail => exact ⟨fun _ => trivial,fun _ => avail_balanced balanced⟩

theorem step_balanced {s next : Session} {call : Call} (balanced : Balanced s) (fits : Fits s call)
    (fifo : Fifo s call) (ran : step s call = some next) : Balanced next := by
  cases call with
  | write mem fresh =>
    obtain ⟨c,wrote,appended⟩ := fifo
    obtain ⟨d,_,wrote',dvalid,_,_⟩ := write_lands fresh balanced.valid fits
    cases Option.some.inj (wrote.symm.trans wrote')
    rw [step,wrote] at ran
    cases Option.some.inj ran
    refine ⟨dvalid,?_⟩
    show s.taken ++ unread c = s.written ++ mem
    rw [appended,← balanced.balance,List.append_assoc]
  | read mem len =>
    obtain ⟨nread,copied,c,did,cvalid,_,rest,bytes,_⟩ := bufferRead_spec mem len balanced.valid
    rw [step,did] at ran
    cases Option.some.inj ran
    refine ⟨cvalid,?_⟩
    show (s.taken ++ if mem then copied else (unread s.buffer).take len.toNat) ++ unread c = s.written
    have oldest : (if mem then copied else (unread s.buffer).take len.toNat) = (unread s.buffer).take len.toNat := by
      cases mem with
      | true => exact bytes
      | false => rfl
    rw [oldest,rest,List.append_assoc,List.take_append_drop]
    exact balanced.balance
  | avail =>
    cases Option.some.inj ran
    exact balanced

theorem step_progress {s : Session} {call : Call} (balanced : Balanced s) (fits : Fits s call) :
    ∃ next, step s call = some next := by
  cases call with
  | write mem fresh =>
    obtain ⟨c,_,wrote,_⟩ := write_lands fresh balanced.valid fits
    exact ⟨_,by rw [step,wrote]; rfl⟩
  | read mem len =>
    obtain ⟨_,_,_,did,_⟩ := bufferRead_spec mem len balanced.valid
    exact ⟨_,by rw [step,did]; rfl⟩
  | avail => exact ⟨s,rfl⟩

theorem start_balanced {size : UInt32} {header block : Bool} {b : Buffer}
    (made : bufferNew size header block = some b) : Balanced (start b) := by
  obtain ⟨valid,empty,_⟩ := bufferNew_valid made
  exact ⟨valid,empty⟩

-- A run whose non-empty writes all find the buffer drained is a run of the
-- queue, and no weaker condition on the lengths makes it one for all bytes.
theorem drained_writes_are_fifo {size : UInt32} {header block : Bool} {b : Buffer} {calls : List Call}
    (made : bufferNew size header block = some b) (fits : Along step Fits (start b) calls) :
    (Along step Drained (start b) calls → Along step Fifo (start b) calls ∧
      ∃ last, exec step (start b) calls = some last ∧ last.taken ++ unread last.buffer = last.written) ∧
    (Along step FifoAnyBytes (start b) calls ↔ Along step Drained (start b) calls) := by
  have initial := start_balanced made
  refine ⟨?_,?_⟩
  · intro drained
    have both := along_and.mpr ⟨fits,drained⟩
    refine ⟨along_guarded ?_ ?_ initial both,?_⟩
    · intro s call next balanced good ran
      exact step_balanced balanced good.1 (drained_fifo balanced good.1 good.2) ran
    · intro s call balanced good
      exact drained_fifo balanced good.1 good.2
    · have total : ∃ last, exec step (start b) calls = some last ∧ Balanced last := by
        refine exec_total ?_ initial both
        intro s call balanced good
        obtain ⟨next,ran⟩ := step_progress balanced good.1
        exact ⟨next,ran,step_balanced balanced good.1 (drained_fifo balanced good.1 good.2) ran⟩
      obtain ⟨last,ran,balanced⟩ := total
      exact ⟨last,ran,balanced.balance⟩
  · refine along_iff ?_ ?_ initial fits
    · intro s call balanced fit
      exact any_bytes_exact balanced fit
    · intro s call next balanced fit any ran
      exact step_balanced balanced fit (drained_fifo balanced fit ((any_bytes_exact balanced fit).mp any)) ran

def drainedCalls : List Call :=
  [.write [97,98] zeroes,.avail,.read true 1,.read false 5,.write [99] zeroes,.read true 1]

theorem drained_writes_witness : Along step Fits (start emptyBuffer) drainedCalls ∧
    Along step Drained (start emptyBuffer) drainedCalls ∧ Along step Fifo (start emptyBuffer) drainedCalls := by
  have made : bufferNew 4 true true = some emptyBuffer := rfl
  have fits : Along step Fits (start emptyBuffer) drainedCalls := by decide
  have drained : Along step Drained (start emptyBuffer) drainedCalls := by decide
  exact ⟨fits,drained,((drained_writes_are_fifo made fits).1 drained).1⟩

def overwritingCalls : List Call := [.write [97,98] zeroes,.write [99] zeroes,.read true 3]

-- The second write lands on the first: `ab` then `c` is read back as `c`,`b`
-- and a byte nobody wrote.
theorem second_write_overwrites : bufferNew 4 true true = some emptyBuffer ∧
    Along step Fits (start emptyBuffer) overwritingCalls ∧ ¬ Along step Fifo (start emptyBuffer) overwritingCalls ∧
    exec step (start emptyBuffer) overwritingCalls = some ⟨⟨[99,98,0],3,0,0⟩,[97,98,99],[99,98,0]⟩ := by
  refine ⟨rfl,by decide,?_,by decide⟩
  intro fifo
  have first : step (start emptyBuffer) (.write [97,98] zeroes) = some ⟨⟨[97,98],2,0,2⟩,[97,98],[]⟩ := by decide
  have second := ((along_cons first).mp fifo).2.1
  obtain ⟨c,wrote,appended⟩ := second
  have really : bufferWrite ⟨[97,98],2,0,2⟩ (some [99]) 1 (some zeroes) = some (1,⟨[99,98,0],3,0,3⟩) := by decide
  cases Option.some.inj (wrote.symm.trans really)
  exact absurd appended (by decide)

end EventLib.BufferQueue

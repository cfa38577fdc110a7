import EventLib.StreamDirect
import EventLib.StreamSeek

namespace EventLib.FileStream
open ByteBuffer Events Streams StreamInput StreamDirect StreamSeek PartialTransfer LabelledRuns Errnos

def stmBufSizeP : UInt32 := 13

structure Opening where
  stm : Option Stream
  held : List Nat
  errno : Int
deriving DecidableEq

def streamFdOpen (bufsize : UInt32) (header bufHeader block : Bool) : Option Stream := streamNew bufsize header bufHeader block

-- The descriptor is given back when the stream cannot be had.
def streamFileOpen (errno : Int) (opened : Except Int Nat) (header bufHeader block : Bool) : Opening :=
  match opened with
  | .error errno => ⟨none,[],errno⟩
  | .ok fd =>
    match streamFdOpen (1 <<< stmBufSizeP) header bufHeader block with
    | none => ⟨none,[],ENOMEM⟩
    | some stm => ⟨some stm,[fd],errno⟩

inductive Call where
  | write (payload : List UInt8) (script : List Answer)
  | flush (script : List Answer)
  | seek (script : List Answer) (delta : Int32) (whence : Int) (lseek : Lseek)
  | close (script : List Answer) (close : Option Int)

-- `returned` is what the calls have answered so far.
structure File where
  stm : Stream
  world : World
  position : Position
  returned : List Int

def start (stm : Stream) (errno : Int) (position : Position) : File := ⟨stm,⟨[],errno⟩,position,[]⟩

def step (f : File) : Call → Option File
  | .write payload script =>
    (streamWrite f.stm f.world payload (UInt32.ofNat payload.length) script).map fun out =>
      ⟨out.stm,out.world,f.position,f.returned++[out.ret]⟩
  | .flush script =>
    (streamFlush f.stm f.world script).map fun out => ⟨out.stm,out.world,f.position,f.returned++[out.ret]⟩
  | .seek script delta whence lseek =>
    (streamSeekOn f.position f.stm f.world script delta whence lseek).map fun out =>
      ⟨out.stm,out.world,out.position,f.returned++[out.ret]⟩
  | .close script close =>
    (streamClose f.stm f.world script close).map fun out => ⟨out.stm,out.world,f.position,f.returned++[out.ret]⟩

section Descriptor

-- The descriptor without a stream: a write hands its payload on at once, and
-- there is nothing to flush.
structure Plain where
  contents : List UInt8
  position : Position
  returned : List Int
deriving DecidableEq

def Plain.returns (f : Plain) (ret : Int) : Plain := {f with returned:=f.returned++[ret]}

def Plain.takes (f : Plain) (bytes : List UInt8) : Plain := {f with contents:=f.contents++bytes}

def plain (f : Plain) : Call → Option Plain
  | .write payload script =>
    if payload = [] then some (f.returns 0) else
    (transfer count script payload.length).map fun taken =>
      (f.takes (payload.take taken.1)).returns (if taken.1 = payload.length then 0 else -1)
  | .flush _ => some (f.returns 0)
  | .seek _ _ _ _ => some (f.returns (-1))
  | .close _ close => some (f.returns (if close = none then 0 else -1))

def File.view (f : File) : Plain := ⟨f.world.delivered,f.position,f.returned⟩

end Descriptor

-- `len` is a uint32_t, and no count may read as -1.
def Sized : Call → Prop
  | .write payload _ => payload.length+1 < 2^32
  | _ => True

-- The size asked for was not taken over, so there is no room to copy into.
structure Bare (stm : Stream) : Prop where
  valid : Valid stm.buf
  none_left : stm.buf.size = 0
  free : stm.lock = 0

section Calls
variable {stm : Stream} {w : World} {f : File} {script : List Answer}

theorem Bare.empty (bare : Bare stm) : unread stm.buf = [] := by
  have length := bare.valid.unread_length
  have room := bare.valid.room
  have zero : stm.buf.size.toNat = 0 := by rw [bare.none_left]; rfl
  apply List.eq_nil_of_length_eq_zero
  omega

theorem Bare.space (bare : Bare stm) : (bufferSpace stm.buf).toNat = 0 := by
  rw [bare.valid.space_exact,bare.none_left]
  exact Nat.zero_sub _

theorem Bare.unlocked (bare : Bare stm) : streamUnlock stm = stm := by
  have free := bare.free
  cases stm
  rw [streamUnlock,← free]

theorem Bare.flushes (bare : Bare stm) : streamFlush stm w script = some ⟨0,none,stm,w,script⟩ := by
  have avail : bufferAvail ({stm with lock:=1} : Stream).buf = 0 := bare.valid.avail_zero.mpr bare.empty
  have given : streamUnlock {stm with lock:=1} = stm := bare.unlocked
  rw [streamFlush,streamFlushBy,streamLock,if_pos bare.free]
  simp only [Option.bind_eq_bind,Option.bind_some,if_pos avail,given]

theorem open_bare {opened : Except Int Nat} {header bufHeader block : Bool} {errno : Int}
    (made : (streamFileOpen errno opened header bufHeader block).stm = some stm) : Bare stm := by
  cases opened with
  | error errno => cases made
  | ok fd =>
    rw [streamFileOpen] at made
    cases stream : streamFdOpen (1 <<< stmBufSizeP) header bufHeader block with
    | none =>
      rw [stream] at made
      cases made
    | some other =>
      rw [stream] at made
      cases made
      obtain ⟨valid,_,_,free⟩ := streamNew_valid stream
      refine ⟨valid,?_,free⟩
      obtain ⟨_,made⟩ := Option.ite_none_right_eq_some.mp stream
      obtain ⟨b,buffer,rfl⟩ := Option.map_eq_some_iff.mp made
      obtain ⟨_,buffer⟩ := Option.ite_none_right_eq_some.mp buffer
      obtain ⟨_,buffer⟩ := Option.ite_none_right_eq_some.mp buffer
      cases Option.some.inj buffer
      rfl

structure Agrees (f : File) (call : Call) : Prop where
  same : (step f call).map File.view = plain f.view call
  kept : ∀ next, step f call = some next → Bare next.stm ∧ next.position = f.position

theorem Agrees.of_step {call : Call} {next : File} (ran : step f call = some next) (bare : Bare next.stm)
    (still : next.position = f.position) (answer : plain f.view call = some next.view) : Agrees f call := by
  refine ⟨by rw [ran,answer]; rfl,?_⟩
  intro other also
  cases Option.some.inj (ran.symm.trans also)
  exact ⟨bare,still⟩

theorem write_agrees {payload : List UInt8} (bare : Bare f.stm) (sized : Sized (.write payload script)) :
    Agrees f (.write payload script) := by
  by_cases nothing : payload = []
  · subst nothing
    exact .of_step rfl bare rfl rfl
  · have empty := bare.empty
    have room : (unread f.stm.buf).length+payload.length+1 < 2^32 := by
      rw [empty,List.length_nil,Nat.zero_add]
      exact sized
    have outcome : _ ∧ streamWrite f.stm f.world payload (UInt32.ofNat payload.length) script = none ∨ _ :=
      write_direct bare.valid bare.free nothing (by rw [bare.space]; exact Nat.zero_le _) room
    rw [empty,List.length_nil,Nat.zero_add] at outcome
    rcases outcome with ⟨pending,unfinished⟩ | ⟨n,out,settled,ran,sent⟩
    · have stuck : step f (.write payload script) = none := by
        rw [step,unfinished]
        rfl
      refine ⟨?_,fun next one => by rw [stuck] at one; cases one⟩
      rw [stuck,plain,if_neg nothing,pending]
      rfl
    · have delivered := sent.delivered
      have ended := sent.ended
      rw [empty,List.nil_append] at delivered
      rw [empty,List.length_nil,Nat.zero_add] at ended
      have answer : out.ret = if n = payload.length then 0 else -1 := by
        rcases ended with ⟨all,ok,_⟩ | ⟨fewer,failed,_⟩
        · rw [if_pos all,ok]
        · rw [if_neg (by omega),failed]
      have one : step f (.write payload script) = some ⟨out.stm,out.world,f.position,f.returned++[out.ret]⟩ := by
        rw [step,ran]
        rfl
      refine .of_step one ⟨sent.valid,sent.size.trans bare.none_left,sent.lock.trans bare.free⟩ rfl ?_
      rw [plain,if_neg nothing,settled,Option.map_some]
      simp only [File.view,Plain.takes,Plain.returns,delivered,answer]

theorem flush_agrees (bare : Bare f.stm) : Agrees f (.flush script) := by
  have one : step f (.flush script) = some ⟨f.stm,f.world,f.position,f.returned++[0]⟩ := by
    rw [step,bare.flushes]
    rfl
  exact .of_step one bare rfl rfl

-- A flush that works ends the seek.
theorem seek_agrees {delta : Int32} {whence : Int} {lseek : Lseek} (bare : Bare f.stm) :
    Agrees f (.seek script delta whence lseek) := by
  have one : step f (.seek script delta whence lseek) = some ⟨f.stm,f.world,f.position,f.returned++[-1]⟩ := by
    rw [step,streamSeekOn,bare.flushes]
    rfl
  exact .of_step one bare rfl rfl

theorem close_agrees {close : Option Int} (bare : Bare f.stm) : Agrees f (.close script close) := by
  have one : step f (.close script close) = some ⟨(fdClose f.stm f.world close).2.1,(fdClose f.stm f.world close).2.2,
      f.position,f.returned++[if (fdClose f.stm f.world close).1 ≠ 0 then -1 else 0]⟩ := by
    rw [step,streamClose,bare.flushes]
    rfl
  cases close with
  | none => exact .of_step one bare rfl rfl
  | some errno => exact .of_step one ⟨bare.valid,bare.none_left,bare.free⟩ rfl rfl

theorem step_agrees {call : Call} (bare : Bare f.stm) (sized : Sized call) : Agrees f call := by
  cases call with
  | write payload script => exact write_agrees bare sized
  | flush script => exact flush_agrees bare
  | seek script delta whence lseek => exact seek_agrees bare
  | close script close => exact close_agrees bare

end Calls

-- A stream from `stream_file_open` is its descriptor: no byte waits in the
-- buffer after any call, and no seek ever moves the offset.
theorem file_stream_is_descriptor {opened : Except Int Nat} {header bufHeader block : Bool} {errno : Int} {stm : Stream}
    (position : Position) {calls : List Call} (made : (streamFileOpen errno opened header bufHeader block).stm = some stm)
    (sized : ∀ call ∈ calls, Sized call) :
    (exec step (start stm errno position) calls).map File.view = exec plain ⟨[],position,[]⟩ calls ∧
    ∀ last, exec step (start stm errno position) calls = some last → unread last.stm.buf = [] ∧ last.position = position := by
  have begin : Bare (start stm errno position).stm ∧ (start stm errno position).position = position := ⟨open_bare made,rfl⟩
  have fits : Along step (fun _ call => Sized call) (start stm errno position) calls := along_of_forall sized
  have kept : ∀ f call next, Bare f.stm ∧ f.position = position → Sized call → step f call = some next →
      Bare next.stm ∧ next.position = position := by
    intro f call next good short one
    obtain ⟨bare,still⟩ := (step_agrees good.1 short).kept next one
    exact ⟨bare,still.trans good.2⟩
  constructor
  · refine exec_view ?_ kept begin fits
    intro f call good short
    exact (step_agrees good.1 short).same
  · intro last ran
    obtain ⟨bare,still⟩ := exec_guarded kept begin fits ran
    exact ⟨bare.empty,still⟩

-- The second write loses its last byte to a full device, which it reports.
def noteCalls : List Call :=
  [.write [97,98] [.accept 1,.accept 1],.flush [],.seek [] 0 0 (fun _ _ => .ok 0),.write [99,100] [.accept 1,.fail 28],
    .close [] none]

theorem note_plain : (streamFileOpen 0 (.ok 3) true true true).stm = some bareStream ∧
    (exec step (start bareStream 0 ⟨0,0⟩) noteCalls).map File.view = some ⟨[97,98,99],⟨0,0⟩,[0,0,-1,-1,0]⟩ := by
  have made : (streamFileOpen 0 (.ok 3) true true true).stm = some bareStream := rfl
  have sized : ∀ call ∈ noteCalls, Sized call := by simp [noteCalls,Sized]
  refine ⟨made,?_⟩
  rw [(file_stream_is_descriptor ⟨0,0⟩ made sized).1]
  rfl

end EventLib.FileStream

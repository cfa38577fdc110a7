import EventLib.StreamInput

namespace EventLib.StreamSeek
open ByteBuffer Events Streams StreamInput Errnos

abbrev Lseek := Int → Int → Except Int Int

-- The file offset of the descriptor, and how often `lseek` was called on it.
structure Position where
  offset : Int
  calls : Nat
deriving DecidableEq

def Position.after (p : Position) : Except Int Int → Position
  | .error _ => {p with calls:=p.calls+1}
  | .ok off => ⟨off,p.calls+1⟩

structure Sought where
  ret : Int
  newpos : Option UInt32
  stm : Stream
  world : World
  position : Position
deriving DecidableEq

def seekDelta (b : Buffer) (delta : Int32) (whence : Int) : Int32 :=
  if whence = SEEK_CUR then delta-(bufferAvail b).toInt32 else delta

-- `stream_seek` once more, with the offset it works on.
def streamSeekOn (p : Position) (stm : Stream) (w : World) (script : List Answer) (delta : Int32) (whence : Int) (lseek : Lseek) :
    Option Sought :=
  (streamFlush stm w script).bind fun flushed =>
    if flushed.ret = 0 then some ⟨-1,none,flushed.stm,flushed.world,p⟩ else
    (streamLock flushed.stm).map fun stm =>
      let delta := seekDelta stm.buf delta whence
      match fdSeek {stm with lastErr:=0} flushed.world delta whence lseek with
      | (failed,newpos,stm,w) =>
        let p := p.after (lseek delta.toInt whence)
        if failed = 0 then ⟨-1,newpos,streamUnlock stm,{w with errno:=stm.lastErr},p⟩ else ⟨0,newpos,streamUnlock stm,w,p⟩

variable {p : Position} {stm : Stream} {w : World} {script : List Answer} {delta : Int32} {whence : Int} {lseek : Lseek}
  {flushed : Outcome} {out : Sought}

theorem streamSeekOn_result :
    (streamSeekOn p stm w script delta whence lseek).map (fun out => (out.ret,out.newpos,out.stm,out.world)) =
      streamSeek stm w script delta whence lseek := by
  unfold streamSeekOn streamSeek
  cases streamFlush stm w script with
  | none => rfl
  | some flushed =>
    dsimp only [Option.bind_some]
    split
    · rfl
    · rw [Option.map_map]
      congr 1
      funext stm
      exact apply_ite (fun out : Sought => (out.ret,out.newpos,out.stm,out.world)) ((fdSeek _ _ _ whence lseek).1 = 0) _ _

theorem flush_leaves (valid : Valid stm.buf) (ran : streamFlush stm w script = some flushed) :
    flushed.stm.lock = 0 ∧ (flushed.ret = 0 ∧ unread flushed.stm.buf = [] ∨ flushed.ret = -1 ∧ unread flushed.stm.buf ≠ []) := by
  refine ⟨flush_frees ran,?_⟩
  rcases flush_inversion ran with ⟨empty,rfl⟩ | ⟨_,inner,raw,same,_,_,outcome⟩
  · exact Or.inl ⟨rfl,valid.avail_zero.mp empty⟩
  · have lockedValid : Valid ({stm with lock:=1} : Stream).buf := valid
    obtain ⟨innerValid,_⟩ := raw_direct lockedValid (fun copies => copies.1 rfl) rfl valid.unread_small raw
    have view : unread flushed.stm.buf = unread inner.stm.buf := by rw [same]; rfl
    rw [view]
    rcases outcome with ⟨drained,ok⟩ | ⟨left,failed⟩
    · exact Or.inl ⟨ok,innerValid.avail_zero.mp drained⟩
    · exact Or.inr ⟨failed,fun gone => left (innerValid.avail_zero.mpr gone)⟩

-- Both tests read 0 as failure: `lseek` is called over bytes left behind and
-- its success is what returns -1.
theorem seek_inverted (valid : Valid stm.buf) (flush : streamFlush stm w script = some flushed) :
    unread flushed.stm.buf = [] ∧
      streamSeekOn p stm w script delta whence lseek = some ⟨-1,none,flushed.stm,flushed.world,p⟩ ∨
    unread flushed.stm.buf ≠ [] ∧ ∃ out, streamSeekOn p stm w script delta whence lseek = some out ∧
      out.position = p.after (lseek (seekDelta flushed.stm.buf delta whence).toInt whence) ∧
      (out.ret = 0 ↔ ∃ errno, lseek (seekDelta flushed.stm.buf delta whence).toInt whence = .error errno) := by
  obtain ⟨free,left⟩ := flush_leaves valid flush
  unfold streamSeekOn
  rw [flush]
  dsimp only [Option.bind_some]
  rcases left with ⟨ok,empty⟩ | ⟨failed,some_left⟩
  · exact Or.inl ⟨empty,by rw [if_pos ok]⟩
  · have locked : streamLock flushed.stm = some {flushed.stm with lock:=1} := if_pos free
    refine Or.inr ⟨some_left,?_⟩
    rw [if_neg (by rw [failed]; decide),locked,Option.map_some]
    cases answer : lseek (seekDelta flushed.stm.buf delta whence).toInt whence with
    | error errno =>
      simp only [fdSeek,answer]
      exact ⟨_,rfl,rfl,iff_of_true rfl ⟨errno,rfl⟩⟩
    | ok off =>
      simp only [fdSeek,answer]
      exact ⟨_,rfl,rfl,iff_of_false (by simp) (by simp)⟩

-- What the interface promises of a call, told by the flush it makes.
def Seeks (p : Position) (stm : Stream) (w : World) (script : List Answer) (delta : Int32) (whence : Int) (lseek : Lseek) : Prop :=
  ∀ flushed out, streamFlush stm w script = some flushed → streamSeekOn p stm w script delta whence lseek = some out →
    (out.position.calls ≠ p.calls ↔ unread flushed.stm.buf = []) ∧
    (out.ret = 0 ∧ out.newpos = some (UInt32.ofInt out.position.offset) ↔
      flushed.ret = 0 ∧ ∃ off, lseek (seekDelta flushed.stm.buf delta whence).toInt whence = .ok off) ∧
    (unread flushed.stm.buf ≠ [] → out.ret = -1 ∧ out.position.offset = p.offset)

theorem seeks_iff_flush_never_returns (valid : Valid stm.buf) :
    Seeks p stm w script delta whence lseek ↔ streamFlush stm w script = none := by
  constructor
  · intro seeks
    cases flush : streamFlush stm w script with
    | none => rfl
    | some flushed =>
      rcases seek_inverted (p:=p) valid flush with ⟨drained,ran⟩ | ⟨left,out,ran,moved,_⟩
      · exact absurd rfl ((seeks flushed _ flush ran).1.mpr drained)
      · have called : out.position.calls ≠ p.calls := by
          rw [moved]
          unfold Position.after
          split <;> simp
        exact absurd ((seeks flushed out flush ran).1.mp called) left
  · intro never flushed out flush
    cases never.symm.trans flush

def drained : Stream := ⟨⟨[0,0],2,0,0⟩,0,0,0⟩
def pending : Stream := ⟨⟨[97,0],2,0,1⟩,0,0,0⟩

theorem only_spinning_seeks : streamFlush {drained with lock:=1} ⟨[],0⟩ [] = none ∧
    Seeks ⟨0,0⟩ {drained with lock:=1} ⟨[],0⟩ [] 5 0 (fun delta _ => .ok delta) ∧
    ¬ Seeks ⟨0,0⟩ pending ⟨[],0⟩ [.accept 1] 5 0 (fun delta _ => .ok delta) := by
  have drainedValid : Valid ({drained with lock:=1} : Stream).buf := ⟨rfl,by decide,Or.inr ⟨rfl,rfl⟩⟩
  have pendingValid : Valid pending.buf := ⟨rfl,by decide,Or.inl (by decide)⟩
  refine ⟨rfl,(seeks_iff_flush_never_returns drainedValid).mpr rfl,?_⟩
  intro seeks
  cases (seeks_iff_flush_never_returns pendingValid).mp seeks

-- Nothing to flush: -1 without a call of `lseek`. A byte left by the flush: the
-- offset moves, and success is reported as -1 and failure as 0.
theorem seek_results_swapped :
    streamSeekOn ⟨0,0⟩ drained ⟨[],0⟩ [] 5 0 (fun delta _ => .ok delta) = some ⟨-1,none,drained,⟨[],0⟩,⟨0,0⟩⟩ ∧
    ¬ Seeks ⟨0,0⟩ drained ⟨[],0⟩ [] 5 0 (fun delta _ => .ok delta) ∧
    (∃ out, streamSeekOn ⟨0,0⟩ pending ⟨[],0⟩ [.fail EAGAIN] 5 0 (fun delta _ => .ok delta) = some out ∧ out.ret = -1 ∧
      out.newpos = some 5 ∧ unread out.stm.buf = [97] ∧ out.position = ⟨5,1⟩) ∧
    ∃ out, streamSeekOn ⟨0,0⟩ pending ⟨[],0⟩ [.fail EAGAIN] 5 0 (fun _ _ => .error 29) = some out ∧ out.ret = 0 ∧
      out.newpos = none ∧ out.position = ⟨0,1⟩ := by
  refine ⟨rfl,?_,⟨_,rfl,rfl,rfl,by decide,rfl⟩,_,rfl,rfl,rfl,rfl⟩
  intro seeks
  exact absurd rfl ((seeks _ _ rfl rfl).1.mpr (by decide))

end EventLib.StreamSeek

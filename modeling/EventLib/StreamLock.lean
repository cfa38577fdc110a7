import EventLib.StreamInput
import EventLib.LabelledRuns

namespace EventLib.StreamLock
open ByteBuffer Events Streams StreamInput LabelledRuns Errnos

inductive Call where
  | read (mem : Option (List UInt8)) (len : UInt32) (counts : Bool) (turns : List Turn)
  | write (buf : List UInt8) (len : UInt32) (script : List Answer)
  | fill (supply : Supply) (grants : Grant × Grant)
  | flush (script : List Answer)
  | seek (script : List Answer) (delta : Int32) (whence : Int) (lseek : Int → Int → Except Int Int)
  | close (script : List Answer) (close : Option Int)

structure Session where
  stm : Stream
  world : World
deriving DecidableEq

-- A call that spins on the lock, or that has not returned yet, has no next state.
def step (s : Session) : Call → Option Session
  | .read mem len counts turns => (streamRead s.stm s.world mem len counts turns).map fun out => ⟨out.stm,out.world⟩
  | .write buf len script => (streamWrite s.stm s.world buf len script).map fun out => ⟨out.stm,out.world⟩
  | .fill supply grants => (streamFill s.stm s.world supply grants).map fun out => ⟨out.stm,out.world⟩
  | .flush script => (streamFlush s.stm s.world script).map fun out => ⟨out.stm,out.world⟩
  | .seek script delta whence lseek =>
    (streamSeek s.stm s.world script delta whence lseek).map fun out => ⟨out.2.2.1,out.2.2.2⟩
  | .close script close => (streamClose s.stm s.world script close).map fun out => ⟨out.stm,out.world⟩

def Free (s : Session) : Prop := s.stm.lock = 0

instance : DecidablePred Free := fun s => inferInstanceAs (Decidable (s.stm.lock = 0))

-- A discarding read asks for no more than the buffer holds.
def Balanced (s : Session) : Call → Prop
  | .read none len _ _ => len ≤ bufferAvail s.stm.buf
  | _ => True

instance (s : Session) : ∀ call, Decidable (Balanced s call)
  | .read none _ _ _ => inferInstanceAs (Decidable (_ ≤ _))
  | .read (some _) _ _ _ => isTrue trivial
  | .write _ _ _ => isTrue trivial
  | .fill _ _ => isTrue trivial
  | .flush _ => isTrue trivial
  | .seek _ _ _ _ => isTrue trivial
  | .close _ _ => isTrue trivial

variable {stm : Stream} {w : World}

@[simp] theorem unlock_free : (streamUnlock stm).lock = 0 := rfl
@[simp] theorem handout_free : (handout stm w ret dest received).stm.lock = 0 := rfl

theorem write_frees {out : Outcome} (free : stm.lock = 0) (ran : streamWrite stm w buf len script = some out) :
    out.stm.lock = 0 := by
  unfold streamWrite streamWriteBy at ran
  split at ran
  · cases Option.some.inj ran
    exact free
  · obtain ⟨locked,_,ran⟩ := Option.bind_eq_some_iff.mp ran
    obtain ⟨inner,_,ran⟩ := Option.bind_eq_some_iff.mp ran
    cases Option.some.inj ran
    rfl

theorem fill_frees {out : Intake} (ran : streamFill stm w supply grants = some out) : out.stm.lock = 0 := by
  obtain ⟨locked,_,ran⟩ := Option.bind_eq_some_iff.mp ran
  obtain ⟨filled,_,ran⟩ := Option.bind_eq_some_iff.mp ran
  unfold fillAnswered at ran
  split at ran
  split at ran
  · cases Option.some.inj ran
    rfl
  · obtain ⟨b,_,rfl⟩ := Option.map_eq_some_iff.mp ran
    rfl

theorem readLoop_frees {turns : List Turn} {out : Handout} (ran : readLoop turns stm w len ret dest off received = some out) :
    out.stm.lock = 0 := by
  induction turns generalizing stm w len ret dest off received with
  | nil => cases ran
  | cons turn rest ih =>
    obtain ⟨dest,_,ran⟩ := Option.bind_eq_some_iff.mp ran
    obtain ⟨filled,_,ran⟩ := Option.bind_eq_some_iff.mp ran
    split at ran
    split at ran
    · split at ran <;> (cases Option.some.inj ran; rfl)
    · obtain ⟨stray,_,ran⟩ := Option.bind_eq_some_iff.mp ran
      split at ran
      · cases Option.some.inj ran
        rfl
      · exact ih ran

theorem close_frees {out : Outcome} (ran : streamClose stm w script close = some out) : out.stm.lock = 0 := by
  obtain ⟨flushed,flush,rfl⟩ := Option.map_eq_some_iff.mp ran
  have free := flush_frees flush
  split
  · exact free
  · cases close <;> exact free

theorem seek_frees (ran : streamSeek stm w script delta whence lseek = some out) : out.2.2.1.lock = 0 := by
  obtain ⟨flushed,flush,ran⟩ := Option.bind_eq_some_iff.mp ran
  split at ran
  · cases Option.some.inj ran
    exact flush_frees flush
  · obtain ⟨locked,_,rfl⟩ := Option.map_eq_some_iff.mp ran
    dsimp only
    generalize (if whence = SEEK_CUR then delta-(bufferAvail locked.buf).toInt32 else delta) = moved
    split <;> rfl

-- With a destination every exit unlocks, whatever `readv` answers.
theorem read_frees {out : Handout} (free : stm.lock = 0) (ran : streamRead stm w (some dest) len counts turns = some out) :
    out.stm.lock = 0 := by
  unfold streamRead at ran
  split at ran
  · obtain ⟨_,same⟩ := Option.ite_none_right_eq_some.mp ran
    cases Option.some.inj same
    exact free
  · obtain ⟨locked,_,ran⟩ := Option.bind_eq_some_iff.mp ran
    obtain ⟨buffered,_,ran⟩ := Option.bind_eq_some_iff.mp ran
    obtain ⟨dest,_,ran⟩ := Option.bind_eq_some_iff.mp ran
    split at ran
    · cases Option.some.inj ran
      rfl
    · exact readLoop_frees ran

theorem discard_count (b : Buffer) (len : UInt32) : ∃ c, bufferRead b false len = some (readCount b len,[],c) := by
  unfold bufferRead
  split
  · rename_i nothing
    exact ⟨b,by rw [nothing]⟩
  · exact ⟨_,rfl⟩

theorem discard_covers (b : Buffer) (len : UInt32) : len-readCount b len = 0 ↔ len ≤ bufferAvail b := by
  unfold readCount bufferAvail
  split
  · rename_i less
    have below := UInt32.lt_iff_toNat_lt.mp less
    exact ⟨fun _ => UInt32.le_iff_toNat_le.mpr (Nat.le_of_lt below),fun _ => UInt32.sub_self _⟩
  · rename_i more
    have above : (b.wpos-b.rpos).toNat ≤ len.toNat := Nat.le_of_not_lt fun less => more (UInt32.lt_iff_toNat_lt.mpr less)
    rw [← UInt32.toNat_inj,difference_exact above,UInt32.le_iff_toNat_le]
    show _ = 0 ↔ _
    omega

theorem discard_frees_iff (w : World) (counts : Bool) (turns : List Turn) (free : stm.lock = 0) (len : UInt32) :
    (∀ out, streamRead stm w none len counts turns = some out → out.stm.lock = 0) ↔ len ≤ bufferAvail stm.buf := by
  unfold streamRead
  by_cases zero : len = 0
  · rw [if_pos zero]
    refine ⟨fun _ => by rw [zero]; exact UInt32.le_iff_toNat_le.mpr (Nat.zero_le _),?_⟩
    intro _ out ran
    obtain ⟨_,same⟩ := Option.ite_none_right_eq_some.mp ran
    cases Option.some.inj same
    exact free
  · obtain ⟨c,dropped⟩ := discard_count stm.buf len
    rw [if_neg zero,← discard_covers,streamLock,if_pos free]
    simp only [Option.isSome_none,dropped,Option.bind_some]
    by_cases covered : len-readCount stm.buf len = 0
    · rw [if_pos covered]
      refine ⟨fun _ => covered,?_⟩
      intro _ out ran
      cases Option.some.inj ran
      rfl
    · rw [if_neg covered]
      refine ⟨?_,fun enough => absurd enough covered⟩
      intro all
      have held : (1 : Int) = 0 := all _ rfl
      cases held

theorem after_map {α : Type} {result : Option α} {view : α → Session} (frees : ∀ out, result = some out → (view out).stm.lock = 0) :
    ∀ next, result.map view = some next → Free next := by
  intro next ran
  obtain ⟨out,returned,rfl⟩ := Option.map_eq_some_iff.mp ran
  exact frees out returned

theorem frees_iff_balanced {s : Session} (free : Free s) (call : Call) : After step Free s call ↔ Balanced s call := by
  cases call with
  | read mem len counts turns =>
    cases mem with
    | none =>
      rw [Balanced,← discard_frees_iff s.world counts turns free len]
      constructor
      · intro after out ran
        exact after ⟨out.stm,out.world⟩ (by rw [step,ran]; rfl)
      · intro frees
        exact after_map frees
    | some dest => exact ⟨fun _ => trivial,fun _ => after_map fun _ ran => read_frees free ran⟩
  | write buf len script => exact ⟨fun _ => trivial,fun _ => after_map fun _ ran => write_frees free ran⟩
  | fill supply grants => exact ⟨fun _ => trivial,fun _ => after_map fun _ ran => fill_frees ran⟩
  | flush script => exact ⟨fun _ => trivial,fun _ => after_map fun _ ran => flush_frees ran⟩
  | seek script delta whence lseek => exact ⟨fun _ => trivial,fun _ => after_map fun _ ran => seek_frees ran⟩
  | close script close => exact ⟨fun _ => trivial,fun _ => after_map fun _ ran => close_frees ran⟩

theorem lock_released_iff {stm : Stream} {w : World} (free : stm.lock = 0) (calls : List Call) :
    Along step (After step Free) ⟨stm,w⟩ calls ↔ Along step Balanced ⟨stm,w⟩ calls := by
  refine along_iff ?_ ?_ (show Free ⟨stm,w⟩ from free) along_true
  · intro s call free _
    exact frees_iff_balanced free call
  · intro s call next _ _ after ran
    exact after next ran

def zeroed : Grant := some fun _ => 0

def everyCall : List Call :=
  [.write [97] 1 [.accept 1],.fill (.give [98]) (zeroed,zeroed),.read none 1 true [],.read (some [0,0]) 2 true [⟨.fail EAGAIN,0⟩],
    .flush [],.seek [] 0 0 (fun _ _ => .ok 0),.close [] none]

theorem every_call_unlocks : bareStream.lock = 0 ∧ Along step Balanced ⟨bareStream,⟨[],0⟩⟩ everyCall ∧
    Along step (After step Free) ⟨bareStream,⟨[],0⟩⟩ everyCall ∧
    ∃ last, exec step ⟨bareStream,⟨[],0⟩⟩ everyCall = some last := by
  have balanced : Along step Balanced ⟨bareStream,⟨[],0⟩⟩ everyCall := by decide
  have returns : (exec step ⟨bareStream,⟨[],0⟩⟩ everyCall).isSome = true := by decide
  exact ⟨rfl,balanced,(lock_released_iff rfl everyCall).mpr balanced,Option.isSome_iff_exists.mp returns⟩

-- Discarding one byte of an empty stream returns -1 with the lock taken, and
-- the flush that follows spins.
theorem discard_keeps_lock : streamNew 4 true true true = some bareStream ∧
    ¬ Along step (After step Free) ⟨bareStream,⟨[],0⟩⟩ [.read none 1 true []] ∧
    (streamRead bareStream ⟨[],0⟩ none 1 true []).map (fun out => (out.ret,out.stm.lock)) = some (-1,1) ∧
    ∃ next, step ⟨bareStream,⟨[],0⟩⟩ (.read none 1 true []) = some next ∧ step next (.flush []) = none := by
  refine ⟨rfl,?_,by decide,_,rfl,rfl⟩
  intro released
  have free : Free ⟨bareStream,⟨[],0⟩⟩ := by decide
  exact absurd ((frees_iff_balanced free _).mp released.1) (by decide)

end EventLib.StreamLock

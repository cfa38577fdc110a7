import EventLib.Stream
import EventLib.LabelledRuns

namespace EventLib.StreamOutput
open ByteBuffer Events Streams LabelledRuns Errnos

inductive Call where
  | write (payload : List UInt8) (script : List Answer)
  | flush (script : List Answer)

structure Session where
  stm : Stream
  world : World
  payloads : List UInt8
deriving DecidableEq

def start (stm : Stream) (errno : Int) : Session := ⟨stm,⟨[],errno⟩,[]⟩

def step (s : Session) : Call → Option Session
  | .write payload script =>
    (streamWrite s.stm s.world payload (UInt32.ofNat payload.length) script).map fun out =>
      ⟨out.stm,out.world,s.payloads++payload⟩
  | .flush script => (streamFlush s.stm s.world script).map fun out => ⟨out.stm,out.world,s.payloads⟩

-- `len` is a uint32_t and no write of these runs returns -1; a flush may.
def Accepted (s : Session) : Call → Prop
  | .write payload script => payload.length < 2^32 ∧
      (streamWrite s.stm s.world payload (UInt32.ofNat payload.length) script).map Outcome.ret ≠ some (-1)
  | .flush _ => True

instance : ∀ call, Decidable (Accepted s call)
  | .write _ _ => inferInstanceAs (Decidable (_ ∧ _))
  | .flush _ => isTrue trivial

def Copies (s : Session) (payload : List UInt8) : Prop :=
  payload.length ≠ 0 ∧ payload.length < (bufferSpace s.stm.buf).toNat

instance : Decidable (Copies s payload) := inferInstanceAs (Decidable (_ ∧ _))

-- A copying write finds the buffer drained; a direct one does not wrap `towrite`.
def Clean (s : Session) : Call → Prop
  | .write payload _ => (Copies s payload → bufferAvail s.stm.buf = 0) ∧
      (¬ Copies s payload → (bufferAvail s.stm.buf).toNat+payload.length < 2^32)
  | .flush _ => True

instance : ∀ call, Decidable (Clean s call)
  | .write _ _ => inferInstanceAs (Decidable ((_ → _) ∧ (_ → _)))
  | .flush _ => isTrue trivial

def Flows (s : Session) : Prop := s.world.delivered ++ unread s.stm.buf = s.payloads

structure Sound (s : Session) : Prop where
  valid : Valid s.stm.buf
  small : s.stm.buf.size.toNat ≤ 2^13
  free : s.stm.lock = 0
  flows : Flows s

variable {s next : Session} {payload : List UInt8} {script : List Answer}

theorem copies_word (short : payload.length < 2^32) :
    (UInt32.ofNat payload.length ≠ 0 ∧ UInt32.ofNat payload.length < bufferSpace s.stm.buf) ↔ Copies s payload := by
  have word := length_word short
  rw [Copies,UInt32.lt_iff_toNat_lt,word,ne_eq,ne_eq,← UInt32.toNat_inj,word]
  rfl

theorem copy_lands (sound : Sound s) (script : List Answer) (copies : Copies s payload) :
    ∃ b tail, Valid b ∧ b.size = s.stm.buf.size ∧ tail.length = payload.length ∧
      unread b = payload ++ (unread s.stm.buf++tail).drop payload.length ∧
      step s (.write payload script) = some ⟨{s.stm with buf:=b,lock:=0},s.world,s.payloads++payload⟩ := by
  have bound := (bufferSpace s.stm.buf).toNat_lt
  have short : payload.length < 2^32 := Nat.lt_trans copies.2 bound
  have word := length_word short
  have words := (copies_word short).mpr copies
  have locked : Valid ({s.stm with lock:=1} : Stream).buf := sound.valid
  obtain ⟨b,tail,copied,bvalid,size,length,view⟩ := raw_copy (w:=s.world) fdWritev script locked words word.symm
  rw [word] at length view
  refine ⟨b,tail,bvalid,size,length,view,?_⟩
  rw [step,streamWrite,writeBy_locked fdWritev s.world script sound.free words.1,copied]
  rfl

theorem copy_drained {b : Buffer} {tail : List UInt8} (sound : Sound s) (drained : bufferAvail s.stm.buf = 0)
    (length : tail.length = payload.length) (view : unread b = payload ++ (unread s.stm.buf++tail).drop payload.length) :
    s.world.delivered ++ unread b = s.payloads ++ payload := by
  have empty := sound.valid.avail_zero.mp drained
  have past : tail.drop payload.length = [] := by rw [List.drop_eq_nil_iff,length]
  have before : s.world.delivered = s.payloads := by rw [← sound.flows,empty,List.append_nil]
  rw [view,empty,List.nil_append,past,List.append_nil,before]

theorem write_sound (sound : Sound s) (accepted : Accepted s (.write payload script))
    (clean : Clean s (.write payload script)) (ran : step s (.write payload script) = some next) : Sound next := by
  by_cases copies : Copies s payload
  · obtain ⟨b,tail,valid,size,length,view,copied⟩ := copy_lands sound script copies
    cases Option.some.inj (ran.symm.trans copied)
    refine ⟨valid,?_,rfl,copy_drained sound (clean.1 copies) length view⟩
    rw [size]
    exact sound.small
  · obtain ⟨valid,small,free,flows⟩ := sound
    obtain ⟨out,wrote,rfl⟩ := Option.map_eq_some_iff.mp ran
    have word := length_word accepted.1
    have locked : Valid ({s.stm with lock:=1} : Stream).buf := valid
    rcases write_inversion accepted.1 wrote with ⟨rfl,rfl⟩ | ⟨_,_,inner,rfl,raw⟩
    · exact ⟨valid,small,free,flows.trans (List.append_nil _).symm⟩
    · have room := clean.2 copies
      rw [valid.avail_exact] at room
      obtain ⟨ovalid,osize,_,conserved⟩ := raw_direct locked
        (fun taken => copies ((copies_word accepted.1).mp taken)) word.symm (by rw [word]; exact room) raw
      refine ⟨ovalid,by rw [← osize] at small; exact small,rfl,?_⟩
      rcases conserved with ⟨_,_,all,gone⟩ | ⟨failed,_⟩
      · show inner.world.delivered ++ unread inner.stm.buf = s.payloads ++ payload
        rw [all,gone,List.append_nil,← List.append_assoc]
        exact congrArg (· ++ payload) flows
      · exact absurd (wrote ▸ congrArg some failed) accepted.2

theorem flush_sound (sound : Sound s) (ran : step s (.flush script) = some next) : Sound next := by
  obtain ⟨valid,small,_,flows⟩ := sound
  obtain ⟨out,flushed,rfl⟩ := Option.map_eq_some_iff.mp ran
  obtain ⟨ovalid,osize,k,sent,left⟩ := flush_spec valid (by omega) flushed
  refine ⟨ovalid,by rw [osize]; exact small,flush_frees flushed,?_⟩
  show out.world.delivered ++ unread out.stm.buf = s.payloads
  rw [sent,left,List.append_assoc,List.take_append_drop]
  exact flows

theorem step_sound {call : Call} (sound : Sound s) (accepted : Accepted s call) (clean : Clean s call)
    (ran : step s call = some next) : Sound next := by
  cases call with
  | write payload script => exact write_sound sound accepted clean ran
  | flush script => exact flush_sound sound ran

theorem start_sound {bufsize : UInt32} {header bufHeader block : Bool} {stm : Stream} (errno : Int)
    (made : streamNew bufsize header bufHeader block = some stm) : Sound (start stm errno) := by
  obtain ⟨valid,empty,small,free⟩ := streamNew_valid made
  exact ⟨valid,small,free,empty⟩

-- Sharp on the copying path: with unread bytes there is always a payload of
-- that length the stream does not carry through.
theorem copying_flows_iff {n : Nat} (sound : Sound s) (positive : n ≠ 0) (copies : n < (bufferSpace s.stm.buf).toNat) :
    (∀ payload next, payload.length = n → step s (.write payload []) = some next → Flows next) ↔
      bufferAvail s.stm.buf = 0 := by
  constructor
  · intro always
    rw [sound.valid.avail_zero]
    cases oldest : unread s.stm.buf with
    | nil => rfl
    | cons x rest =>
      have length : (List.replicate n (x+1)).length = n := List.length_replicate
      have taken : Copies s (List.replicate n (x+1)) := by rw [Copies,length]; exact ⟨positive,copies⟩
      obtain ⟨b,tail,_,_,_,view,ran⟩ := copy_lands sound [] taken
      have kept : s.world.delivered ++ unread b = s.payloads ++ List.replicate n (x+1) := always _ _ length ran
      obtain ⟨m,rfl⟩ := Nat.exists_eq_succ_of_ne_zero positive
      rw [← sound.flows,List.append_assoc,view,oldest,List.replicate_succ,List.append_cancel_left_eq] at kept
      have head : x+1 = x := (List.cons.inj kept).1
      exact absurd head (by simp)
  · intro drained payload next length ran
    have taken : Copies s payload := by rw [Copies,length]; exact ⟨positive,copies⟩
    obtain ⟨b,tail,_,_,tailLength,view,copied⟩ := copy_lands sound [] taken
    cases Option.some.inj (ran.symm.trans copied)
    exact copy_drained sound drained tailLength view

theorem clean_runs_flow {bufsize : UInt32} {header bufHeader block : Bool} {stm : Stream} {errno : Int}
    {calls : List Call} {last : Session} (made : streamNew bufsize header bufHeader block = some stm)
    (accepted : Along step Accepted (start stm errno) calls) (clean : Along step Clean (start stm errno) calls)
    (ran : exec step (start stm errno) calls = some last) :
    Flows last ∧ ∀ n, n ≠ 0 → n < (bufferSpace last.stm.buf).toNat →
      ((∀ payload next, payload.length = n → step last (.write payload []) = some next → Flows next) ↔
        bufferAvail last.stm.buf = 0) := by
  have sound : Sound last := by
    refine exec_guarded ?_ (start_sound errno made) (along_and.mpr ⟨accepted,clean⟩) ran
    intro s call next sound good one
    exact step_sound sound good.1 good.2 one
  exact ⟨sound.flows,fun n positive copies => copying_flows_iff sound positive copies⟩

def flushedCalls : List Call :=
  [.write [97,98] [],.flush [.accept 1,.fail EAGAIN],.flush [.accept 1],.write [99] []]

theorem flushed_calls_flow : streamNew 0 true true true = some freshStream ∧
    ∃ last, exec step (start freshStream 0) flushedCalls = some last ∧ Flows last ∧ last.payloads = [97,98,99] := by
  have made : streamNew 0 true true true = some freshStream := rfl
  have accepted : Along step Accepted (start freshStream 0) flushedCalls := by decide +kernel
  have clean : Along step Clean (start freshStream 0) flushedCalls := by decide +kernel
  have returned : ((exec step (start freshStream 0) flushedCalls).map Session.payloads) = some [97,98,99] := by
    decide +kernel
  obtain ⟨last,ran,payloads⟩ := Option.map_eq_some_iff.mp returned
  exact ⟨made,last,ran,(clean_runs_flow made accepted clean ran).1,payloads⟩

-- `ab` then `c`, both small enough to be copied: the stream would deliver `c`,
-- `b` and a zero byte.
theorem unflushed_write_lost : streamNew 0 true true true = some freshStream ∧
    Along step Accepted (start freshStream 0) [.write [97,98] [],.write [99] []] ∧
    ∃ last, exec step (start freshStream 0) [.write [97,98] [],.write [99] []] = some last ∧
      last.payloads = [97,98,99] ∧ last.world.delivered = [] ∧ unread last.stm.buf = [99,98,0] ∧ ¬ Flows last := by
  have returned : (exec step (start freshStream 0) [.write [97,98] [],.write [99] []]).map
      (fun s => (s.payloads,s.world.delivered,unread s.stm.buf)) = some ([97,98,99],[],[99,98,0]) := by
    decide +kernel
  obtain ⟨last,ran,seen⟩ := Option.map_eq_some_iff.mp returned
  simp only [Prod.mk.injEq] at seen
  obtain ⟨payloads,delivered,buffered⟩ := seen
  refine ⟨rfl,by decide +kernel,last,ran,payloads,delivered,buffered,?_⟩
  rw [Flows,payloads,delivered,buffered]
  decide

end EventLib.StreamOutput

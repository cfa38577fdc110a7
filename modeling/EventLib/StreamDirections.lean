import EventLib.StreamInput
import EventLib.LabelledRuns

namespace EventLib.StreamDirections
open ByteBlock RecordSplit ByteBuffer Events Streams StreamInput LabelledRuns

inductive Call where
  | fill (supply : Supply) (grants : Grant × Grant)
  | read (mem : Option (List UInt8)) (len : UInt32) (counts : Bool) (turns : List Turn)
  | yield (delim : List UInt8)
  | write (payload : List UInt8) (script : List Answer)
  | flush (script : List Answer)
  | close (script : List Answer) (close : Option Int)

-- `inbound` tells which direction put bytes into the one buffer last.
structure Session where
  stm : Stream
  world : World
  written : List UInt8
  received : List UInt8
  handed : List UInt8
  inbound : Bool
deriving DecidableEq

def start (stm : Stream) (errno : Int) : Session := ⟨stm,⟨[],errno⟩,[],[],[],false⟩

def Copies (b : Buffer) (payload : List UInt8) : Prop :=
  UInt32.ofNat payload.length ≠ 0 ∧ UInt32.ofNat payload.length < bufferSpace b

instance : Decidable (Copies b payload) := inferInstanceAs (Decidable (_ ∧ _))

-- The bytes behind the pointer that `stream_yield` returns.
def yielded (stm : Stream) : Option (UInt32 × UInt32) → Option (List UInt8)
  | none => some []
  | some (start,len) => load stm.buf.buf start.toNat len.toNat

def step (s : Session) : Call → Option Session
  | .fill supply grants => (streamFill s.stm s.world supply grants).map fun out : Intake =>
      {s with stm:=out.stm,world:=out.world,received:=s.received++out.received,inbound:=s.inbound || decide (out.ret = 0)}
  | .read mem len counts turns => (streamRead s.stm s.world mem len counts turns).map fun out =>
      {s with stm:=out.stm,world:=out.world,received:=s.received++out.received,handed:=s.handed++out.handed}
  | .yield delim => (streamYield s.stm delim (UInt32.ofNat delim.length)).bind fun out =>
      (yielded out.2 out.1).map fun bytes => {s with stm:=out.2,handed:=s.handed++bytes}
  | .write payload script => (streamWrite s.stm s.world payload (UInt32.ofNat payload.length) script).map fun out =>
      {s with stm:=out.stm,world:=out.world,written:=s.written++payload,inbound:=s.inbound && !decide (Copies s.stm.buf payload)}
  | .flush script => (streamFlush s.stm s.world script).map fun out => {s with stm:=out.stm,world:=out.world}
  | .close script close => (streamClose s.stm s.world script close).map fun out => {s with stm:=out.stm,world:=out.world}

def Separate (s : Session) : Prop := s.world.delivered.Sublist s.written ∧ s.handed.Sublist s.received

instance : DecidablePred Separate := fun _ => inferInstanceAs (Decidable (_ ∧ _))

-- Lengths are passed as uint32_t.
def Sized : Call → Prop
  | .yield delim => delim.length < 2^32
  | .write payload _ => payload.length < 2^32
  | _ => True

def Incoming (s : Session) : Prop := bufferAvail s.stm.buf = 0 ∨ s.inbound = true
def Outgoing (s : Session) : Prop := bufferAvail s.stm.buf = 0 ∨ s.inbound = false

instance : DecidablePred Incoming := fun _ => inferInstanceAs (Decidable (_ ∨ _))
instance : DecidablePred Outgoing := fun _ => inferInstanceAs (Decidable (_ ∨ _))

-- The direction changes on an empty buffer only. A fill must also fit the free
-- space, a copying write must find the buffer empty, and a read that runs past
-- the buffer must be answered with data or leave a stray count of 0.
def Directed (s : Session) : Call → Prop
  | .fill supply _ => Incoming s ∧ (taken (fillCapacity s.stm.buf) supply).length ≤ (bufferSpace s.stm.buf).toNat
  | .read none _ _ _ => True
  | .read (some _) len _ turns => Incoming s ∧ (len ≤ bufferAvail s.stm.buf ∨ ∀ turn ∈ turns.head?, Ends turn)
  | .yield delim => Incoming s ∨ firstMatch delim (unread s.stm.buf) = none
  | .write payload _ => (Copies s.stm.buf payload → bufferAvail s.stm.buf = 0) ∧
      (¬ Copies s.stm.buf payload → Outgoing s ∧ (bufferAvail s.stm.buf).toNat+payload.length+1 < 2^32)
  | .flush _ => Outgoing s
  | .close _ _ => Outgoing s

instance (s : Session) : ∀ call, Decidable (Directed s call)
  | .fill _ _ => inferInstanceAs (Decidable (_ ∧ _))
  | .read none _ _ _ => isTrue trivial
  | .read (some _) _ _ _ => inferInstanceAs (Decidable (_ ∧ (_ ∨ _)))
  | .yield _ => inferInstanceAs (Decidable (_ ∨ _))
  | .write _ _ => inferInstanceAs (Decidable ((_ → _) ∧ (_ → _)))
  | .flush _ => inferInstanceAs (Decidable (Outgoing s))
  | .close _ _ => inferInstanceAs (Decidable (Outgoing s))

section Flow
variable {inbound : Bool} {queue written delivered received handed payload more : List UInt8} {n : Nat}

-- What is queued counts for the direction that put it there.
def Flows : Bool → List UInt8 → List UInt8 → List UInt8 → List UInt8 → List UInt8 → Prop
  | true,queue,written,delivered,received,handed => delivered.Sublist written ∧ (handed ++ queue).Sublist received
  | false,queue,written,delivered,received,handed => (delivered ++ queue).Sublist written ∧ handed.Sublist received

theorem Flows.separate (flows : Flows inbound queue written delivered received handed) :
    delivered.Sublist written ∧ handed.Sublist received := by
  cases inbound with
  | true => exact ⟨flows.1,(List.sublist_append_left _ _).trans flows.2⟩
  | false => exact ⟨(List.sublist_append_left _ _).trans flows.1,flows.2⟩

-- An empty queue is on both sides at once.
theorem flows_incoming (either : queue = [] ∨ inbound = true) : Flows inbound queue written delivered received handed ↔
    delivered.Sublist written ∧ (handed ++ queue).Sublist received := by
  rcases either with rfl | rfl
  · cases inbound <;> simp only [Flows,List.append_nil]
  · exact Iff.rfl

theorem flows_outgoing (either : queue = [] ∨ inbound = false) : Flows inbound queue written delivered received handed ↔
    (delivered ++ queue).Sublist written ∧ handed.Sublist received := by
  rcases either with rfl | rfl
  · cases inbound <;> simp only [Flows,List.append_nil]
  · exact Iff.rfl

theorem drop_either {side : Prop} (either : queue = [] ∨ side) : queue.drop n = [] ∨ side :=
  either.imp_left fun empty => by rw [empty,List.drop_nil]

theorem Flows.receive (flows : Flows inbound queue written delivered received handed) (more : List UInt8) :
    Flows inbound queue written delivered (received ++ more) handed := by
  cases inbound <;> exact ⟨flows.1,flows.2.trans (List.sublist_append_left _ _)⟩

theorem Flows.discard (flows : Flows inbound queue written delivered received handed) (n : Nat) :
    Flows inbound (queue.drop n) written delivered received handed := by
  have shorter := List.drop_sublist n queue
  cases inbound with
  | true => exact ⟨flows.1,(shorter.append_left _).trans flows.2⟩
  | false => exact ⟨(shorter.append_left _).trans flows.1,flows.2⟩

theorem Flows.enqueue (flows : Flows inbound queue written delivered received handed) (either : queue = [] ∨ inbound = true)
    (more : List UInt8) : Flows true (queue ++ more) written delivered (received ++ more) handed := by
  obtain ⟨sent,kept⟩ := (flows_incoming either).mp flows
  refine (flows_incoming (Or.inr rfl)).mpr ⟨sent,?_⟩
  rw [← List.append_assoc]
  exact kept.append_right more

theorem Flows.hand (flows : Flows inbound queue written delivered received handed) (either : queue = [] ∨ inbound = true)
    (n : Nat) : Flows inbound (queue.drop n) written delivered received (handed ++ queue.take n) := by
  obtain ⟨sent,kept⟩ := (flows_incoming either).mp flows
  refine (flows_incoming (drop_either either)).mpr ⟨sent,?_⟩
  rw [List.append_assoc,List.take_append_drop]
  exact kept

theorem Flows.store (flows : Flows inbound [] written delivered received handed) (payload : List UInt8) :
    Flows false payload (written ++ payload) delivered received handed := by
  obtain ⟨sent,kept⟩ := flows.separate
  exact (flows_outgoing (Or.inr rfl)).mpr ⟨sent.append_right payload,kept⟩

theorem cut_sublist (queue payload : List UInt8) (n : Nat) :
    ((queue ++ payload).take n ++ queue.drop n).Sublist (queue ++ payload) := by
  by_cases short : n ≤ queue.length
  · rw [List.take_append_of_le_length short,List.take_append_drop]
    exact List.sublist_append_left _ _
  · rw [List.drop_eq_nil_of_le (by omega),List.append_nil]
    exact List.take_sublist _ _

-- A prefix of queue and payload goes out, and the queue loses it.
theorem Flows.deliver (flows : Flows inbound queue written delivered received handed) (either : queue = [] ∨ inbound = false)
    (payload : List UInt8) (n : Nat) :
    Flows inbound (queue.drop n) (written ++ payload) (delivered ++ (queue ++ payload).take n) received handed := by
  obtain ⟨sent,kept⟩ := (flows_outgoing either).mp flows
  refine (flows_outgoing (drop_either either)).mpr ⟨?_,kept⟩
  rw [List.append_assoc]
  refine ((cut_sublist queue payload n).append_left delivered).trans ?_
  rw [← List.append_assoc]
  exact sent.append_right payload

end Flow

structure Sound (s : Session) : Prop where
  valid : Valid s.stm.buf
  small : s.stm.buf.size.toNat ≤ 2^13
  flows : Flows s.inbound (unread s.stm.buf) s.written s.world.delivered s.received s.handed

variable {s next : Session}

theorem Sound.incoming (sound : Sound s) (incoming : Incoming s) : unread s.stm.buf = [] ∨ s.inbound = true :=
  incoming.imp_left sound.valid.avail_zero.mp

theorem Sound.outgoing (sound : Sound s) (outgoing : Outgoing s) : unread s.stm.buf = [] ∨ s.inbound = false :=
  outgoing.imp_left sound.valid.avail_zero.mp

theorem fill_sound (sound : Sound s) (directed : Directed s (.fill supply grants))
    (ran : step s (.fill supply grants) = some next) : Sound next := by
  obtain ⟨out,filled,rfl⟩ := Option.map_eq_some_iff.mp ran
  obtain ⟨valid,size,delivered,outcome⟩ := fill_spec sound.valid directed.2 filled
  refine ⟨valid,by rw [size]; exact sound.small,?_⟩
  dsimp only
  rw [delivered]
  rcases outcome with ⟨ok,view⟩ | ⟨failed,view⟩
  · rw [view,ok,decide_eq_true rfl,Bool.or_true]
    exact sound.flows.enqueue (sound.incoming directed.1) out.received
  · rw [view,failed,decide_eq_false (by decide),Bool.or_false]
    exact sound.flows.receive out.received

theorem read_sound (sound : Sound s) (directed : Directed s (.read mem len counts turns))
    (ran : step s (.read mem len counts turns) = some next) : Sound next := by
  obtain ⟨out,did,rfl⟩ := Option.map_eq_some_iff.mp ran
  have ready : mem = none ∨ len.toNat ≤ (unread s.stm.buf).length ∨ ∀ turn ∈ turns.head?, Ends turn := by
    cases mem with
    | none => exact Or.inl rfl
    | some dest =>
      rw [← sound.valid.avail_exact]
      exact Or.inr (directed.2.imp_left UInt32.le_iff_toNat_le.mp)
  obtain ⟨valid,size,delivered,left,handed⟩ := read_spec sound.valid ready did
  refine ⟨valid,by rw [size]; exact sound.small,?_⟩
  dsimp only
  rw [delivered,left,handed]
  cases mem with
  | none =>
    rw [Option.isSome_none,if_neg (by decide),List.append_nil]
    exact (sound.flows.discard _).receive _
  | some dest =>
    rw [Option.isSome_some,if_pos rfl]
    exact (sound.flows.hand (sound.incoming directed.1) _).receive _

theorem yield_sound (sound : Sound s) (sized : Sized (.yield delim)) (directed : Directed s (.yield delim))
    (ran : step s (.yield delim) = some next) : Sound next := by
  obtain ⟨⟨got,after⟩,did,ran⟩ := Option.bind_eq_some_iff.mp ran
  obtain ⟨bytes,pointed,rfl⟩ := Option.map_eq_some_iff.mp ran
  obtain ⟨valid,size,outcome⟩ := yield_spec sound.valid sized did
  refine ⟨valid,by rw [size]; exact sound.small,?_⟩
  dsimp only
  rcases outcome with ⟨nothing,view⟩ | ⟨start,off,found,something,front,left⟩
  · rw [nothing] at pointed
    cases Option.some.inj pointed
    rw [view,List.append_nil]
    exact sound.flows
  · have incoming := directed.resolve_right found
    rw [something] at pointed
    cases Option.some.inj (front.symm.trans pointed)
    rw [left]
    exact sound.flows.hand (sound.incoming incoming) _

theorem write_sound (sound : Sound s) (sized : Sized (.write payload script)) (directed : Directed s (.write payload script))
    (ran : step s (.write payload script) = some next) : Sound next := by
  obtain ⟨out,did,rfl⟩ := Option.map_eq_some_iff.mp ran
  have avail := sound.valid.avail_exact
  obtain ⟨valid,size,outcome⟩ := write_spec sound.valid sized (fun direct => by rw [← avail]; exact (directed.2 direct).2) did
  refine ⟨valid,by rw [size]; exact sound.small,?_⟩
  dsimp only
  rcases outcome with ⟨copies,delivered,tail,length,view⟩ | ⟨direct,k,delivered,left⟩
  · have empty := sound.valid.avail_zero.mp (directed.1 copies)
    have flows := sound.flows
    rw [empty] at flows view
    rw [List.nil_append,List.drop_eq_nil_of_le (by omega),List.append_nil] at view
    have stored : decide (Copies s.stm.buf payload) = true := decide_eq_true copies
    rw [delivered,view,stored,Bool.not_true,Bool.and_false]
    exact flows.store payload
  · have passed : decide (Copies s.stm.buf payload) = false := decide_eq_false direct
    rw [delivered,left,passed,Bool.not_false,Bool.and_true]
    exact sound.flows.deliver (sound.outgoing (directed.2 direct).1) payload k

-- `stream_close` is a flush here too: closing the descriptor moves no bytes.
theorem flushed_sound {out : Outcome} (sound : Sound s) (outgoing : Outgoing s)
    (spec : Valid out.stm.buf ∧ out.stm.buf.size = s.stm.buf.size ∧
      ∃ k, out.world.delivered = s.world.delivered ++ (unread s.stm.buf).take k ∧ unread out.stm.buf = (unread s.stm.buf).drop k) :
    Sound {s with stm:=out.stm,world:=out.world} := by
  obtain ⟨valid,size,k,delivered,left⟩ := spec
  refine ⟨valid,by rw [size]; exact sound.small,?_⟩
  have flows := sound.flows.deliver (sound.outgoing outgoing) [] k
  rw [List.append_nil,List.append_nil] at flows
  dsimp only
  rw [delivered,left]
  exact flows

theorem step_sound {call : Call} (sound : Sound s) (sized : Sized call) (directed : Directed s call)
    (ran : step s call = some next) : Sound next := by
  have small : s.stm.buf.size.toNat+1 < 2^32 := by
    have bound := sound.small
    omega
  cases call with
  | fill supply grants => exact fill_sound sound directed ran
  | read mem len counts turns => exact read_sound sound directed ran
  | yield delim => exact yield_sound sound sized directed ran
  | write payload script => exact write_sound sound sized directed ran
  | flush script =>
    obtain ⟨out,did,rfl⟩ := Option.map_eq_some_iff.mp ran
    exact flushed_sound sound directed (flush_spec sound.valid small did)
  | close script close =>
    obtain ⟨out,did,rfl⟩ := Option.map_eq_some_iff.mp ran
    exact flushed_sound sound directed (close_spec sound.valid small did)

theorem start_sound {bufsize : UInt32} {header bufHeader block : Bool} {stm : Stream} (errno : Int)
    (made : streamNew bufsize header bufHeader block = some stm) : Sound (start stm errno) := by
  obtain ⟨valid,empty,small,_⟩ := streamNew_valid made
  refine ⟨valid,small,?_⟩
  show Flows false (unread stm.buf) [] [] [] []
  rw [empty]
  exact ⟨List.Sublist.refl [],List.Sublist.refl []⟩

theorem directed_runs_separate {bufsize : UInt32} {header bufHeader block : Bool} {stm : Stream} {errno : Int}
    {calls : List Call} {last : Session} (made : streamNew bufsize header bufHeader block = some stm)
    (sized : ∀ call ∈ calls, Sized call) (directed : Along step Directed (start stm errno) calls)
    (ran : exec step (start stm errno) calls = some last) : Separate last := by
  have sound : Sound last := by
    refine exec_guarded ?_ (start_sound errno made) (along_and.mpr ⟨along_of_forall sized,directed⟩) ran
    intro s call next sound good one
    exact step_sound sound good.1 good.2 one
  exact sound.flows.separate

-- A line comes in, is taken out whole, and only then an answer is written.
def turnTaking : List Call :=
  [.fill (.give [97,10]) (none,none),.yield [10],.write [98,99] [],.flush [.accept 1,.accept 1],.close [] none]

theorem turn_taking_separate : streamNew 0 true true true = some freshStream ∧ (∀ call ∈ turnTaking, Sized call) ∧
    Along step Directed (start freshStream 0) turnTaking ∧
    ∃ last, exec step (start freshStream 0) turnTaking = some last ∧ Separate last ∧
      last.handed = [97,10] ∧ last.world.delivered = [98,99] := by
  have made : streamNew 0 true true true = some freshStream := rfl
  have sized : ∀ call ∈ turnTaking, Sized call := by simp [turnTaking,Sized]
  have directed : Along step Directed (start freshStream 0) turnTaking := by decide +kernel
  have returned : (exec step (start freshStream 0) turnTaking).map (fun s => (s.handed,s.world.delivered)) =
      some ([97,10],[98,99]) := by
    decide +kernel
  obtain ⟨last,ran,seen⟩ := Option.map_eq_some_iff.mp returned
  simp only [Prod.mk.injEq] at seen
  exact ⟨made,sized,directed,last,ran,directed_runs_separate made sized directed ran,seen.1,seen.2⟩

-- A byte read ahead goes out to the descriptor on close; a byte written and not
-- yet flushed is handed to the reader.
theorem directions_mix : streamNew 0 true true true = some freshStream ∧
    (exec step (start freshStream 0) [.fill (.give [97]) (none,none),.close [.accept 1] none]).map
      (fun s => (s.world.delivered,s.written,decide (Separate s))) = some ([97],[],false) ∧
    (exec step (start freshStream 0) [.write [97] [],.read (some [0]) 1 true []]).map
      (fun s => (s.handed,s.received,decide (Separate s))) = some ([97],[],false) := by
  exact ⟨rfl,by decide +kernel,by decide +kernel⟩

end EventLib.StreamDirections

import EventLib.EnabledFlag
import EventLib.EdgeTriggered

namespace EventLib.SocketReceive
open ByteBuffer Events Epoll Streams StreamInput Sockets LabelledRuns EdgeTriggered Errnos
open Eventloops hiding Action Session step start
open EnabledFlag (entry Agrees Edged enabled_edged deliver_entry request idleLoop)

-- `queue` is the kernel's receive queue of the descriptor; `errored` tells that
-- the callback has been given EVMASK_ERROR.
structure Receiving (π τ : Type) where
  loop : Eventloop π τ
  sock : Socket π
  world : World
  queue : List UInt8
  errored : Bool

-- The kernel adds these two to any registration.
structure Readiness where
  err : Bool
  hup : Bool

def Readiness.events (r : Readiness) : UInt32 :=
  EPOLLIN ||| (if r.err then EPOLLERR else 0) ||| (if r.hup then EPOLLHUP else 0)

-- What a callback that only consumes does, call by call.
inductive Consume where
  | read (mem : Option (List UInt8)) (len : UInt32) (counts : Bool) (strays : List UInt32)
  | yield (delim : List UInt8)

structure Reaction where
  script : List Answer
  grants : Grant × Grant
  callback : List Consume

def supplied (queue : List UInt8) : Supply := if queue = [] then .fail EAGAIN else .give queue

-- A `readv` that gives data ends the loop of `stream_read`, so there is one.
def turns (queue : List UInt8) (strays : List UInt32) : List Turn :=
  (if queue = [] then strays else strays.take 1).map fun cnt => ⟨supplied queue,cnt⟩

variable {π τ : Type}

def consume (c : Receiving π τ) : Consume → Option (Receiving π τ)
  | .read mem len counts strays => (streamRead c.sock.istm c.world mem len counts (turns c.queue strays)).map fun out : Handout =>
      {c with sock:={c.sock with istm:=out.stm},world:=out.world,queue:=c.queue.drop out.received.length}
  | .yield delim => (streamYield c.sock.istm delim (UInt32.ofNat delim.length)).map fun out =>
      {c with sock:={c.sock with istm:=out.2}}

section Steps
variable [DecidableEq π]

def settle (c : Receiving π τ) (d : Dispatched π) : Receiving π τ where
  loop := setEvent c.loop c.sock.ev fun e => {e with mask:=d.mask}
  sock := d.sock
  world := d.world
  queue := c.queue.drop d.received.length
  errored := c.errored || decide (d.mask &&& EVMASK_ERROR ≠ 0)

def dispatch (c : Receiving π τ) (r : Reaction) : Option (Receiving π τ) :=
  (sockDispatch (c.loop.heap c.sock.ev).mask c.sock c.world r.script (supplied c.queue) r.grants).bind fun d =>
    exec consume (settle c d) r.callback

def receiving : Device (Receiving π τ) (List UInt8) Readiness Reaction where
  arrive c bytes := {c with queue:=c.queue++bytes}
  report c readiness :=
    if Edged (entry c.loop c.sock.ev) then
      some {c with loop:=setEvent c.loop c.sock.ev fun ev => eventpollDeliver ev readiness.events}
    else none
  handle := dispatch

end Steps

def Settled (c : Receiving π τ) : Prop := c.queue = [] ∨ c.errored = true

instance : DecidablePred (Settled (π:=π) (τ:=τ)) := fun _ => inferInstanceAs (Decidable (_ ∨ _))

def start (loop : Eventloop π τ) (sock : Socket π) (w : World) : State (Receiving π τ) := ⟨⟨loop,sock,w,[],false⟩,false,true⟩

-- One `readv` has room for all that is queued, or more arrived since the report.
def Fits (s : State (Receiving π τ)) : Action (List UInt8) Readiness Reaction → Prop
  | .handle _ => s.waiting = false → s.edge = true ∨ s.work.queue.length ≤ fillCapacity s.work.sock.istm.buf
  | _ => True

instance (s : State (Receiving π τ)) : ∀ action, Decidable (Fits s action)
  | .handle _ => inferInstanceAs (Decidable (_ → _ ∨ _))
  | .arrive _ => isTrue trivial
  | .report _ => isTrue trivial

-- The socket is registered for input alone, so a report is input or an error.
structure Reported (s : State (Receiving π τ)) : Prop where
  registered : Edged (entry s.work.loop s.work.sock.ev)
  readable : s.waiting = false → (s.work.loop.heap s.work.sock.ev).mask = EVMASK_READ ∨
    (s.work.loop.heap s.work.sock.ev).mask = EVMASK_ERROR

theorem events_mask (ev : Event π) (r : Readiness) :
    (eventpollDeliver ev r.events).mask = if r.err = false ∧ r.hup = false then EVMASK_READ else EVMASK_ERROR := by
  obtain ⟨err,hup⟩ := r
  cases err <;> cases hup <;> rfl

theorem consume_settled {c next : Receiving π τ} {one : Consume} (settled : Settled c) (ran : consume c one = some next) :
    Settled next := by
  cases one with
  | read mem len counts strays =>
    obtain ⟨out,_,rfl⟩ := Option.map_eq_some_iff.mp ran
    refine settled.imp_left ?_
    intro empty
    simp [empty]
  | yield delim =>
    obtain ⟨out,_,rfl⟩ := Option.map_eq_some_iff.mp ran
    exact settled

theorem consume_place {c next : Receiving π τ} {one : Consume} (ran : consume c one = some next) :
    next.loop = c.loop ∧ next.sock.ev = c.sock.ev := by
  cases one with
  | read mem len counts strays =>
    obtain ⟨out,_,rfl⟩ := Option.map_eq_some_iff.mp ran
    exact ⟨rfl,rfl⟩
  | yield delim =>
    obtain ⟨out,_,rfl⟩ := Option.map_eq_some_iff.mp ran
    exact ⟨rfl,rfl⟩

theorem dispatch_error (sock : Socket π) (w : World) (script : List Answer) (supply : Supply) (grants : Grant × Grant) :
    sockDispatch EVMASK_ERROR sock w script supply grants =
      some ⟨EVMASK_ERROR,{sock with istm:=streamSetMask sock.istm 0},w,[]⟩ := by
  have no_write : ¬ EVMASK_ERROR &&& (EVMASK_WRITE ||| EVMASK_ERROR) = EVMASK_WRITE := by decide
  have no_read : ¬ EVMASK_ERROR &&& (EVMASK_READ ||| EVMASK_ERROR) = EVMASK_READ := by decide
  simp only [sockDispatch,dispatchWrite,if_neg no_write,Option.bind_some,dispatchRead,if_neg no_read]

theorem dispatch_read (sock : Socket π) (w : World) (script : List Answer) (supply : Supply) (grants : Grant × Grant) :
    sockDispatch EVMASK_READ sock w script supply grants =
      (streamFill (streamSetMask sock.istm 0) w supply grants).map fun out =>
        ⟨markError EVMASK_READ (if out.ret ≠ 0 ∧ out.stm.lastErr ≠ EAGAIN then -1 else 0),
          {sock with istm:=out.stm},out.world,out.received⟩ := by
  have no_write : ¬ EVMASK_READ &&& (EVMASK_WRITE ||| EVMASK_ERROR) = EVMASK_WRITE := by decide
  have read : EVMASK_READ &&& (EVMASK_READ ||| EVMASK_ERROR) = EVMASK_READ := by decide
  simp only [sockDispatch,dispatchWrite,if_neg no_write,Option.bind_some,dispatchRead,if_pos read,tryRead,Option.map_map]
  rfl

theorem drop_all {queue : List UInt8} {capacity : Nat} (fits : queue.length ≤ capacity) :
    queue.drop (taken capacity (supplied queue)).length = [] := by
  by_cases empty : queue = []
  · simp [empty]
  · simp [supplied,empty,taken,fits]

theorem exec_settled {c last : Receiving π τ} {callback : List Consume} (settled : Settled c)
    (ran : exec consume c callback = some last) : Settled last :=
  exec_guarded (fun _ _ _ settled _ one => consume_settled settled one) settled along_true ran

theorem exec_place {c last : Receiving π τ} {callback : List Consume} (ran : exec consume c callback = some last) :
    entry last.loop last.sock.ev = entry c.loop c.sock.ev := by
  induction callback generalizing c with
  | nil =>
    cases Option.some.inj ran
    rfl
  | cons one rest ih =>
    obtain ⟨next,did,ran⟩ := exec_cons.mp ran
    obtain ⟨loop,ev⟩ := consume_place did
    rw [ih ran,loop,ev]

theorem sockDispatch_ev {d : Dispatched π} (did : sockDispatch mask sock w script supply grants = some d) :
    d.sock.ev = sock.ev := by
  obtain ⟨middle,wrote,read⟩ := Option.bind_eq_some_iff.mp did
  have after : middle.sock.ev = sock.ev := by
    unfold dispatchWrite at wrote
    split at wrote
    · obtain ⟨_,flushed,rfl⟩ := Option.map_eq_some_iff.mp wrote
      obtain ⟨_,_,rfl⟩ := Option.map_eq_some_iff.mp flushed
      rfl
    · cases Option.some.inj wrote
      rfl
  unfold dispatchRead at read
  split at read
  · obtain ⟨_,filled,rfl⟩ := Option.map_eq_some_iff.mp read
    obtain ⟨_,_,rfl⟩ := Option.map_eq_some_iff.mp filled
    exact after
  · cases Option.some.inj read
    exact after

section Proofs
variable [DecidableEq π]

-- The callback may only shorten what the dispatch left.
theorem dispatch_settles {c next : Receiving π τ} {r : Reaction} (fits : c.queue.length ≤ fillCapacity c.sock.istm.buf)
    (readable : (c.loop.heap c.sock.ev).mask = EVMASK_READ ∨ (c.loop.heap c.sock.ev).mask = EVMASK_ERROR)
    (ran : dispatch c r = some next) : Settled next := by
  obtain ⟨d,did,called⟩ := Option.bind_eq_some_iff.mp ran
  refine exec_settled ?_ called
  rcases readable with read | error
  · rw [read,dispatch_read] at did
    obtain ⟨out,filled,rfl⟩ := Option.map_eq_some_iff.mp did
    refine Or.inl ?_
    show c.queue.drop out.received.length = []
    rw [fill_received filled]
    exact drop_all fits
  · rw [error,dispatch_error] at did
    cases Option.some.inj did
    exact Or.inr (by simp [settle,EVMASK_ERROR])

theorem dispatch_entry {c next : Receiving π τ} {r : Reaction} (ran : dispatch c r = some next) :
    entry next.loop next.sock.ev = entry c.loop c.sock.ev := by
  obtain ⟨d,did,called⟩ := Option.bind_eq_some_iff.mp ran
  rw [exec_place called]
  simp [settle,sockDispatch_ev did,entry,setEvent]

theorem step_reported {s next : State (Receiving π τ)} {action : Action (List UInt8) Readiness Reaction}
    (reported : Reported s) (ran : step receiving s action = some next) : Reported next := by
  cases action with
  | arrive bytes =>
    cases Option.some.inj ran
    exact ⟨reported.registered,reported.readable⟩
  | report readiness =>
    obtain ⟨_,ran⟩ := Option.ite_none_right_eq_some.mp ran
    obtain ⟨work,did,rfl⟩ := Option.map_eq_some_iff.mp ran
    obtain ⟨_,same⟩ := Option.ite_none_right_eq_some.mp did
    cases Option.some.inj same
    refine ⟨?_,?_⟩
    · simpa only [deliver_entry] using reported.registered
    · intro _
      simp only [setEvent_here,events_mask]
      split
      · exact Or.inl rfl
      · exact Or.inr rfl
  | handle reaction =>
    obtain ⟨_,ran⟩ := Option.ite_none_left_eq_some.mp ran
    obtain ⟨work,did,rfl⟩ := Option.map_eq_some_iff.mp ran
    refine ⟨?_,?_⟩
    · rw [dispatch_entry did]
      exact reported.registered
    · intro busy
      cases busy

theorem fits_clears {s : State (Receiving π τ)} {action : Action (List UInt8) Readiness Reaction} (reported : Reported s)
    (fits : Fits s action) : Clears receiving Settled s action := by
  cases action with
  | arrive bytes => trivial
  | report readiness => trivial
  | handle reaction =>
    intro busy low work did
    have room := (fits busy).resolve_left (by simp [low])
    exact dispatch_settles room (reported.readable busy) did

theorem never_stranded_when_fits {loop : Eventloop π τ} {sock : Socket π} (enabled : Agrees loop sock.ev true) (w : World)
    (actions : List (Action (List UInt8) Readiness Reaction)) (fits : Along (step receiving) Fits (start loop sock w) actions) :
    Along (step receiving) (After (step receiving) fun next => ¬ Stranded Settled next) (start loop sock w) actions ∧
    ∀ last, exec (step receiving) (start loop sock w) actions = some last → last.waiting = true → last.edge = true →
      ∀ readiness, ∃ next, step receiving last (.report readiness) = some next := by
  have begin : Reported (start loop sock w) := ⟨enabled_edged enabled,by intro busy; cases busy⟩
  constructor
  · rw [never_stranded_iff]
    exact along_guarded (fun _ _ _ reported _ one => step_reported reported one) (fun _ _ reported fits => fits_clears reported fits)
      begin fits
  · intro last ran waiting raised readiness
    have reported : Reported last :=
      exec_guarded (fun _ _ _ reported _ one => step_reported reported one) begin along_true ran
    simp [step,waiting,raised,receiving,reported.registered]

-- Short of that the rest stays behind: the report is spent and the callback has
-- nothing to tell it by.
theorem overfull_strands {s : State (Receiving π τ)} (script : List Answer) (grants : Grant × Grant) (busy : s.waiting = false)
    (low : s.edge = false) (sane : s.work.errored = false) (readable : (s.work.loop.heap s.work.sock.ev).mask = EVMASK_READ)
    (valid : Valid s.work.sock.istm.buf) (free : s.work.sock.istm.lock = 0)
    (room : s.work.sock.istm.buf.size.toNat+2*STM_READALL_LEN < 2^32)
    (full : fillCapacity s.work.sock.istm.buf < s.work.queue.length) :
    ∃ next, step receiving s (.handle ⟨script,grants,[]⟩) = some next ∧ Stranded Settled next := by
  have capacity : fillCapacity s.work.sock.istm.buf = (bufferSpace s.work.sock.istm.buf).toNat+65535 := rfl
  have space := valid.space_exact
  have limit : s.work.sock.istm.buf.size.toNat+2*65535 < 2^32 := room
  have some_queued : s.work.queue ≠ [] := by
    intro empty
    simp [empty] at full
  have length : (taken (fillCapacity s.work.sock.istm.buf) (supplied s.work.queue)).length = fillCapacity s.work.sock.istm.buf := by
    simp only [supplied,some_queued,if_false,taken,List.length_take]
    omega
  have resetValid : Valid (streamSetMask s.work.sock.istm 0).buf := valid
  obtain ⟨out,filled⟩ := fill_total grants s.work.world (supplied s.work.queue) resetValid free room
  have ok : out.ret = 0 := by
    refine fill_answered ?_ ?_ filled
    · show 0 < (taken (fillCapacity s.work.sock.istm.buf) (supplied s.work.queue)).length
      omega
    · show fillCapacity s.work.sock.istm.buf+1 < 2^32
      omega
  have received : out.received.length = fillCapacity s.work.sock.istm.buf := by
    rw [fill_received filled]
    exact length
  obtain ⟨d,mask,kept,dispatched⟩ : ∃ d : Dispatched π, d.mask = EVMASK_READ ∧ d.received = out.received ∧
      dispatch s.work ⟨script,grants,[]⟩ = some (settle s.work d) := by
    refine ⟨⟨EVMASK_READ,{s.work.sock with istm:=out.stm},out.world,out.received⟩,rfl,rfl,?_⟩
    rw [dispatch,readable,dispatch_read,filled,Option.map_some,Option.bind_some,ok]
    rfl
  have stepped : step receiving s (.handle ⟨script,grants,[]⟩) = some ⟨settle s.work d,s.edge,true⟩ := by
    simp [step,busy,receiving,dispatched]
  refine ⟨_,stepped,rfl,low,?_⟩
  rintro (drained | errored)
  · have short := congrArg List.length drained
    simp only [settle,kept,List.length_drop,List.length_nil,received] at short
    omega
  · simp only [settle,sane,mask,Bool.false_or,decide_eq_true_eq] at errored
    exact errored (by decide)

end Proofs

def freshSocket : Socket Nat := ⟨3,1,freshStream,freshStream⟩
def enabledLoop : Eventloop Nat Nat := (request idleLoop 3 true (none,none)).2

theorem fresh_enabled : socketEnable idleLoop 0 {freshSocket with enabled:=0} 1 (none,none) = some (0,freshSocket,enabledLoop) ∧
    Agrees enabledLoop freshSocket.ev true :=
  ⟨rfl,by decide,by decide⟩

-- The callback takes the first line and leaves the rest in the stream.
def shortLines : List (Action (List UInt8) Readiness Reaction) :=
  [.arrive [97,10],.report ⟨false,false⟩,.arrive [98],.handle ⟨[],(none,none),[.yield [10]]⟩,.report ⟨false,false⟩,
    .handle ⟨[],(none,none),[]⟩]

theorem short_lines_received : Agrees enabledLoop freshSocket.ev true ∧
    Along (step receiving) Fits (start enabledLoop freshSocket ⟨[],0⟩) shortLines ∧
    Along (step receiving) (After (step receiving) fun next => ¬ Stranded Settled next)
      (start enabledLoop freshSocket ⟨[],0⟩) shortLines ∧
    (exec (step receiving) (start enabledLoop freshSocket ⟨[],0⟩) shortLines).map
      (fun last => (last.work.queue,unread last.work.sock.istm.buf,last.work.errored)) = some ([],[98],false) := by
  have fits : Along (step receiving) Fits (start enabledLoop freshSocket ⟨[],0⟩) shortLines := by decide +kernel
  exact ⟨fresh_enabled.2,fits,(never_stranded_when_fits fresh_enabled.2 ⟨[],0⟩ shortLines fits).1,by decide +kernel⟩

theorem long_arrival_strands {bytes : List UInt8} (long : 73727 < bytes.length) : ∃ last,
    exec (step receiving) (start enabledLoop freshSocket ⟨[],0⟩)
      [.arrive bytes,.report ⟨false,false⟩,.handle ⟨[],(some fun _ => 0,some fun _ => 0),[]⟩] = some last ∧
    Stranded Settled last := by
  have valid : Valid freshSocket.istm.buf := ⟨List.length_replicate,by decide,Or.inr ⟨rfl,rfl⟩⟩
  let reported : State (Receiving Nat Nat) :=
    ⟨⟨setEvent enabledLoop 3 fun ev => eventpollDeliver ev (Readiness.events ⟨false,false⟩),freshSocket,⟨[],0⟩,bytes,false⟩,
      false,false⟩
  have full : fillCapacity freshSocket.istm.buf < bytes.length := by
    rw [show fillCapacity freshSocket.istm.buf = 73727 by decide]
    exact long
  obtain ⟨last,ran,stranded⟩ := overfull_strands [] (some fun _ => 0,some fun _ => 0) (s:=reported) rfl rfl rfl rfl valid rfl
    (show freshSocket.istm.buf.size.toNat+2*STM_READALL_LEN < 2^32 by decide) full
  refine ⟨last,?_,stranded⟩
  exact exec_cons.mpr ⟨_,rfl,exec_cons.mpr ⟨reported,rfl,exec_cons.mpr ⟨last,ran,rfl⟩⟩⟩

-- One byte more than the free space and the overflow area hold.
theorem long_arrival_stranded :
    socketEnable idleLoop 0 {freshSocket with enabled:=0} 1 (none,none) = some (0,freshSocket,enabledLoop) ∧ ∃ last,
    exec (step receiving) (start enabledLoop freshSocket ⟨[],0⟩)
      [.arrive (List.replicate 73728 0),.report ⟨false,false⟩,.handle ⟨[],(some fun _ => 0,some fun _ => 0),[]⟩] = some last ∧
    Stranded Settled last :=
  ⟨fresh_enabled.1,long_arrival_strands (by rw [List.length_replicate]; decide)⟩

end EventLib.SocketReceive

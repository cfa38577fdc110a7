import EventLib.EnabledFlag
import EventLib.Sockaddr

namespace EventLib.Connectors
open Events Epoll LabelledRuns Errnos
open Eventloops hiding Action Session step start
open EnabledFlag (entry idleLoop)
open Sockaddrs (sockaddrSockname)

-- What a failed system call leaves in `errno`.
structure Errno where
  value : Int
  nonzero : value ≠ 0

-- `stray` is a pointer nobody set.
inductive Pointer where
  | null | made | stray
deriving DecidableEq

structure Callback where
  err : Int
  sock : Pointer
deriving DecidableEq

-- The outcomes of the calls of one `connector_connect`, and what the variable
-- `sock`, which nothing initialises, happens to hold.
structure Attempt where
  socket : Option Errno
  fd : Int
  connect : Option Errno
  sockname : Option Errno
  wrap : Bool
  stale : Pointer
  faults : Faults

-- The outcomes behind one readiness event of a connecting descriptor.
structure Progress where
  getsockopt : Option Errno
  pending : Int
  sockname : Option Errno
  wrap : Bool

-- The answer of `getsockname`. The name goes into the socket, and which it is
-- decides nothing here.
def nameAnswer : Option Errno → Except Int (List UInt8)
  | none => .ok []
  | some errno => .error errno.value

-- The common tail of both functions, with the value `sock` has before it.
def wrapped (sockname : Option Errno) (wrap : Bool) (sock : Pointer) : Callback :=
  let err := (sockaddrSockname (nameAnswer sockname)).1
  ⟨err,if err = 0 then (if wrap then .made else .null) else sock⟩

-- What getsockopt(SO_ERROR) stored in `err` is overwritten before it is read.
def connectorDispatch (mask : UInt32) (p : Progress) : Callback :=
  if mask = EVMASK_TIME then ⟨ETIMEDOUT,.null⟩ else
  match p.getsockopt with
  | some errno => ⟨errno.value,.null⟩
  | none => wrapped p.sockname p.wrap .null

def InProgress (a : Attempt) : Prop := a.socket.isNone ∧ a.connect.map Errno.value = some EINPROGRESS

instance : DecidablePred InProgress := fun _ => inferInstanceAs (Decidable (_ ∧ _))

variable {π τ : Type}

-- Only EINPROGRESS is told apart; any other failure goes the way of success.
def connectorConnect [DecidableEq π] [DecidableEq τ] (loop : Eventloop π τ) (self : τ) (ev : π) (a : Attempt) :
    Option (Option Callback × Eventloop π τ) :=
  match a.socket with
  | some errno => some (some ⟨errno.value,.null⟩,loop)
  | none =>
    if a.connect.map Errno.value = some EINPROGRESS then
      (eventloopApply (setEvent loop ev fun _ => eventInit a.fd EVMASK_WRITE) self ev a.faults).map fun (_,loop) => (none,loop)
    else some (some (wrapped a.sockname a.wrap a.stale),loop)

inductive Action (τ : Type) where
  | connect (thread : τ) (a : Attempt)
  | deliver (events : UInt32) (p : Progress)
  | drain (fuel : Nat) (faults : Nat → Faults)

-- `callbacks` lists the calls of `conct->cb`, oldest first.
structure Session (π τ : Type) where
  loop : Eventloop π τ
  callbacks : List Callback

section Steps
variable [DecidableEq π] [DecidableEq τ]

-- The kernel delivers while the descriptor is registered with `conct->ev`.
def step (ev : π) (s : Session π τ) : Action τ → Option (Session π τ)
  | .connect thread a => (connectorConnect s.loop thread ev a).map fun (called,loop) => ⟨loop,s.callbacks++called.toList⟩
  | .deliver events p =>
    if (entry s.loop ev).map Prod.snd = some ev then
      some ⟨setEvent s.loop ev fun e => eventpollDeliver e events,
        s.callbacks++[connectorDispatch (eventpollDeliver (s.loop.heap ev) events).mask p]⟩
    else none
  | .drain fuel faults => (panding fuel faults s.loop).map fun (_,loop) => ⟨loop,s.callbacks⟩

end Steps

-- The wrapping of an established connection.
def Wraps (sockname : Option Errno) (wrap : Bool) : Prop := sockname.isNone ∧ wrap = true

def Established (cb : Callback) : Prop := cb.err = 0 ∧ cb.sock ≠ .null
def Failed (cb : Callback) : Prop := cb.err ≠ 0 ∧ cb.sock = .null

-- The callbacks a step makes say what became of the attempt.
def Faithful [DecidableEq π] [DecidableEq τ] (ev : π) (s : Session π τ) : Action τ → Prop
  | .connect thread a => ∀ cb loop, connectorConnect s.loop thread ev a = some (some cb,loop) → a.socket.isNone →
      (a.connect.isNone → Wraps a.sockname a.wrap → Established cb) ∧ (a.connect.isSome → Failed cb)
  | .deliver events p => p.getsockopt.isNone →
      (p.pending = 0 → Wraps p.sockname p.wrap → Established (connectorDispatch (eventpollDeliver (s.loop.heap ev) events).mask p)) ∧
      (p.pending ≠ 0 → Failed (connectorDispatch (eventpollDeliver (s.loop.heap ev) events).mask p))
  | .drain _ _ => True

-- A refused connection is noticed by `getsockname` alone.
def Noticed (_ : Session π τ) : Action τ → Prop
  | .connect _ a => a.socket.isNone → a.connect.isSome → ¬ InProgress a → a.sockname.isSome ∧ a.stale = .null
  | .deliver _ p => p.getsockopt.isNone → p.pending ≠ 0 → p.sockname.isSome
  | .drain _ _ => True

theorem wrapped_established {sockname : Option Errno} {wrap : Bool} {sock : Pointer} (wraps : Wraps sockname wrap) :
    Established (wrapped sockname wrap sock) := by
  cases sockname with
  | none => simp [Established,wrapped,nameAnswer,sockaddrSockname,wraps.2]
  | some errno => cases wraps.1

theorem wrapped_failed_iff (sockname : Option Errno) (wrap : Bool) (sock : Pointer) :
    Failed (wrapped sockname wrap sock) ↔ sockname.isSome ∧ sock = .null := by
  cases sockname with
  | none => simp [Failed,wrapped,nameAnswer,sockaddrSockname]
  | some errno => simp [Failed,wrapped,nameAnswer,sockaddrSockname,errno.nonzero]

theorem deliver_not_time (e : Event π) (events : UInt32) : (eventpollDeliver e events).mask ≠ EVMASK_TIME := by
  simp only [eventpollDeliver]
  split
  · decide
  · split
    · decide
    · split <;> decide

section Proofs
variable [DecidableEq π] [DecidableEq τ]

theorem faithful_exact (ev : π) (s : Session π τ) (action : Action τ) : Faithful ev s action ↔ Noticed s action := by
  cases action with
  | drain fuel faults => exact Iff.rfl
  | deliver events p =>
    have polled := deliver_not_time (s.loop.heap ev) events
    cases asked : p.getsockopt with
    | some errno => simp [Faithful,Noticed,asked]
    | none =>
      have dispatched : connectorDispatch (eventpollDeliver (s.loop.heap ev) events).mask p = wrapped p.sockname p.wrap .null := by
        simp [connectorDispatch,polled,asked]
      simp only [Faithful,Noticed,dispatched,asked,wrapped_failed_iff]
      constructor
      · intro faithful open_ failing
        exact ((faithful open_).2 failing).1
      · intro noticed open_
        exact ⟨fun _ wraps => wrapped_established wraps,fun failing => ⟨noticed open_ failing,trivial⟩⟩
  | connect thread a =>
    cases made : a.socket with
    | some errno => simp [Faithful,Noticed,made]
    | none =>
      by_cases waits : a.connect.map Errno.value = some EINPROGRESS
      · have inProgress : InProgress a := ⟨by simp [made],waits⟩
        simp [Faithful,Noticed,connectorConnect,made,waits,inProgress]
      · have settled : ¬ InProgress a := fun inProgress => waits inProgress.2
        have called : connectorConnect s.loop thread ev a = some (some (wrapped a.sockname a.wrap a.stale),s.loop) := by
          simp [connectorConnect,made,waits]
        constructor
        · intro faithful open_ refused _
          exact (wrapped_failed_iff _ _ _).mp ((faithful _ _ called open_).2 refused)
        · intro noticed cb loop did open_
          cases Option.some.inj (called.symm.trans did)
          exact ⟨fun _ wraps => wrapped_established wraps,
            fun refused => (wrapped_failed_iff _ _ _).mpr (noticed open_ refused settled)⟩

theorem reports_faithful_iff (ev : π) (s : Session π τ) (actions : List (Action τ)) :
    Along (step ev) (Faithful ev) s actions ↔ Along (step ev) Noticed s actions :=
  along_congr (faithful_exact ev)

end Proofs

def refused : Errno := ⟨111,by decide⟩
def pendingConnect : Errno := ⟨EINPROGRESS,by decide⟩
def refusedAttempt : Attempt := ⟨none,7,some refused,none,true,.stray,(none,none)⟩
def pendingAttempt : Attempt := ⟨none,7,some pendingConnect,none,true,.stray,(none,none)⟩

-- ECONNREFUSED from `connect`, and as the pending error of a connection in
-- progress: both are reported as established.
theorem refused_reported_established :
    ((step 3 ⟨idleLoop,[]⟩ (.connect 0 refusedAttempt)).map Session.callbacks = some [⟨0,.made⟩]) ∧
    ((exec (step 3) ⟨idleLoop,[]⟩ [.connect 0 pendingAttempt,.deliver (EPOLLOUT ||| EPOLLERR ||| EPOLLHUP) ⟨none,111,none,true⟩]).map
      Session.callbacks = some [⟨0,.made⟩]) ∧
    ¬ Faithful 3 (⟨idleLoop,[]⟩ : Session Nat Nat) (.connect 0 refusedAttempt) ∧
    ¬ Along (step 3) (Faithful 3) (⟨idleLoop,[]⟩ : Session Nat Nat)
      [.connect 0 pendingAttempt,.deliver (EPOLLOUT ||| EPOLLERR ||| EPOLLHUP) ⟨none,111,none,true⟩] := by
  refine ⟨by decide,by decide,?_,?_⟩
  · rw [faithful_exact]
    intro noticed
    exact absurd (noticed rfl rfl (by decide)).1 (by decide)
  · intro faithful
    have last := ((along_cons rfl).mp faithful).2.1
    rw [faithful_exact] at last
    exact absurd (last rfl (by decide)) (by decide)

def isDelivery : Action τ → Bool
  | .deliver _ _ => true
  | _ => false

def isConnect : Action τ → Bool
  | .connect _ _ => true
  | _ => false

-- Every pointer made in a dispatch is a socket object of its own.
def sockets (s : Session π τ) : Nat := s.callbacks.countP (·.sock = .made)

section Proofs
variable [DecidableEq π] [DecidableEq τ]

theorem step_callbacks {ev : π} {s next : Session π τ} {action : Action τ} (later : isConnect action = false)
    (ran : step ev s action = some next) :
    next.callbacks.length = s.callbacks.length+(if isDelivery action then 1 else 0) := by
  cases action with
  | connect thread a => cases later
  | deliver events p =>
    obtain ⟨_,same⟩ := Option.ite_none_right_eq_some.mp ran
    cases Option.some.inj same
    simp [isDelivery]
  | drain fuel faults =>
    obtain ⟨_,_,rfl⟩ := Option.map_eq_some_iff.mp ran
    rfl

theorem run_callbacks {ev : π} {s last : Session π τ} {actions : List (Action τ)}
    (later : ∀ action ∈ actions, isConnect action = false) (ran : exec (step ev) s actions = some last) :
    last.callbacks.length = s.callbacks.length+actions.countP isDelivery := by
  induction actions generalizing s with
  | nil =>
    cases Option.some.inj ran
    rfl
  | cons action rest ih =>
    obtain ⟨next,one,tail⟩ := exec_cons.mp ran
    have rest_later : ∀ action ∈ rest, isConnect action = false := fun action member => later action (List.mem_cons_of_mem _ member)
    rw [ih rest_later tail,step_callbacks (later action List.mem_cons_self) one,List.countP_cons]
    omega

-- Nothing takes the descriptor out of the poll set, so every delivery calls back.
theorem called_once_iff {ev : π} {loop : Eventloop π τ} {thread : τ} {a : Attempt} {rest : List (Action τ)} {last : Session π τ}
    (inProgress : InProgress a) (later : ∀ action ∈ rest, isConnect action = false)
    (ran : exec (step ev) ⟨loop,[]⟩ (.connect thread a::rest) = some last) :
    last.callbacks.length ≤ 1 ∧ sockets last ≤ 1 ↔ rest.countP isDelivery ≤ 1 := by
  obtain ⟨next,one,tail⟩ := exec_cons.mp ran
  have silent : next.callbacks = [] := by
    obtain ⟨⟨called,after⟩,connected,rfl⟩ := Option.map_eq_some_iff.mp one
    have made : a.socket = none := Option.isNone_iff_eq_none.mp inProgress.1
    simp only [connectorConnect,made,if_pos inProgress.2] at connected
    obtain ⟨_,_,same⟩ := Option.map_eq_some_iff.mp connected
    cases same
    rfl
  have count := run_callbacks later tail
  rw [silent,List.length_nil,Nat.zero_add] at count
  have fewer : sockets last ≤ last.callbacks.length := List.countP_le_length
  rw [← count]
  constructor
  · exact And.left
  · intro once
    exact ⟨once,Nat.le_trans fewer once⟩

end Proofs

def established : Progress := ⟨none,0,none,true⟩

theorem one_delivery_one_callback : InProgress pendingAttempt ∧
    ∃ last, exec (step 3) ⟨idleLoop,[]⟩ [.connect 0 pendingAttempt,.deliver EPOLLOUT established] = some last ∧
      last.callbacks.length ≤ 1 ∧ sockets last ≤ 1 := by
  have inProgress : InProgress pendingAttempt := by decide
  have later : ∀ action ∈ [Action.deliver (τ:=Nat) EPOLLOUT established], isConnect action = false := by simp [isConnect]
  obtain ⟨last,ran⟩ : ∃ last, exec (step 3) ⟨idleLoop,[]⟩ [.connect 0 pendingAttempt,.deliver EPOLLOUT established] = some last :=
    ⟨_,rfl⟩
  exact ⟨inProgress,last,ran,(called_once_iff inProgress later ran).mpr (by decide)⟩

-- Writable when the connection is up, then a hang-up when the peer leaves: the
-- second event makes a second socket of the same descriptor.
theorem hangup_calls_again : ∃ last,
    exec (step 3) ⟨idleLoop,[]⟩
      [.connect 0 pendingAttempt,.deliver EPOLLOUT established,.deliver (EPOLLOUT ||| EPOLLHUP) established] = some last ∧
      last.callbacks = [⟨0,.made⟩,⟨0,.made⟩] ∧ sockets last = 2 :=
  ⟨_,rfl,by decide,by decide⟩

end EventLib.Connectors

import EventLib.Socket
import EventLib.LabelledRuns

namespace EventLib.EnabledFlag
open Events Epoll Eventloops Listeners Sockets LabelledRuns
open Streams (bareStream)

-- What listeners and sockets have in common here: an event, a flag, and a call
-- made on the loop's own thread that is asked to set it.
structure Endpoint (δ π τ : Type) where
  ev : δ → π
  enabled : δ → Int
  enable : Eventloop π τ → δ → Int → Bool → Faults → Option (Int × δ × Eventloop π τ)

structure Session (δ π τ : Type) where
  dev : δ
  loop : Eventloop π τ

inductive Action where
  | enable (value : Bool) (listen : Bool) (faults : Faults)
  | deliver (events : UInt32)

def flag (value : Bool) : Int := if value then 1 else 0

variable {δ π τ : Type}

def entry (loop : Eventloop π τ) (ev : π) : Option (UInt32 × π) := loop.poll.interest (loop.heap ev).fd

-- Registered for reading, or not registered at all.
def Shows : Bool → Option (UInt32 × π) → Prop
  | true,some (want,_) => want &&& EPOLLIN ≠ 0
  | true,none => False
  | false,found => found = none

def Truthful (e : Endpoint δ π τ) (s : Session δ π τ) : Action → Prop
  | .enable value listen faults => ∀ ret dev loop, e.enable s.loop s.dev (flag value) listen faults = some (ret,dev,loop) →
      (ret = 0 → Shows value (entry loop (e.ev s.dev))) ∧ (ret = -1 → e.enabled dev = e.enabled s.dev)
  | .deliver _ => True

section Steps
variable [DecidableEq π]

-- The kernel reports registered descriptors only.
def step (e : Endpoint δ π τ) (s : Session δ π τ) : Action → Option (Session δ π τ)
  | .enable value listen faults => (e.enable s.loop s.dev (flag value) listen faults).map fun (_,dev,loop) => ⟨dev,loop⟩
  | .deliver events =>
    if (entry s.loop (e.ev s.dev)).isSome then
      some {s with loop:=setEvent s.loop (e.ev s.dev) fun ev => eventpollDeliver ev events}
    else none

variable [DecidableEq τ]

def listenerEndpoint : Endpoint (Listener π) π τ :=
  ⟨Listener.ev,Listener.enabled,fun loop lstn enable listen faults => listenerEnable loop loop.me lstn enable listen faults⟩

def socketEndpoint : Endpoint (Socket π) π τ :=
  ⟨Socket.ev,Socket.enabled,fun loop sock enable _ faults => socketEnable loop loop.me sock enable faults⟩

end Steps

-- The kernel grants the first `epoll_ctl`, and an enabling starts from an event
-- that was never applied.
def Grants (loop : Eventloop π τ) (ev : π) (value : Bool) (faults : Faults) : Prop :=
  faults.1 = none ∧ (value = true → (loop.heap ev).lastMask = 0)

instance (loop : Eventloop π τ) (ev : π) : Decidable (Grants loop ev value faults) :=
  match given : faults.1 with
  | none => decidable_of_iff (value = true → (loop.heap ev).lastMask = 0)
      ⟨fun fresh => ⟨given,fresh⟩,And.right⟩
  | some _ => isFalse fun grants => by rw [grants.1] at given; cases given

def ListenerTrusted (s : Session (Listener π) π τ) : Action → Prop
  | .enable value listen faults => s.dev.enabled = flag value ∨ s.dev.listening = 0 ∧ listen = false ∨
      Grants s.loop s.dev.ev value faults
  | .deliver _ => True

def SocketTrusted (s : Session (Socket π) π τ) : Action → Prop
  | .enable value _ faults => s.dev.enabled = flag value ∨ Grants s.loop s.dev.ev value faults
  | .deliver _ => True

instance (s : Session (Listener π) π τ) : ∀ action, Decidable (ListenerTrusted s action)
  | .enable _ _ _ => inferInstanceAs (Decidable (_ ∨ _ ∧ _ ∨ _))
  | .deliver _ => isTrue trivial

instance (s : Session (Socket π) π τ) : ∀ action, Decidable (SocketTrusted s action)
  | .enable _ _ _ => inferInstanceAs (Decidable (_ ∨ _))
  | .deliver _ => isTrue trivial

-- The three copies of the state agree: kernel, `last_mask` and flag.
def Agrees (loop : Eventloop π τ) (ev : π) : Bool → Prop
  | true => entry loop ev = some (newMask EVMASK_READ,ev) ∧ (loop.heap ev).lastMask ≠ 0
  | false => entry loop ev = none

theorem Agrees.shows {loop : Eventloop π τ} {ev : π} (agrees : Agrees loop ev value) : Shows value (entry loop ev) := by
  cases value with
  | true =>
    rw [agrees.1]
    show newMask EVMASK_READ &&& EPOLLIN ≠ 0
    decide
  | false => exact agrees

-- The registered mask asks for input and for edges.
def Edged (found : Option (UInt32 × π)) : Prop :=
  ∃ want ∈ found.map Prod.fst, want &&& EPOLLIN ≠ 0 ∧ want &&& EPOLLET ≠ 0

instance : DecidablePred (Edged (π:=π))
  | none => isFalse (by simp [Edged])
  | some found => decidable_of_iff (found.1 &&& EPOLLIN ≠ 0 ∧ found.1 &&& EPOLLET ≠ 0) (by simp [Edged])

-- What an enabled listener or socket is registered with.
theorem enabled_edged {loop : Eventloop π τ} {ev : π} (agrees : Agrees loop ev true) : Edged (entry loop ev) := by
  refine ⟨newMask EVMASK_READ,by simp [agrees.1],?_⟩
  decide

def Truth (e : Endpoint δ π τ) (s : Session δ π τ) : Prop :=
  ∃ value, e.enabled s.dev = flag value ∧ Agrees s.loop (e.ev s.dev) value

theorem flag_other {value found : Bool} (enabled : stored = flag found) (differs : stored ≠ flag value) : found = !value := by
  subst enabled
  cases found <;> cases value <;> simp_all

theorem flag_inj {one other : Bool} : flag one = flag other ↔ one = other := by
  cases one <;> cases other <;> decide

-- Every answer but the first is a call the kernel turns down, or no call.
theorem register_absent (k : Kernel π) (self : π) (e : Event π) (faults : Faults) (absent : k.interest e.fd = none)
    (wanted : newMask e.mask ≠ 0) :
    (faults.1 = none ∧ e.lastMask = 0) ∧ eventpollApply k self e faults =
      (0,{e with lastMask:=newMask e.mask},k.put e.fd (some (newMask e.mask,self))) ∨
    ¬ (faults.1 = none ∧ e.lastMask = 0) ∧
      ((eventpollApply k self e faults).1 = 0 ∨ (eventpollApply k self e faults).1 = -1) ∧
      (eventpollApply k self e faults).2.2.interest = k.interest := by
  obtain ⟨fault,second⟩ := faults
  by_cases fresh : e.lastMask = 0
  · cases fault with
    | none =>
      refine Or.inl ⟨⟨rfl,fresh⟩,?_⟩
      simp [eventpollApply,fresh,wanted,register,epollCtl,absent]
    | some fault =>
      refine Or.inr ⟨by simp,?_⟩
      simp [eventpollApply,fresh,wanted,register,epollCtl,Kernel.refuse,fault.other.2]
  · refine Or.inr ⟨fun both => fresh both.2,?_⟩
    by_cases same : newMask e.mask = e.lastMask
    · simp [eventpollApply,same]
    · cases fault with
      | none => simp [eventpollApply,fresh,same,wanted,register,epollCtl,absent,Kernel.refuse]
      | some fault => simp [eventpollApply,fresh,same,wanted,register,epollCtl,Kernel.refuse]

theorem unregister_present (k : Kernel π) (self : π) (e : Event π) (faults : Faults) (present : k.interest e.fd = some old)
    (unwanted : newMask e.mask = 0) (applied : e.lastMask ≠ 0) :
    faults.1 = none ∧ eventpollApply k self e faults = (0,e,k.put e.fd none) ∨
    faults.1 ≠ none ∧ (eventpollApply k self e faults).1 = -1 ∧ (eventpollApply k self e faults).2.2.interest = k.interest := by
  obtain ⟨fault,second⟩ := faults
  cases fault with
  | none =>
    refine Or.inl ⟨rfl,?_⟩
    simp [eventpollApply,unwanted,applied.symm,unregister,epollCtl,present]
  | some fault =>
    refine Or.inr ⟨by simp,?_⟩
    simp [eventpollApply,unwanted,applied.symm,unregister,epollCtl,Kernel.refuse,fault.other.1]

theorem truthful_call {e : Endpoint δ π τ} {s : Session δ π τ} {listen : Bool}
    (call : e.enable s.loop s.dev (flag value) listen faults = some (ret,dev,loop)) :
    Truthful e s (.enable value listen faults) ↔
      (ret = 0 → Shows value (entry loop (e.ev s.dev))) ∧ (ret = -1 → e.enabled dev = e.enabled s.dev) := by
  constructor
  · intro truthful
    exact truthful ret dev loop call
  · rintro both ret' dev' loop' did
    cases Option.some.inj (call.symm.trans did)
    exact both

section Proofs
variable [DecidableEq π]

def request (loop : Eventloop π τ) (ev : π) (value : Bool) (faults : Faults) : Int × Eventloop π τ :=
  pollApply (setEvent loop ev fun e => {e with mask:=switchMask (flag value)}) ev faults

@[simp] theorem request_heap (loop : Eventloop π τ) (ev : π) (value : Bool) (faults : Faults) :
    (request loop ev value faults).2.heap ev =
      (eventpollApply loop.poll ev {loop.heap ev with mask:=switchMask (flag value)} faults).2.1 := by
  simp [request,pollApply,setEvent]

@[simp] theorem request_poll (loop : Eventloop π τ) (ev : π) (value : Bool) (faults : Faults) :
    (request loop ev value faults).2.poll =
      (eventpollApply loop.poll ev {loop.heap ev with mask:=switchMask (flag value)} faults).2.2 := by
  simp [request,pollApply,setEvent]

@[simp] theorem request_ret (loop : Eventloop π τ) (ev : π) (value : Bool) (faults : Faults) :
    (request loop ev value faults).1 =
      (eventpollApply loop.poll ev {loop.heap ev with mask:=switchMask (flag value)} faults).1 := by
  simp [request,pollApply,setEvent]

theorem request_entry (loop : Eventloop π τ) (ev : π) (value : Bool) (faults : Faults) :
    entry (request loop ev value faults).2 ev =
      (eventpollApply loop.poll ev {loop.heap ev with mask:=switchMask (flag value)} faults).2.2.interest (loop.heap ev).fd := by
  simp [entry,eventpollApply_fd]

-- A call that changes the flag brings the kernel along exactly when granted.
theorem request_exact {loop : Eventloop π τ} {ev : π} {value : Bool} (faults : Faults) (agrees : Agrees loop ev (!value)) :
    Grants loop ev value faults ∧ (request loop ev value faults).1 = 0 ∧ Agrees (request loop ev value faults).2 ev value ∨
    ¬ Grants loop ev value faults ∧ ((request loop ev value faults).1 = 0 ∨ (request loop ev value faults).1 = -1) ∧
      ¬ Shows value (entry (request loop ev value faults).2 ev) := by
  cases value with
  | true =>
    have wanted : newMask (switchMask (flag true)) ≠ 0 := by decide
    rcases register_absent loop.poll ev {loop.heap ev with mask:=switchMask (flag true)} faults agrees wanted with
      ⟨granted,done⟩ | ⟨refused,ret,same⟩
    · refine Or.inl ⟨⟨granted.1,fun _ => granted.2⟩,by simp [done],?_,by simp [done,wanted]⟩
      rw [request_entry,done]
      exact put_here
    · refine Or.inr ⟨fun grants => refused ⟨grants.1,grants.2 rfl⟩,by simpa using ret,?_⟩
      rw [request_entry,same,show loop.poll.interest (loop.heap ev).fd = none from agrees]
      exact id
  | false =>
    have unwanted : newMask (switchMask (flag false)) = 0 := by decide
    rcases unregister_present loop.poll ev {loop.heap ev with mask:=switchMask (flag false)} faults agrees.1 unwanted agrees.2 with
      ⟨granted,done⟩ | ⟨refused,ret,same⟩
    · refine Or.inl ⟨⟨granted,by simp⟩,by simp [done],?_⟩
      show entry _ ev = none
      rw [request_entry,done]
      exact put_here
    · refine Or.inr ⟨fun grants => refused grants.1,by simp [ret],?_⟩
      rw [request_entry,same]
      intro gone
      exact Option.some_ne_none _ ((show loop.poll.interest _ = some _ from agrees.1).symm.trans gone)

theorem setMask_agrees {loop : Eventloop π τ} {ev : π} (mask : UInt32) :
    Agrees (setEvent loop ev fun e => {e with mask:=mask}) ev value ↔ Agrees loop ev value := by
  cases value <;> simp [Agrees,entry,setEvent]

theorem after_call {e : Endpoint δ π τ} {s : Session δ π τ} {listen : Bool} {holds : Session δ π τ → Prop}
    (call : e.enable s.loop s.dev (flag value) listen faults = some (ret,dev,loop)) :
    After (step e) holds s (.enable value listen faults) ↔ holds ⟨dev,loop⟩ := by
  simp [After,step,call]

theorem idle_call {e : Endpoint δ π τ} {s : Session δ π τ} {listen : Bool} (truth : Truth e s) (same : e.enabled s.dev = flag value)
    (call : e.enable s.loop s.dev (flag value) listen faults = some (0,s.dev,s.loop)) :
    Truthful e s (.enable value listen faults) ∧ After (step e) (Truth e) s (.enable value listen faults) := by
  rw [truthful_call call,after_call call]
  obtain ⟨found,enabled,agrees⟩ := truth
  cases flag_inj.mp (enabled.symm.trans same)
  exact ⟨⟨fun _ => agrees.shows,fun _ => rfl⟩,value,enabled,agrees⟩

theorem deliver_entry (loop : Eventloop π τ) (ev : π) (events : UInt32) :
    entry (setEvent loop ev fun e => eventpollDeliver e events) ev = entry loop ev := by
  simp [entry,setEvent,eventpollDeliver]

theorem deliver_truth {e : Endpoint δ π τ} {s next : Session δ π τ} (truth : Truth e s)
    (ran : step e s (.deliver events) = some next) : Truth e next := by
  obtain ⟨reported,same⟩ := Option.ite_none_right_eq_some.mp ran
  cases Option.some.inj same
  obtain ⟨value,enabled,agrees⟩ := truth
  refine ⟨value,enabled,?_⟩
  cases value with
  | true =>
    refine ⟨?_,?_⟩
    · simpa only [deliver_entry] using agrees.1
    · simp [setEvent,eventpollDeliver]
      decide
  | false =>
    rw [show entry s.loop (e.ev s.dev) = none from agrees] at reported
    cases reported

theorem truthful_runs {e : Endpoint δ π τ} {trusted : Session δ π τ → Action → Prop} {s : Session δ π τ}
    (exact_at : ∀ s action, Truth e s → Truthful e s action ∧ trusted s action ∧ After (step e) (Truth e) s action ∨
      ¬ Truthful e s action ∧ ¬ trusted s action) (start : Truth e s) (actions : List Action) :
    Along (step e) (Truthful e) s actions ↔ Along (step e) trusted s actions := by
  refine along_iff ?_ ?_ start along_true
  · intro s action truth _
    rcases exact_at s action truth with ⟨truthful,trusts,_⟩ | ⟨lies,doubts⟩
    · exact ⟨fun _ => trusts,fun _ => truthful⟩
    · exact ⟨fun truthful => absurd truthful lies,fun trusts => absurd trusts doubts⟩
  · intro s action next truth _ truthful ran
    rcases exact_at s action truth with ⟨_,_,after⟩ | ⟨lies,_⟩
    · exact after next ran
    · exact absurd truthful lies

variable [DecidableEq τ]

-- The three ways through `listener_enable` on the loop's thread.
theorem listenerEnable_own (loop : Eventloop π τ) (lstn : Listener π) (value listen : Bool) (faults : Faults) :
    listenerEnable loop loop.me lstn (flag value) listen faults =
      if lstn.enabled = flag value then some (0,lstn,loop)
      else if lstn.listening = 0 ∧ listen = false then
        some (-1,lstn,setEvent loop lstn.ev fun e => {e with mask:=switchMask (flag value)})
      else some (0,{lstn with enabled:=flag value,listening:=if lstn.listening = 0 then 1 else lstn.listening},
        (request loop lstn.ev value faults).2) := by
  rw [listenerEnable]
  split
  · rfl
  · split
    · rfl
    · exact congrArg (Option.map _) (own_apply _ lstn.ev faults)

theorem socketEnable_own (loop : Eventloop π τ) (sock : Socket π) (value : Bool) (faults : Faults) :
    socketEnable loop loop.me sock (flag value) faults =
      if sock.enabled = flag value then some (0,sock,loop)
      else some ((request loop sock.ev value faults).1,{sock with enabled:=flag value},(request loop sock.ev value faults).2) := by
  rw [socketEnable]
  split
  · rfl
  · exact congrArg (Option.map _) (own_apply _ sock.ev faults)

theorem listener_exact {s : Session (Listener π) π τ} (truth : Truth listenerEndpoint s) (action : Action) :
    Truthful listenerEndpoint s action ∧ ListenerTrusted s action ∧ After (step listenerEndpoint) (Truth listenerEndpoint) s action ∨
      ¬ Truthful listenerEndpoint s action ∧ ¬ ListenerTrusted s action := by
  cases action with
  | deliver events => exact Or.inl ⟨trivial,trivial,fun next => deliver_truth truth⟩
  | enable value listen faults =>
    have call : listenerEndpoint.enable s.loop s.dev (flag value) listen faults = _ := listenerEnable_own s.loop s.dev value listen faults
    by_cases same : s.dev.enabled = flag value
    · rw [if_pos same] at call
      obtain ⟨truthful,after⟩ := idle_call truth same call
      exact Or.inl ⟨truthful,Or.inl same,after⟩
    · obtain ⟨found,enabled,agrees⟩ := truth
      cases flag_other enabled same
      rw [if_neg same] at call
      by_cases deaf : s.dev.listening = 0 ∧ listen = false
      · rw [if_pos deaf] at call
        rw [truthful_call call,after_call call]
        exact Or.inl ⟨⟨by simp,fun _ => rfl⟩,Or.inr (Or.inl deaf),_,enabled,(setMask_agrees _).mpr agrees⟩
      · rw [if_neg deaf] at call
        rw [truthful_call call,after_call call]
        rcases request_exact faults agrees with ⟨grants,_,after⟩ | ⟨refused,_,hidden⟩
        · exact Or.inl ⟨⟨fun _ => after.shows,by simp⟩,Or.inr (Or.inr grants),value,rfl,after⟩
        · refine Or.inr ⟨fun truthful => hidden (truthful.1 rfl),?_⟩
          rintro (already | deafened | grants)
          · exact same already
          · exact deaf deafened
          · exact refused grants

theorem socket_exact {s : Session (Socket π) π τ} (truth : Truth socketEndpoint s) (action : Action) :
    Truthful socketEndpoint s action ∧ SocketTrusted s action ∧ After (step socketEndpoint) (Truth socketEndpoint) s action ∨
      ¬ Truthful socketEndpoint s action ∧ ¬ SocketTrusted s action := by
  cases action with
  | deliver events => exact Or.inl ⟨trivial,trivial,fun next => deliver_truth truth⟩
  | enable value listen faults =>
    have call : socketEndpoint.enable s.loop s.dev (flag value) listen faults = _ := socketEnable_own s.loop s.dev value faults
    by_cases same : s.dev.enabled = flag value
    · rw [if_pos same] at call
      obtain ⟨truthful,after⟩ := idle_call truth same call
      exact Or.inl ⟨truthful,Or.inl same,after⟩
    · obtain ⟨found,enabled,agrees⟩ := truth
      cases flag_other enabled same
      rw [if_neg same] at call
      rw [truthful_call call,after_call call]
      rcases request_exact faults agrees with ⟨grants,done,after⟩ | ⟨refused,ret,hidden⟩
      · exact Or.inl ⟨⟨fun _ => after.shows,fun minus => absurd (done.symm.trans minus) (by decide)⟩,Or.inr grants,value,rfl,after⟩
      · refine Or.inr ⟨?_,?_⟩
        · intro truthful
          rcases ret with zero | minus
          · exact hidden (truthful.1 zero)
          · exact same (truthful.2 minus).symm
        · rintro (already | grants)
          · exact same already
          · exact refused grants

theorem enabled_truthful_iff {loop : Eventloop π τ} {ev : π} {header : Bool} {istm ostm : Option Streams.Stream} {sock : Socket π}
    (absent : entry loop ev = none) (made : socketNewFromFd ev header istm ostm = some sock) (actions : List Action) :
    (Along (step listenerEndpoint) (Truthful listenerEndpoint) ⟨listenerNew ev,loop⟩ actions ↔
      Along (step listenerEndpoint) ListenerTrusted ⟨listenerNew ev,loop⟩ actions) ∧
    (Along (step socketEndpoint) (Truthful socketEndpoint) ⟨sock,loop⟩ actions ↔
      Along (step socketEndpoint) SocketTrusted ⟨sock,loop⟩ actions) := by
  have listener : Truth listenerEndpoint ⟨listenerNew ev,loop⟩ := ⟨false,rfl,absent⟩
  have socket : Truth socketEndpoint ⟨sock,loop⟩ := by
    obtain ⟨atEv,off⟩ := socketNewFromFd_off made
    exact ⟨false,off,by rw [← atEv] at absent; exact absent⟩
  exact ⟨truthful_runs (fun s action truth => listener_exact truth action) listener actions,
    truthful_runs (fun s action truth => socket_exact truth action) socket actions⟩

end Proofs

def idleLoop : Eventloop Nat Nat := eventloopInit ⟨fun _ => none,0,0⟩ (fun ev => eventInit ev EVMASK_NONE) 0
def idleSocket : Socket Nat := ⟨3,0,bareStream,bareStream⟩

def onAndOff : List Action :=
  [.enable true true (none,none),.deliver EPOLLIN,.enable true true (none,none),.enable false true (none,none)]

theorem on_and_off_truthful : entry idleLoop 3 = none ∧
    socketNewFromFd 3 true (some bareStream) (some bareStream) = some idleSocket ∧
    Along (step listenerEndpoint) (Truthful listenerEndpoint) ⟨listenerNew 3,idleLoop⟩ onAndOff ∧
    Along (step socketEndpoint) (Truthful socketEndpoint) ⟨idleSocket,idleLoop⟩ onAndOff := by
  have made : socketNewFromFd 3 true (some bareStream) (some bareStream) = some idleSocket := rfl
  have both := enabled_truthful_iff (show entry idleLoop 3 = none from rfl) made onAndOff
  exact ⟨rfl,made,both.1.mpr (by decide),both.2.mpr (by decide)⟩

def refusal : Fault := ⟨12,by decide⟩

-- A listener switched on, off and on again reports success unregistered; a
-- socket whose registration fails returns -1 and counts as enabled.
theorem enabled_without_registration :
    (exec (step listenerEndpoint) ⟨listenerNew 3,idleLoop⟩
      [.enable true true (none,none),.enable false true (none,none)]).bind
        (fun s => (listenerEnable s.loop s.loop.me s.dev 1 true (none,none)).map
          fun (ret,lstn,loop) => (ret,lstn.enabled,entry loop 3)) = some (0,1,none) ∧
    (socketEnable idleLoop idleLoop.me idleSocket 1 (some refusal,none)).map
      (fun (ret,sock,loop) => (ret,sock.enabled,entry loop 3)) = some (-1,1,none) ∧
    ¬ Along (step listenerEndpoint) (Truthful listenerEndpoint) ⟨listenerNew 3,idleLoop⟩
      [.enable true true (none,none),.enable false true (none,none),.enable true true (none,none)] ∧
    ¬ Along (step socketEndpoint) (Truthful socketEndpoint) ⟨idleSocket,idleLoop⟩
      [.enable true true (some refusal,none)] := by
  refine ⟨by decide,by decide,?_,?_⟩
  · intro truthful
    have last := ((along_cons rfl).mp ((along_cons rfl).mp truthful).2).2
    exact (last.1 0 _ _ rfl).1 rfl
  · intro truthful
    have kept : (1 : Int) = 0 := (truthful.1 (-1) _ _ rfl).2 rfl
    exact absurd kept (by decide)

end EventLib.EnabledFlag

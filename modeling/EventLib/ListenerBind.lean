import EventLib.Errno
import EventLib.Listener
import EventLib.LabelledRuns
import EventLib.Sockaddr

namespace EventLib.ListenerBind
open Listeners Sockaddrs LabelledRuns Errnos

-- What `listener_bind` works on: `lstn->ev.fd` and `lstn->addr`.
structure Endpoint where
  fd : Int
  addr : Sockaddr
deriving DecidableEq

-- As `listener_new` leaves it in the cleared block.
def fresh : Endpoint := ⟨-1,zeroed⟩

-- `socket` is what `socket_.for_addr` returns; the binds fail with an errno.
structure Outcomes where
  socket : Int
  first : Option Int
  second : Option Int

def bindWith (lstn : Endpoint) (addr : Sockaddr) (o : Outcomes) : Int × Endpoint :=
  match o.first with
  | none => (0,{lstn with addr:=addr})
  | some err =>
    if err = EADDRINUSE ∧ addr.family = AF_UNIX then
      -- the stale socket file is unlinked here
      match o.second with
      | none => (0,lstn)
      | some _ => (-1,lstn)
    else (-1,lstn)

def listenerBind (lstn : Endpoint) (addr : Sockaddr) (o : Outcomes) : Int × Endpoint :=
  if lstn.fd = -1 then
    if o.socket = -1 then (-1,lstn) else bindWith {lstn with fd:=o.socket} addr o
  else bindWith lstn addr o

-- The sockname `_accept_dispatch` gives the socket it makes.
def acceptedName (lstn : Endpoint) (accept : Option Int) (wrap : Bool) : Option Sockaddr :=
  match acceptDispatch accept wrap with
  | .handed _ => some lstn.addr
  | .closed _ => none
  | .refused => none

inductive Call where
  | bind (addr : Sockaddr) (o : Outcomes)
  | accept (answer : Option Int) (wrap : Bool)

-- `last` is the address of the last call that returned 0.
structure Session where
  lstn : Endpoint
  last : Sockaddr
  names : List Sockaddr
deriving DecidableEq

def start : Session := ⟨fresh,zeroed,[]⟩

def step (s : Session) : Call → Option Session
  | .bind addr o =>
    let result := listenerBind s.lstn addr o
    some {s with lstn:=result.2,last:=if result.1 = 0 then addr else s.last}
  | .accept answer wrap => some {s with names:=s.names ++ (acceptedName s.lstn answer wrap).toList}

def Knows (s : Session) : Prop := s.lstn.addr = s.last

-- After the call the listener knows its address, and a socket made by it carries it.
def Truthful (s : Session) (call : Call) : Prop :=
  After step Knows s call ∧
    match call with
    | .bind _ _ => True
    | .accept answer wrap => ∀ name ∈ acceptedName s.lstn answer wrap, name = s.last

def Stale (addr : Sockaddr) (o : Outcomes) : Prop :=
  o.first = some EADDRINUSE ∧ addr.family = AF_UNIX ∧ o.second = none

def Retried (lstn : Endpoint) (addr : Sockaddr) (o : Outcomes) : Prop := (lstn.fd = -1 → o.socket ≠ -1) ∧ Stale addr o

instance (addr : Sockaddr) (o : Outcomes) : Decidable (Stale addr o) := inferInstanceAs (Decidable (_ ∧ _))
instance (lstn : Endpoint) (addr : Sockaddr) (o : Outcomes) : Decidable (Retried lstn addr o) :=
  inferInstanceAs (Decidable (_ ∧ _))

-- A bind that succeeds on the retry asks for the address the listener has already.
def Settled (s : Session) : Call → Prop
  | .bind addr o => Retried s.lstn addr o → addr = s.lstn.addr
  | .accept _ _ => True

instance (s : Session) : ∀ call, Decidable (Settled s call)
  | .bind _ _ => inferInstanceAs (Decidable (_ → _))
  | .accept _ _ => isTrue trivial

variable {s : Session} {lstn : Endpoint} {addr : Sockaddr} {o : Outcomes}

theorem bindWith_cases (lstn : Endpoint) (addr : Sockaddr) (o : Outcomes) :
    ¬ Stale addr o ∧ bindWith lstn addr o = (0,{lstn with addr:=addr}) ∨
    Stale addr o ∧ bindWith lstn addr o = (0,lstn) ∨ ¬ Stale addr o ∧ bindWith lstn addr o = (-1,lstn) := by
  obtain ⟨socket,first,second⟩ := o
  unfold bindWith Stale
  cases first with
  | none => simp
  | some err =>
    by_cases stale : err = EADDRINUSE ∧ addr.family = AF_UNIX
    · cases second <;> simp [stale]
    · right
      right
      refine ⟨?_,if_neg stale⟩
      rintro ⟨same,unix,_⟩
      exact stale ⟨Option.some.inj same,unix⟩

theorem bind_opens (lstn : Endpoint) (addr : Sockaddr) (o : Outcomes) :
    (lstn.fd = -1 ∧ o.socket = -1) ∧ listenerBind lstn addr o = (-1,lstn) ∨
    (lstn.fd = -1 → o.socket ≠ -1) ∧ ∃ l : Endpoint, l.addr = lstn.addr ∧ listenerBind lstn addr o = bindWith l addr o := by
  unfold listenerBind
  by_cases unopened : lstn.fd = -1
  · by_cases refused : o.socket = -1
    · simp [unopened,refused]
    · right
      exact ⟨fun _ => refused,{lstn with fd:=o.socket},rfl,by rw [if_pos unopened,if_neg refused]⟩
  · right
    exact ⟨fun also => absurd also unopened,lstn,rfl,if_neg unopened⟩

-- A call sets the address, or keeps it although it returns 0, or fails.
theorem bind_cases (lstn : Endpoint) (addr : Sockaddr) (o : Outcomes) :
    (listenerBind lstn addr o).1 = 0 ∧ (listenerBind lstn addr o).2.addr = addr ∧ ¬ Retried lstn addr o ∨
    (listenerBind lstn addr o).1 = 0 ∧ (listenerBind lstn addr o).2.addr = lstn.addr ∧ Retried lstn addr o ∨
    (listenerBind lstn addr o).1 = -1 ∧ (listenerBind lstn addr o).2.addr = lstn.addr ∧ ¬ Retried lstn addr o := by
  rcases bind_opens lstn addr o with ⟨refused,ran⟩ | ⟨opened,l,same,ran⟩
  · rw [ran]
    exact Or.inr (Or.inr ⟨rfl,rfl,fun retried => retried.1 refused.1 refused.2⟩)
  · rw [ran]
    rcases bindWith_cases l addr o with ⟨other,did⟩ | ⟨stale,did⟩ | ⟨other,did⟩
    · rw [did]
      exact Or.inl ⟨rfl,rfl,fun retried => other retried.2⟩
    · rw [did]
      exact Or.inr (Or.inl ⟨rfl,same,opened,stale⟩)
    · rw [did]
      exact Or.inr (Or.inr ⟨rfl,same,fun retried => other retried.2⟩)

theorem truthful_iff_settled {call : Call} (knows : Knows s) : Truthful s call ↔ Settled s call := by
  cases call with
  | accept answer wrap =>
    refine iff_of_true ⟨?_,?_⟩ trivial
    · intro next ran
      cases Option.some.inj ran
      exact knows
    · intro name given
      unfold acceptedName at given
      split at given
      · cases given
        exact knows
      · cases given
      · cases given
  | bind addr o =>
    simp only [Truthful,After,step,Option.some.injEq,forall_eq',Knows,and_true,Settled]
    rcases bind_cases s.lstn addr o with ⟨ok,set,direct⟩ | ⟨ok,kept,retried⟩ | ⟨failed,kept,direct⟩
    · simp [ok,set,direct]
    · simp [ok,kept,retried,eq_comm]
    · simp [failed,kept,direct,show s.lstn.addr = s.last from knows]

theorem listener_knows_address_iff (calls : List Call) : Along step Truthful start calls ↔ Along step Settled start calls := by
  refine along_iff (fun s call knows _ => truthful_iff_settled knows) ?_ rfl along_true
  intro s call next _ _ truthful ran
  exact truthful.1 next ran

-- The path of a stale socket file: the first bind finds it in use, the second
-- succeeds, and an accepted socket carries no address at all.
def retriedCalls : List Call := [.bind eventsAddr ⟨3,some EADDRINUSE,none⟩,.accept (some 4) true]

theorem retried_bind_forgets_address : listenerBind fresh eventsAddr ⟨3,some EADDRINUSE,none⟩ = (0,⟨3,zeroed⟩) ∧
    exec step start retriedCalls = some ⟨⟨3,zeroed⟩,eventsAddr,[zeroed]⟩ ∧ eventsAddr ≠ zeroed := by decide

end EventLib.ListenerBind

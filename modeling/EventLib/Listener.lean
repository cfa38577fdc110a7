import EventLib.Eventloop

namespace EventLib.Listeners
open Events Epoll Eventloops

-- The event lives in the loop's memory at `ev`. Address, backlog and flags are
-- arguments of system calls whose outcomes are the environment's.
structure Listener (π : Type) where
  ev : π
  enabled : Int
  listening : Int
deriving DecidableEq

variable {π τ : Type}

-- What `listener_new` leaves in the allocated and cleared block.
def listenerNew (ev : π) : Listener π := ⟨ev,0,0⟩

def switchMask (enable : Int) : UInt32 := if enable = 0 then EVMASK_NONE else EVMASK_READ

-- `listen` tells whether listen(2), called once, succeeds. The result of
-- `eventloop_apply` is dropped, as in the source.
def listenerEnable [DecidableEq π] [DecidableEq τ] (loop : Eventloop π τ) (self : τ) (lstn : Listener π) (enable : Int)
    (listen : Bool) (faults : Faults) : Option (Int × Listener π × Eventloop π τ) :=
  if lstn.enabled = enable then some (0,lstn,loop) else
  let loop := setEvent loop lstn.ev fun e => {e with mask:=switchMask enable}
  if lstn.listening = 0 ∧ listen = false then some (-1,lstn,loop) else
  (eventloopApply loop self lstn.ev faults).map fun (_,loop) =>
    (0,{lstn with enabled:=enable,listening:=if lstn.listening = 0 then 1 else lstn.listening},loop)

-- What one call of `_accept_dispatch` does with the connection it asked for.
inductive Accepted where
  | refused
  | closed (fd : Int)
  | handed (fd : Int)
deriving DecidableEq

-- One `accept`, whatever the number of connections waiting; `wrap` tells
-- whether `socket_.new` made a socket of the descriptor.
def acceptDispatch (accept : Option Int) (wrap : Bool) : Accepted :=
  match accept with
  | none => .refused
  | some fd => if wrap then .handed fd else .closed fd

end EventLib.Listeners

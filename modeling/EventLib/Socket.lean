import EventLib.Eventloop
import EventLib.StreamInput
import EventLib.Listener

namespace EventLib.Sockets
open ByteBuffer Events Epoll Eventloops Listeners Streams StreamInput Errnos

structure Socket (π : Type) where
  ev : π
  enabled : Int
  istm : Stream
  ostm : Stream
deriving DecidableEq

variable {π τ : Type}

-- Neither stream is released when only one of them could be opened.
def socketNewFromFd (ev : π) (header : Bool) (istm ostm : Option Stream) : Option (Socket π) :=
  if header then istm.bind fun istm => ostm.map fun ostm => ⟨ev,0,istm,ostm⟩ else none

theorem socketNewFromFd_off {ev : π} {header : Bool} {istm ostm : Option Stream} {sock : Socket π}
    (made : socketNewFromFd ev header istm ostm = some sock) : sock.ev = ev ∧ sock.enabled = 0 := by
  obtain ⟨_,made⟩ := Option.ite_none_right_eq_some.mp made
  obtain ⟨istm,_,made⟩ := Option.bind_eq_some_iff.mp made
  obtain ⟨ostm,_,rfl⟩ := Option.map_eq_some_iff.mp made
  exact ⟨rfl,rfl⟩

-- The flag is set before the loop is asked, and stays whatever it answers.
def socketEnable [DecidableEq π] [DecidableEq τ] (loop : Eventloop π τ) (self : τ) (sock : Socket π) (enable : Int)
    (faults : Faults) : Option (Int × Socket π × Eventloop π τ) :=
  if sock.enabled = enable then some (0,sock,loop) else
  (eventloopApply (setEvent loop sock.ev fun e => {e with mask:=switchMask enable}) self sock.ev faults).map fun (ret,loop) =>
    (ret,{sock with enabled:=enable},loop)

def streamSetMask (stm : Stream) (mask : UInt32) : Stream := {stm with needMask:=mask}

-- The mask as the callback gets it, and what the call took from the descriptor.
structure Dispatched (π : Type) where
  mask : UInt32
  sock : Socket π
  world : World
  received : List UInt8

def tryWrite (sock : Socket π) (w : World) (script : List Answer) : Option (Int × Socket π × World) :=
  (streamFlush sock.ostm w script).map fun out => (out.ret,{sock with ostm:=out.stm},out.world)

-- An empty descriptor is not an error; the end of the file, with `last_err` 0, is.
def tryRead (sock : Socket π) (w : World) (supply : Supply) (grants : Grant × Grant) :
    Option (Int × Socket π × World × List UInt8) :=
  (streamFill sock.istm w supply grants).map fun out =>
    ((if out.ret ≠ 0 ∧ out.stm.lastErr ≠ EAGAIN then -1 else 0),{sock with istm:=out.stm},out.world,out.received)

def markError (mask : UInt32) (ret : Int) : UInt32 := if ret ≠ 0 then mask ||| EVMASK_ERROR else mask

def dispatchWrite (d : Dispatched π) (script : List Answer) : Option (Dispatched π) :=
  if d.mask &&& (EVMASK_WRITE ||| EVMASK_ERROR) = EVMASK_WRITE then
    (tryWrite d.sock d.world script).map fun (ret,sock,w) => {d with mask:=markError d.mask ret,sock:=sock,world:=w}
  else some d

def dispatchRead (d : Dispatched π) (supply : Supply) (grants : Grant × Grant) : Option (Dispatched π) :=
  if d.mask &&& (EVMASK_READ ||| EVMASK_ERROR) = EVMASK_READ then
    (tryRead d.sock d.world supply grants).map fun (ret,sock,w,received) => ⟨markError d.mask ret,sock,w,received⟩
  else some d

-- `_sock_dispatch` up to the call of `cb`.
def sockDispatch (mask : UInt32) (sock : Socket π) (w : World) (script : List Answer) (supply : Supply)
    (grants : Grant × Grant) : Option (Dispatched π) :=
  (dispatchWrite ⟨mask,{sock with istm:=streamSetMask sock.istm 0},w,[]⟩ script).bind (dispatchRead · supply grants)

end EventLib.Sockets

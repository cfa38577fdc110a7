import Mathlib.Data.List.Basic
import Mathlib.Algebra.Ring.Nat

namespace EventLib.Events

def EVMASK_NONE : UInt32 := 0x00
def EVMASK_READ : UInt32 := 0x01
def EVMASK_WRITE : UInt32 := 0x02
def EVMASK_ERROR : UInt32 := 0x04
def EVMASK_TIME : UInt32 := 0x08

-- `π` is the type of event addresses. The callback and its argument are called
-- by the dispatcher only and decide nothing below.
structure Event (π : Type) where
  fd : Int
  mask : UInt32
  lastMask : UInt32
  next : Option π
deriving DecidableEq

def eventInit (fd : Int) (mask : UInt32) : Event π := ⟨fd,mask,0,none⟩

end EventLib.Events

import Mathlib.Data.Int.Notation

namespace EventLib.Errnos

-- The values of `errno` the source compares with or that its calls leave, as on Linux.
def ENOENT : Int := 2
def EBADF : Int := 9
def EAGAIN : Int := 11
def ENOMEM : Int := 12
def EEXIST : Int := 17
def EINVAL : Int := 22
def EADDRINUSE : Int := 98
def ETIMEDOUT : Int := 110
def EINPROGRESS : Int := 115

end EventLib.Errnos

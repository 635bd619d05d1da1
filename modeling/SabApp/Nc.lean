import Mathlib.Tactic.Common

/-!
# Return codes, protocol numbers and ticks of the client library
-/

namespace SabApp

namespace Nc

def errUninit : Int32 := -1
def errInput : Int32 := -2
def errFull : Int32 := -3
def errInternal : Int32 := -4
def errConnect : Int32 := -5
def errSend : Int32 := -6
def errRecv : Int32 := -7
def errProtocol : Int32 := -8
def errAuth : Int32 := -9
def errNoSpace : Int32 := -11
def errTimeout : Int32 := -12
def errNoSupported : Int32 := -13
def errMaxConnect : Int32 := -14
def errRepeat : Int32 := -15
def errPtzNoRts : Int32 := -16
def errIllegalId : Int32 := -19
def errNoLogin : Int32 := -22

def ptcHuaYi : Int32 := 0x01000000
def ptcQiHanCloud : Int32 := 0x04000000

end Nc

/-- `tool_sock_isTickTimeout`. -/
def isTickTimeout (now tick sec : Int32) : Bool := now - tick ≥ sec || now < tick

end SabApp

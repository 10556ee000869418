import Mathlib.Data.Rat.Defs

/-!
# The wire protocol

Device identity, the control-channel messages and the input events, as `protocol.rs` declares them. A `u64` is
a `BitVec 64`, an `i32` an `Int` (what an operation that leaves the range does is a parameter where it is
computed), and an `f32` the rational it stands for.
-/

namespace ScreenLink

abbrev Bytes := List UInt8

/-- The rational value of a (finite) `f32`. -/
abbrev F32 := ℚ

/-- Peers refuse to talk if these differ. -/
def PROTOCOL_VERSION : BitVec 16 := 1

/-- The lowercase hex SHA-256 fingerprint of a device's certificate, when the device is honest. -/
structure DeviceId where
  id : String
  deriving DecidableEq

structure Capabilities where
  controlMode : Bool := true
  extendMode : Bool := false
  clipboardText : Bool := true
  clipboardImages : Bool := false
  fileTransfer : Bool := false
  deriving DecidableEq

structure DeviceInfo where
  id : DeviceId
  name : String
  os : String
  realtimePort : BitVec 16
  caps : Capabilities
  deriving DecidableEq

inductive Mode
  | control
  | extend
  deriving DecidableEq

/-- Which edge of the host's screen a peer is attached to. -/
inductive ScreenEdge
  | left
  | right
  | top
  | bottom
  deriving DecidableEq

inductive MouseButton
  | left
  | right
  | middle
  | x1
  | x2
  deriving DecidableEq

/-- A platform-neutral key, by physical position. `char` types a character, `raw` is an unmapped native code. -/
inductive Key
  | a | b | c | d | e | f | g | h | i | j | k | l | m | n | o | p | q | r | s | t | u | v | w | x | y | z
  | num0 | num1 | num2 | num3 | num4 | num5 | num6 | num7 | num8 | num9
  | f1 | f2 | f3 | f4 | f5 | f6 | f7 | f8 | f9 | f10 | f11 | f12
  | controlLeft | controlRight | shiftLeft | shiftRight | altLeft | altRight | metaLeft | metaRight
  | enter | escape | backspace | tab | space | capsLock
  | insert | delete | home | «end» | pageUp | pageDown | arrowUp | arrowDown | arrowLeft | arrowRight
  | minus | equal | bracketLeft | bracketRight | backslash | semicolon | quote | backquote | comma | period
  | slash
  | numpad0 | numpad1 | numpad2 | numpad3 | numpad4 | numpad5 | numpad6 | numpad7 | numpad8 | numpad9
  | numpadAdd | numpadSubtract | numpadMultiply | numpadDivide | numpadDecimal | numpadEnter
  | printScreen | scrollLock | pause | numLock | contextMenu
  | char (c : Char)
  | raw (code : BitVec 32)
  deriving DecidableEq

/-- What the realtime channel carries. -/
inductive InputEvent
  | mouseMove (dx dy : Int)
  | mouseMoveAbs (x y : F32)
  | mouseButton (button : MouseButton) (pressed : Bool)
  | mouseWheel (dx dy : Int)
  | key (key : Key) (pressed : Bool)
  deriving DecidableEq

inductive ClipboardData
  | text (text : String)
  deriving DecidableEq

/-- The control-channel messages. -/
inductive ControlMsg
  | hello (protocol : BitVec 16) (info : DeviceInfo)
  | helloAck (info : DeviceInfo)
  | reject (reason : String)
  | pairBegin
  | pairConfirm
  | pairConfirmed
  | pairCancel (reason : String)
  | setMode (mode : Mode)
  | modeAck (mode : Mode) (ok : Bool) (reason : String)
  | realtimeOpen (udpPort : BitVec 16) (epoch : BitVec 64)
  | startMirror (epoch : BitVec 64)
  | stopMirror
  | edgeEnter (x y : F32)
  | edgeLeave
  | clipboard (data : ClipboardData)
  | ping (nonce : BitVec 64)
  | pong (nonce : BitVec 64)
  deriving DecidableEq

end ScreenLink

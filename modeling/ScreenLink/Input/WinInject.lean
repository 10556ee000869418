import ScreenLink.Input.Keymap
import ScreenLink.Input.Unix
import ScreenLink.Session.Core

/-!
# Injection on Windows

`win_inject.rs`: the inputs an event becomes, and the keys that the device takes them to be about. A character is typed
as its UTF-16 units, so two characters may share one; two virtual-key codes with their extended flag are apart. So what is
down on the device is what the keys held stand for, as long as these have been captured on Windows (`mirrors_captured`).
-/

namespace ScreenLink

open HeldKeys

/-- Tags the injected events, for the device's own capture hook. -/
def INJECT_SIGNATURE : BitVec 64 := 0x5C115C11

def XBUTTON1 : BitVec 32 := 1
def XBUTTON2 : BitVec 32 := 2

/-- `MOUSEEVENTF_…` -/
inductive MouseEventFlag
  | move | absolute | virtualDesk | leftDown | leftUp | rightDown | rightUp | middleDown | middleUp | xDown | xUp
  | wheel | hWheel
  deriving DecidableEq

/-- `MOUSEINPUT` -/
structure MouseInput where
  dx : Int
  dy : Int
  mouseData : BitVec 32
  dwFlags : List MouseEventFlag
  dwExtraInfo : BitVec 64
  deriving DecidableEq

/-- `KEYBDINPUT`, its flags one by one. -/
structure KeybdInput where
  wVk : BitVec 16
  wScan : BitVec 16
  keyUp : Bool
  extendedKey : Bool
  unicode : Bool
  dwExtraInfo : BitVec 64
  deriving DecidableEq

/-- `INPUT` -/
inductive WinInput
  | mi (mouse : MouseInput)
  | ki (keybd : KeybdInput)
  deriving DecidableEq

def mouseInput (dx dy : Int) (data : BitVec 32) (flags : List MouseEventFlag) : WinInput :=
  .mi ⟨dx, dy, data, flags, INJECT_SIGNATURE⟩

def keyInput (vk : BitVec 16) (keyUp extendedKey : Bool) : WinInput :=
  .ki ⟨vk, 0, keyUp, extendedKey, false, INJECT_SIGNATURE⟩

def unicodeInput (scan : BitVec 16) (keyUp : Bool) : WinInput := .ki ⟨0, scan, keyUp, false, true, INJECT_SIGNATURE⟩

def buttonFlags (button : MouseButton) (pressed : Bool) : MouseEventFlag × BitVec 32 :=
  match button, pressed with
  | .left, true => (.leftDown, 0)
  | .left, false => (.leftUp, 0)
  | .right, true => (.rightDown, 0)
  | .right, false => (.rightUp, 0)
  | .middle, true => (.middleDown, 0)
  | .middle, false => (.middleUp, 0)
  | .x1, true => (.xDown, XBUTTON1)
  | .x1, false => (.xUp, XBUTTON1)
  | .x2, true => (.xDown, XBUTTON2)
  | .x2, false => (.xUp, XBUTTON2)

/-- `char::encode_utf16` -/
def encodeUtf16 (c : Char) : List (BitVec 16) :=
  if c.toNat < 0x10000 then [.ofNat 16 c.toNat]
  else [.ofNat 16 (0xD800 + (c.toNat - 0x10000) / 0x400), .ofNat 16 (0xDC00 + (c.toNat - 0x10000) % 0x400)]

/-- The inputs of one call of `SendInput`. -/
def injectKey (key : Key) (pressed : Bool) : List WinInput :=
  match vkFor key with
  | .vk vk extended => [keyInput vk (!pressed) extended]
  | .unicode c => (encodeUtf16 c).map fun u => unicodeInput u (!pressed)

/-- `WinInjector::inject` -/
def winInject (ar : Arith) : InputEvent → List WinInput
  | .mouseMove dx dy => [mouseInput dx dy 0 [.move]]
  | .mouseMoveAbs x y => [mouseInput (toPixel ar x 65535) (toPixel ar y 65535) 0 [.move, .absolute, .virtualDesk]]
  | .mouseButton button pressed => [mouseInput 0 0 (buttonFlags button pressed).2 [(buttonFlags button pressed).1]]
  | .mouseWheel dx dy =>
    if dy ≠ 0 then [mouseInput 0 0 (.ofInt 32 dy) [.wheel]] else [mouseInput 0 0 (.ofInt 32 dx) [.hWheel]]
  | .key key pressed => injectKey key pressed

/-- A call of the OS. -/
inductive WinCall
  | sendInput (inputs : List WinInput)
  | setCursorPos (x y : Int)
  deriving DecidableEq

/-- What a call of the injector calls, on this virtual desktop. -/
def winCall (ar : Arith) (r : Rect) : InjectorCall → WinCall
  | .inject ev => .sendInput (winInject ar ev)
  | .setCursorNorm x y => .setCursorPos (ar.i32 (r.x + toPixel ar x r.w)) (ar.i32 (r.y + toPixel ar y r.h))

/-! ### The keys of the device -/

/-- What an input says about which key: a code with its extended flag, or a UTF-16 unit. -/
inductive WinKey
  | vk (code : BitVec 16) (extended : Bool)
  | unit (code : BitVec 16)
  deriving DecidableEq

def WinInput.key? : WinInput → Option (WinKey × Bool)
  | .mi _ => none
  | .ki k => some (if k.unicode then .unit k.wScan else .vk k.wVk k.extendedKey, !k.keyUp)

/-- The keys an event about a key is about, on the device. -/
def winKeys (key : Key) : List WinKey :=
  match vkFor key with
  | .vk code extended => [.vk code extended]
  | .unicode c => (encodeUtf16 c).map WinKey.unit

/-- The key events the device has seen, when `SendInput` has inserted them all. -/
def WinCall.keys : WinCall → List (WinKey × Bool)
  | .sendInput inputs => inputs.filterMap WinInput.key?
  | .setCursorPos _ _ => []

theorem keys_winInject (ar : Arith) (ev : InputEvent) :
    (winInject ar ev).filterMap WinInput.key? = image winKeys (keysIn [ev]) := by
  cases ev with
  | mouseMove dx dy => rfl
  | mouseMoveAbs x y => rfl
  | mouseButton button pressed => rfl
  | mouseWheel dx dy =>
    simp only [winInject]
    split_ifs <;> rfl
  | key key pressed =>
    have himage : image winKeys (keysIn [.key key pressed]) = (winKeys key).map fun k => (k, pressed) :=
      List.append_nil _
    rw [himage, winInject, injectKey, winKeys]
    cases vkFor key with
    | vk code extended => simp [keyInput, WinInput.key?]
    | unicode c => simp [unicodeInput, WinInput.key?, Function.comp_def]

/-! ### Keys captured on Windows -/

/-- Keys that a Windows hook has captured. -/
def capturedKeys : Set Key := {key | ∃ vk extended, key = keyForVk vk extended}

theorem vkFor_captured {key : Key} (h : key ∈ capturedKeys) :
    ∃ code extended, vkFor key = .vk code extended ∧ keyForVk code extended = key := by
  obtain ⟨vk, extended, rfl⟩ := h
  cases hvk : vkFor (keyForVk vk extended) with
  | vk code extended' => exact ⟨code, extended', rfl, captured_comes_back vk extended hvk⟩
  | unicode c =>
    rcases keyForVk_cases vk extended with ⟨-, hnamed⟩ | ⟨-, hraw⟩
    · cases hkey : keyForVk vk extended <;> rw [hkey] at hnamed hvk <;> cases hvk
      cases hnamed
    · rw [hraw] at hvk
      cases hvk

theorem winKeys_injOn : ∀ key ∈ capturedKeys, ∀ other ∈ capturedKeys, ∀ c ∈ winKeys other, c ∈ winKeys key →
    key = other := by
  intro key hkey other hother c hc hc'
  obtain ⟨code, extended, hvk, hback⟩ := vkFor_captured hkey
  obtain ⟨code', extended', hvk', hback'⟩ := vkFor_captured hother
  rw [winKeys, hvk', List.mem_singleton] at hc
  rw [winKeys, hvk, List.mem_singleton, hc, WinKey.vk.injEq] at hc'
  rw [← hback, ← hback', hc'.1, hc'.2]

/-- What is down on the device is what the keys held stand for. -/
theorem mirrors_captured {log : List (Key × Bool)} (hlog : ∀ e ∈ log, e.1 ∈ capturedKeys) : Mirrors winKeys log :=
  mirrors_of_injOn winKeys_injOn hlog

end ScreenLink

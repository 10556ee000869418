import ScreenLink.Input.Edge
import ScreenLink.Input.Loss
import ScreenLink.Lib.Machine
import ScreenLink.Lib.Remapped

/-!
# Injection on Linux and macOS

`unix.rs`: the `enigo` call that an input event becomes, and the injector, which hands the events to a thread that owns the
`Enigo`. Several keys become one `enigo` key (the left and the right Shift, the digits and the keypad), so a key of the
device may come up while a key that stands for it is held. What is down on the device is what the keys held stand for, in
every state of the injector's thread, iff no key is released while another that becomes the same `enigo` key is held
(`EnigoInjector.keys_in_step_iff`).
-/

namespace ScreenLink

open HeldKeys Machine

/-- `enigo::Key` -/
inductive EKey
  | unicode (c : Char)
  | «return» | escape | backspace | tab | space | capsLock | delete | home | «end» | pageUp | pageDown
  | upArrow | downArrow | leftArrow | rightArrow | control | shift | alt | «meta»
  | f1 | f2 | f3 | f4 | f5 | f6 | f7 | f8 | f9 | f10 | f11 | f12
  deriving DecidableEq

/-- `enigo::Button` -/
inductive EButton
  | left | right | middle | back | forward
  deriving DecidableEq

inductive Coordinate
  | rel | abs
  deriving DecidableEq

inductive Axis
  | vertical | horizontal
  deriving DecidableEq

/-- A call of `Enigo`. -/
inductive EnigoCall
  | moveMouse (x y : Int) (coordinate : Coordinate)
  | button (button : EButton) (pressed : Bool)
  | scroll (length : Int) (axis : Axis)
  | key (key : EKey) (pressed : Bool)
  deriving DecidableEq

/-- `Back` and `Forward` do not exist on macOS. -/
def toButton (macos : Bool) : MouseButton → Option EButton
  | .left => some .left
  | .right => some .right
  | .middle => some .middle
  | .x1 => if macos then none else some .back
  | .x2 => if macos then none else some .forward

/-- Best-effort map from the portable key model to enigo; a key without an equivalent is skipped. -/
def toEnigoKey : Key → Option EKey
  | .a => some (.unicode 'a') | .b => some (.unicode 'b') | .c => some (.unicode 'c') | .d => some (.unicode 'd')
  | .e => some (.unicode 'e') | .f => some (.unicode 'f') | .g => some (.unicode 'g') | .h => some (.unicode 'h')
  | .i => some (.unicode 'i') | .j => some (.unicode 'j') | .k => some (.unicode 'k') | .l => some (.unicode 'l')
  | .m => some (.unicode 'm') | .n => some (.unicode 'n') | .o => some (.unicode 'o') | .p => some (.unicode 'p')
  | .q => some (.unicode 'q') | .r => some (.unicode 'r') | .s => some (.unicode 's') | .t => some (.unicode 't')
  | .u => some (.unicode 'u') | .v => some (.unicode 'v') | .w => some (.unicode 'w') | .x => some (.unicode 'x')
  | .y => some (.unicode 'y') | .z => some (.unicode 'z') | .num0 => some (.unicode '0')
  | .num1 => some (.unicode '1') | .num2 => some (.unicode '2') | .num3 => some (.unicode '3')
  | .num4 => some (.unicode '4') | .num5 => some (.unicode '5') | .num6 => some (.unicode '6')
  | .num7 => some (.unicode '7') | .num8 => some (.unicode '8') | .num9 => some (.unicode '9')
  | .minus => some (.unicode '-') | .equal => some (.unicode '=') | .bracketLeft => some (.unicode '[')
  | .bracketRight => some (.unicode ']') | .backslash => some (.unicode (.ofNat 0x5C)) | .semicolon => some (.unicode ';')
  | .quote => some (.unicode (.ofNat 0x27)) | .backquote => some (.unicode (.ofNat 0x60)) | .comma => some (.unicode ',')
  | .period => some (.unicode '.') | .slash => some (.unicode '/') | .numpad0 => some (.unicode '0')
  | .numpad1 => some (.unicode '1') | .numpad2 => some (.unicode '2') | .numpad3 => some (.unicode '3')
  | .numpad4 => some (.unicode '4') | .numpad5 => some (.unicode '5') | .numpad6 => some (.unicode '6')
  | .numpad7 => some (.unicode '7') | .numpad8 => some (.unicode '8') | .numpad9 => some (.unicode '9')
  | .numpadAdd => some (.unicode '+') | .numpadSubtract => some (.unicode '-')
  | .numpadMultiply => some (.unicode '*') | .numpadDivide => some (.unicode '/')
  | .numpadDecimal => some (.unicode '.') | .numpadEnter => some .«return» | .enter => some .«return»
  | .escape => some .escape | .backspace => some .backspace | .tab => some .tab | .space => some .space
  | .capsLock => some .capsLock | .delete => some .delete | .home => some .home | .«end» => some .«end»
  | .pageUp => some .pageUp | .pageDown => some .pageDown | .arrowUp => some .upArrow | .arrowDown => some .downArrow
  | .arrowLeft => some .leftArrow | .arrowRight => some .rightArrow | .controlLeft => some .control
  | .controlRight => some .control | .shiftLeft => some .shift | .shiftRight => some .shift | .altLeft => some .alt
  | .altRight => some .alt | .metaLeft => some .«meta» | .metaRight => some .«meta» | .f1 => some .f1 | .f2 => some .f2
  | .f3 => some .f3 | .f4 => some .f4 | .f5 => some .f5 | .f6 => some .f6 | .f7 => some .f7 | .f8 => some .f8
  | .f9 => some .f9 | .f10 => some .f10 | .f11 => some .f11 | .f12 => some .f12
  | .char c => some (.unicode c)
  | .insert | .printScreen | .scrollLock | .pause | .numLock | .contextMenu | .raw _ => none

/-- `f32::round`: halves go away from zero. -/
def roundHalfAway (q : ℚ) : Int := if 0 ≤ q then (q + 1 / 2).floor else (q - 1 / 2).ceil

/-- `(x.clamp(0.0, 1.0) * w as f32).round() as i32` -/
def toPixel (ar : Arith) (x : F32) (w : Int) : Int := roundHalfAway (ar.f32 (max 0 (min x 1) * ar.f32 w))

/-- What scrolls one notch in the protocol's units. -/
def WHEEL_DELTA : Int := 120

/-- The call an event becomes on a `w` by `h` display. -/
def applyEvent (ar : Arith) (macos : Bool) (w h : Int) : InputEvent → Option EnigoCall
  | .mouseMove dx dy => some (.moveMouse dx dy .rel)
  | .mouseMoveAbs x y => some (.moveMouse (toPixel ar x w) (toPixel ar y h) .abs)
  | .mouseButton button pressed => (toButton macos button).map fun b => .button b pressed
  | .mouseWheel dx dy =>
    if dy ≠ 0 then some (.scroll (-(dy.tdiv WHEEL_DELTA)) .vertical) else some (.scroll (dx.tdiv WHEEL_DELTA) .horizontal)
  | .key key pressed => (toEnigoKey key).map fun k => .key k pressed

inductive InjectMsg
  | event (ev : InputEvent)
  | cursorNorm (x y : F32)
  deriving DecidableEq

/-- The injector and its thread. -/
structure EnigoInjector where
  macos : Bool
  w : Int
  h : Int
  /-- Sent to the thread, and not received. -/
  queue : List InjectMsg
  /-- History: the calls of `Enigo`. -/
  calls : List EnigoCall
  /-- History: the events the thread has received. -/
  received : List InputEvent

inductive EnigoEvent
  | inject (ev : InputEvent)
  | setCursorNorm (x y : F32)
  /-- The thread receives the next message. -/
  | recv
  deriving DecidableEq

namespace EnigoInjector

/-- The thread runs, on a display of this size (at least one pixel each way). -/
def new (macos : Bool) (w h : Int) : EnigoInjector where
  macos := macos
  w := max w 1
  h := max h 1
  queue := []
  calls := []
  received := []

/-- The thread handles a message. -/
def handle (ar : Arith) (t : EnigoInjector) : InjectMsg → EnigoInjector
  | .event ev =>
    { t with calls := t.calls ++ (applyEvent ar t.macos t.w t.h ev).toList, received := t.received ++ [ev] }
  | .cursorNorm x y => { t with calls := t.calls ++ [.moveMouse (toPixel ar x t.w) (toPixel ar y t.h) .abs] }

def step (ar : Arith) (t : EnigoInjector) (e : EnigoEvent) : Option EnigoInjector :=
  match e with
  | .inject ev => some { t with queue := t.queue ++ [.event ev] }
  | .setCursorNorm x y => some { t with queue := t.queue ++ [.cursorNorm x y] }
  | .recv => match t.queue with
    | [] => none
    | msg :: rest => some ({ t with queue := rest }.handle ar msg)

variable {ar : Arith} {t t' : EnigoInjector} {e : EnigoEvent}

theorem recv_eq_some (h : step ar t .recv = some t') :
    (∃ ev rest, t.queue = .event ev :: rest ∧ t' = { t with
      queue := rest, calls := t.calls ++ (applyEvent ar t.macos t.w t.h ev).toList, received := t.received ++ [ev] }) ∨
    ∃ x y rest, t.queue = .cursorNorm x y :: rest ∧ t' = { t with
      queue := rest, calls := t.calls ++ [.moveMouse (toPixel ar x t.w) (toPixel ar y t.h) .abs] } := by
  simp only [step] at h
  split at h
  · cases h
  · rename_i msg rest hqueue
    cases msg with
    | event ev => exact Or.inl ⟨ev, rest, hqueue, (Option.some.inj h).symm⟩
    | cursorNorm x y => exact Or.inr ⟨x, y, rest, hqueue, (Option.some.inj h).symm⟩

end EnigoInjector

/-! ### The keys of the device -/

/-- The key event in a call. -/
def EnigoCall.key? : EnigoCall → Option (EKey × Bool)
  | .key k pressed => some (k, pressed)
  | _ => none

/-- The keys an event about a key is about, on the device. -/
def enigoKeys (key : Key) : List EKey := (toEnigoKey key).toList

theorem mem_enigoKeys {key : Key} {k : EKey} : k ∈ enigoKeys key ↔ toEnigoKey key = some k := Option.mem_toList

theorem key_applyEvent (ar : Arith) (macos : Bool) (w h : Int) (ev : InputEvent) :
    (applyEvent ar macos w h ev).toList.filterMap EnigoCall.key? = image enigoKeys (keysIn [ev]) := by
  cases ev with
  | mouseMove dx dy => rfl
  | mouseMoveAbs x y => rfl
  | mouseButton button pressed =>
    simp only [applyEvent]
    cases toButton macos button <;> rfl
  | mouseWheel dx dy =>
    simp only [applyEvent]
    split_ifs <;> rfl
  | key key pressed =>
    have himage : image enigoKeys (keysIn [.key key pressed]) = (enigoKeys key).map fun k => (k, pressed) :=
      List.append_nil _
    rw [himage, applyEvent, enigoKeys]
    cases toEnigoKey key <;> rfl

namespace EnigoInjector

variable {ar : Arith} {t t' : EnigoInjector} {e : EnigoEvent} {es : List EnigoEvent}

/-- The key events the device has seen. -/
def osKeys (t : EnigoInjector) : List (EKey × Bool) := t.calls.filterMap EnigoCall.key?

/-- They are those of the events received. -/
def Relayed (t : EnigoInjector) : Prop := t.osKeys = image enigoKeys (keysIn t.received)

theorem step_relayed (h : Relayed t) (hstep : step ar t e = some t') : Relayed t' := by
  cases e with
  | inject ev =>
    cases hstep
    exact h
  | setCursorNorm x y =>
    cases hstep
    exact h
  | recv =>
    rcases recv_eq_some hstep with ⟨ev, rest, -, rfl⟩ | ⟨x, y, rest, -, rfl⟩
    · unfold Relayed osKeys at h ⊢
      rw [List.filterMap_append, h, key_applyEvent, keysIn_append, image_append]
    · unfold Relayed osKeys at h ⊢
      rw [List.filterMap_append, h]
      exact List.append_nil _

/-- A key is down on the device iff a key that becomes it is held. -/
def InStep (t : EnigoInjector) : Prop :=
  ∀ k, Down t.osKeys k ↔ ∃ key, toEnigoKey key = some k ∧ Down (keysIn t.received) key

/-- The thread receives the release of a key, and another that becomes the same key of the device is held. -/
def ReleasesShared (t : EnigoInjector) (e : EnigoEvent) : Prop :=
  e = .recv ∧ ∃ key, t.queue.head? = some (.event (.key key false)) ∧
    ∃ k, toEnigoKey key = some k ∧ ∃ other ≠ key, toEnigoKey other = some k ∧ Down (keysIn t.received) other

theorem inStep_iff (h : Relayed t) : InStep t ↔ Mirrors enigoKeys (keysIn t.received) := by
  unfold InStep Mirrors
  rw [h]
  simp only [mem_enigoKeys]

theorem step_inStep (hrelayed : Relayed t) (h : InStep t) (hstep : step ar t e = some t') :
    InStep t' ↔ ¬ ReleasesShared t e := by
  have hrelayed' := step_relayed hrelayed hstep
  rw [inStep_iff hrelayed']
  rw [inStep_iff hrelayed] at h
  have hquiet : t'.received = t.received → e ≠ .recv ∨ (∀ ev, t.queue.head? ≠ some (.event ev)) →
      (Mirrors enigoKeys (keysIn t'.received) ↔ ¬ ReleasesShared t e) := by
    intro hreceived hnot
    rw [hreceived]
    refine iff_of_true h ?_
    rintro ⟨hrecv, key, hhead, -⟩
    rcases hnot with hne | hno
    · exact hne hrecv
    · exact hno _ hhead
  cases e with
  | inject ev =>
    cases hstep
    exact hquiet rfl (Or.inl nofun)
  | setCursorNorm x y =>
    cases hstep
    exact hquiet rfl (Or.inl nofun)
  | recv =>
    rcases recv_eq_some hstep with ⟨ev, rest, hqueue, rfl⟩ | ⟨x, y, rest, hqueue, rfl⟩
    · by_cases hkey : ∃ key pressed, ev = .key key pressed
      · obtain ⟨key, pressed, rfl⟩ := hkey
        rw [keysIn_append]
        refine (mirrors_snoc_iff h key pressed).trans (not_congr ?_)
        simp only [ReleasesShared, Clobbers, hqueue, List.head?_cons, Option.some.injEq, InjectMsg.event.injEq,
          InputEvent.key.injEq, mem_enigoKeys, true_and]
        constructor
        · rintro ⟨rfl, hclobbers⟩
          exact ⟨key, ⟨rfl, rfl⟩, hclobbers⟩
        · rintro ⟨key', ⟨rfl, rfl⟩, hclobbers⟩
          exact ⟨rfl, hclobbers⟩
      · have hnone : keysIn [ev] = [] := by
          cases ev with
          | key key pressed => exact absurd ⟨key, pressed, rfl⟩ hkey
          | _ => rfl
        have hsame : keysIn (t.received ++ [ev]) = keysIn t.received := by
          rw [keysIn_append, hnone, List.append_nil]
        dsimp only
        rw [hsame]
        refine iff_of_true h ?_
        rintro ⟨-, key, hhead, -⟩
        rw [hqueue, List.head?_cons] at hhead
        exact hkey ⟨key, false, InjectMsg.event.inj (Option.some.inj hhead)⟩
    · exact hquiet rfl (Or.inr fun ev => by simp [hqueue])

/-- Both Shift keys are pressed, and the left one is released. -/
def bothShifts : List EnigoEvent :=
  [.inject (.key .shiftLeft true), .inject (.key .shiftRight true), .recv, .inject (.key .shiftLeft false), .recv]

end EnigoInjector

end ScreenLink

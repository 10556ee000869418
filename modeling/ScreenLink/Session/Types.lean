import ScreenLink.Core.Security

/-!
# Commands and events of the network layer

The types of `net.rs` between the user interface, the dispatcher and the sessions.
-/

namespace ScreenLink

inductive IpAddr
  | v4 (addr : BitVec 32)
  | v6 (addr : BitVec 128)
  deriving DecidableEq

/-- Connection state surfaced to the UI. -/
inductive ConnState
  | connecting
  | pairing
  | connected (controlling : Bool)
  | disconnected
  | error (text : String)
  deriving DecidableEq

/-- Events from the network layer to the UI. -/
inductive NetEvent
  | status (text : String)
  | peerState (fingerprint name : String) (state : ConnState)
  | pairingPrompt (fingerprint name pin : String)
  | pairingResult (fingerprint : String) (ok : Bool)
  /-- A round-trip sample; the measured time is left out. -/
  | rtt (fingerprint : String)
  | controlOnRemote (onRemote : Bool)
  deriving DecidableEq

/-- Commands from the UI to the network layer. -/
inductive NetCommand
  | connect (ip : IpAddr) (name : String) (edge : ScreenEdge)
  | confirmPairing (fingerprint : String)
  | cancelPairing (fingerprint : String)
  | disconnect (fingerprint : String)
  | setEdge (fingerprint : String) (edge : ScreenEdge)
  | snapHome
  | shareScreen (fingerprint : String)
  | stopShareScreen (fingerprint : String)
  deriving DecidableEq

/-- The per-session command a `NetCommand` is routed as. -/
inductive SessionCmd
  | confirm
  | cancel
  | disconnect
  | setEdge (edge : ScreenEdge)
  | snapHome
  | startMirror
  | stopMirror
  deriving DecidableEq

inductive Role
  /-- We have the keyboard and mouse and drive the peer. -/
  | controller (peerIp : IpAddr) (edge : ScreenEdge)
  /-- We are driven by the peer. -/
  | controlled
  deriving DecidableEq

def Role.controls : Role → Bool
  | .controller .. => true
  | .controlled => false

/-- The two ends: `a` has connected to `b`. -/
inductive Side
  | a
  | b
  deriving DecidableEq

namespace Side

def other : Side → Side
  | .a => .b
  | .b => .a

@[simp] theorem other_other (side : Side) : side.other.other = side := by cases side <;> rfl

@[simp] theorem other_ne (side : Side) : side.other ≠ side := by cases side <;> decide

theorem forall_iff {P : Side → Prop} : (∀ side, P side) ↔ P .a ∧ P .b :=
  ⟨fun h => ⟨h .a, h .b⟩, fun h side => by cases side <;> simp [h]⟩

instance (P : Side → Prop) [DecidablePred P] : Decidable (∀ side, P side) := decidable_of_iff' _ forall_iff

theorem eq_or_eq_other (side side' : Side) : side' = side ∨ side' = side.other := by
  cases side <;> cases side' <;> decide

end Side

end ScreenLink

import ScreenLink.Core.Realtime

/-!
# The mirror threads

`mirror.rs`: the sender's loop, one step for the loop head and one for each chunk, and what a session keeps of a
receiver. The stop flag is read at the loop head only.
-/

namespace ScreenLink

/-- What `next_frame` and `encode` return at the loop head. -/
inductive SourceFrame
  | encoded (keyframe : Bool) (data : Bytes)
  | encodeFailed
  | noFrame
  | ended
  deriving DecidableEq

/-- A mirror sender thread. -/
structure MirrorSender where
  rt : RealtimeCrypto
  frameId : BitVec 32
  /-- The chunks of the frame being sent; `none` at the loop head. -/
  pending : Option (List VideoChunk)
  stop : Bool
  exited : Bool
  /-- The packets sent. -/
  out : List Bytes
  /-- History: the sequence number of each `seal` call. -/
  sealed : List (BitVec 64)

inductive SenderEvent
  | head (frame : SourceFrame)
  | chunk
  deriving DecidableEq

namespace MirrorSender

def spawn (videoKey : SessionKey) (epoch : BitVec 64) : MirrorSender where
  rt := .new videoKey epoch true
  frameId := 0
  pending := none
  stop := false
  exited := false
  out := []
  sealed := []

def halt (t : MirrorSender) : MirrorSender := { t with stop := true }

/-- The loop head: test `stop`, take a frame, split it. -/
def head (t : MirrorSender) (frame : SourceFrame) : MirrorSender :=
  if t.stop then { t with exited := true }
  else match frame with
    | .encoded keyframe data => { t with pending := some (splitFrame t.frameId keyframe data DEFAULT_MAX_CHUNK) }
    | .encodeFailed | .noFrame => t
    | .ended => { t with exited := true }

/-- Serialize, seal and send one chunk; a failure of either is ignored. -/
def sendChunk (x : Crates) (t : MirrorSender) (chunk : VideoChunk) : MirrorSender :=
  match x.encodeChunk chunk with
  | none => t
  | some payload =>
    let (rt, res) := t.rt.seal x payload
    let t := { t with rt := rt, sealed := t.sealed ++ [t.rt.sendSeq] }
    match res with
    | .error _ => t
    | .ok packet => { t with out := t.out ++ [packet] }

def step (x : Crates) (t : MirrorSender) (ev : SenderEvent) : Option MirrorSender :=
  match ev, t.pending with
  | .head frame, none => if t.exited then none else some (t.head frame)
  | .chunk, some (chunk :: rest) => some { t.sendChunk x chunk with pending := some rest }
  | .chunk, some [] => some { t with pending := none, frameId := t.frameId + 1 }
  | _, _ => none

end MirrorSender

/-- A mirror receiver thread. -/
structure MirrorReceiver where
  rt : RealtimeCrypto
  stop : Bool

namespace MirrorReceiver

def spawn (videoKey : SessionKey) (epoch : BitVec 64) : MirrorReceiver where
  rt := .new videoKey epoch false
  stop := false

def halt (t : MirrorReceiver) : MirrorReceiver := { t with stop := true }

end MirrorReceiver

end ScreenLink

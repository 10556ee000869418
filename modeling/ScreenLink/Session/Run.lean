import ScreenLink.Input.Loop
import ScreenLink.Session.Core
import ScreenLink.Session.Mirror

/-!
# One session

`run_session` as a step function. A phase is a point where the session waits or where another task can run between
two accesses to shared state; an event is what it waits for there (a message, the end of the stream, a routed
command, a tick) or what the environment decides (a random epoch, whether a write to disk fails). The threads a
session starts (input loop, clipboard, mirror) step as part of it, since they write to its outgoing queue.
-/

namespace ScreenLink

/-- The input loop's thread. -/
structure HostThread where
  input : HostInput
  desktop : Rect
  /-- The values stored in the shared edge setting so far. -/
  edges : List ScreenEdge
  stop : Bool
  exited : Bool

namespace HostThread

def halt (h : HostThread) : HostThread := { h with stop := true }

def requestSnap (h : HostThread) : HostThread := { h with input := { h.input with snapHome := true } }

def storeEdge (h : HostThread) (edge : ScreenEdge) : HostThread := { h with edges := h.edges ++ [edge] }

end HostThread

/-- Where `run_session` is. -/
inductive Phase
  | start
  /-- Our Hello is written, the peer's is awaited. -/
  | hello
  /-- The peer's Hello is accepted, the fingerprint slot not yet set. -/
  | greeted (info : DeviceInfo)
  /-- The slot is set, the trust store not yet asked. -/
  | gate (info : DeviceInfo)
  | pairing (info : DeviceInfo) (state : PairingState)
  /-- Both sides have confirmed, the trust store is not yet updated. -/
  | paired (info : DeviceInfo)
  /-- Past the gate, before the input and clipboard threads are started. -/
  | authenticated (info : DeviceInfo)
  | running (info : DeviceInfo)
  /-- Out of the main loop, before the teardown. -/
  | closing (info : DeviceInfo) (result : Option SessionError)
  | ended (result : Option SessionError)
  deriving DecidableEq

namespace Phase

/-- The session can act on its peer's messages, or could a moment ago. -/
def pastGate : Phase → Bool
  | .authenticated _ | .running _ | .closing _ _ => true
  | _ => false

def finished : Phase → Bool
  | .ended _ => true
  | _ => false

/-- What the peer said in its Hello, once accepted. -/
def info? : Phase → Option DeviceInfo
  | .greeted info | .gate info | .pairing info _ | .paired info | .authenticated info | .running info
  | .closing info _ => some info
  | _ => none

end Phase

structure Session where
  role : Role
  peerIp : IpAddr
  /-- The key exported from the TLS session. -/
  key : SessionKey
  /-- The certificate the peer presented on this TLS connection; `run_session` does not read it. -/
  cert : Bytes
  phase : Phase
  /-- `peer_fp_slot` -/
  slot : Option String
  /-- Control messages not yet read by the peer. -/
  out : List ControlMsg
  /-- The writer task is alive. -/
  writer : Bool
  pingNonce : BitVec 64
  pingSent : List (BitVec 64)
  host : Option HostThread
  /-- The clipboard thread is alive. -/
  clip : Bool
  senders : List MirrorSender
  /-- The sender whose stop handle is kept. -/
  mirrorTx : Option ℕ
  receivers : List MirrorReceiver
  /-- The receiver whose stop handle is kept. -/
  mirrorRx : Option ℕ

inductive SessionEvent
  | sayHello
  | recv (msg : ControlMsg)
  /-- The stream has ended or failed. -/
  | closed (error : Error)
  | setSlot
  | checkTrust
  /-- A command taken from the queue; `epoch` is the next random number. -/
  | cmd (cmd : SessionCmd) (epoch : BitVec 64)
  | cmdClosed
  /-- `TrustStore::trust`, whose write to disk may fail. -/
  | store (error : Option Error)
  /-- Start the threads; binding the socket or the capturer may fail. -/
  | wire (epoch : BitVec 64) (desktop : Rect) (error : Option Error)
  | tick
  | teardown
  | writerDied
  /-- An iteration of the input loop. -/
  | host (edge : ScreenEdge) (captured : Option CapturedEvent) (edgeNow : ScreenEdge)
  | hostExit
  | sender (index : ℕ) (event : SenderEvent)
  /-- The clipboard thread pushes a local change. -/
  | clipboard (text : String)
  | clipExit
  deriving DecidableEq

namespace Session

def new (role : Role) (peerIp : IpAddr) (key : SessionKey) (cert : Bytes) : Session where
  role := role
  peerIp := peerIp
  key := key
  cert := cert
  phase := .start
  slot := none
  out := []
  writer := true
  pingNonce := 0
  pingSent := []
  host := none
  clip := false
  senders := []
  mirrorTx := none
  receivers := []
  mirrorRx := none

/-- `out_tx.send`; lost when the writer is gone. -/
def send (s : Session) (msg : ControlMsg) : Session := { s with out := if s.writer then s.out ++ [msg] else s.out }

def fail (s : Session) (error : SessionError) : Session := { s with phase := .ended (some error) }

def videoKey (x : Crates) (s : Session) : SessionKey := deriveSubkey x s.key (asBytes "video")

/-- Set the stop flag of sender `i`. -/
def stopSender (s : Session) (i : ℕ) : Session :=
  { s with senders := s.senders.modify i MirrorSender.halt }

/-- Set the stop flag of receiver `i`. -/
def stopReceiver (s : Session) (i : ℕ) : Session :=
  { s with receivers := s.receivers.modify i MirrorReceiver.halt }

variable {x : Crates}

/-! ### Hello -/

def sayHello (core : AppCore x) (s : Session) : Session :=
  { s.send (.hello PROTOCOL_VERSION core.deviceInfo) with phase := .hello }

def recvHello (s : Session) (msg : ControlMsg) : Session :=
  match msg with
  | .hello protocol info =>
    if protocol ≠ PROTOCOL_VERSION then
      (s.send (.reject ("protocol " ++ toString protocol.toNat ++ " != " ++
        toString PROTOCOL_VERSION.toNat))).fail (.protocolMismatch protocol PROTOCOL_VERSION)
    else { s with phase := .greeted info }
  | other => s.fail (.expectedHello other)

def setSlot (s : Session) (info : DeviceInfo) : Session := { s with slot := some info.id.id, phase := .gate info }

/-! ### The pairing gate -/

/-- Show the code and start the pairing loop. -/
def beginPairing (core : AppCore x) (s : Session) (info : DeviceInfo) : AppCore x × Session :=
  let pin := comparisonPin x core.identity.fingerprint info.id.id
  ((core.emit (.peerState info.id.id info.name .pairing)).emit (.pairingPrompt info.id.id info.name pin),
    { s.send .pairBegin with phase := .pairing info {} })

def checkTrust (core : AppCore x) (s : Session) (info : DeviceInfo) : AppCore x × Session :=
  if core.trust.isTrusted info.id.id then (core, { s with phase := .authenticated info })
  else beginPairing core s info

/-- The test at the end of the pairing loop's body. -/
def afterSelect (info : DeviceInfo) (state : PairingState) : Phase :=
  if state.isComplete then .paired info else .pairing info state

def pairingRecv (core : AppCore x) (s : Session) (info : DeviceInfo) (state : PairingState) (msg : ControlMsg) :
    AppCore x × Session :=
  match msg with
  | .pairBegin => (core, { s with phase := afterSelect info state })
  | .pairConfirm => (core, { s with phase := afterSelect info state.confirmRemote })
  | .pairCancel reason => (core.emit (.pairingResult info.id.id false), s.fail (.peerCancelled reason))
  | other => (core, s.fail (.unexpectedDuringPairing other))

def pairingCancel (core : AppCore x) (s : Session) (info : DeviceInfo) : AppCore x × Session :=
  (core.emit (.pairingResult info.id.id false), (s.send (.pairCancel "user cancelled")).fail .localCancel)

def pairingCmd (core : AppCore x) (s : Session) (info : DeviceInfo) (state : PairingState) (cmd : SessionCmd) :
    AppCore x × Session :=
  match cmd with
  | .confirm => (core, { s.send .pairConfirm with phase := afterSelect info state.confirmLocal })
  | .cancel | .disconnect => pairingCancel core s info
  | _ => (core, { s with phase := afterSelect info state })

/-- The store is updated in memory also when the write to disk fails. -/
def store (core : AppCore x) (s : Session) (info : DeviceInfo) (error : Option Error) : AppCore x × Session :=
  let core := { core with trust := core.trust.trust info.id.id info.name }
  match error with
  | some error => (core, s.fail (.failed error))
  | none => ((core.emit (.pairingResult info.id.id true)).emit (.status ("Paired with " ++ info.name)),
      { s with phase := .authenticated info })

/-! ### Authenticated -/

/-- Start the clipboard thread, and on the controller open the realtime channel and start the input loop. -/
def wire (core : AppCore x) (s : Session) (info : DeviceInfo) (epoch : BitVec 64) (desktop : Rect)
    (error : Option Error) : AppCore x × Session :=
  let s := { s with clip := true }
  match s.role with
  | .controlled => (core.emit (.peerState info.id.id info.name (.connected false)), { s with phase := .running info })
  | .controller _ edge =>
    let s := (s.send (.setMode .control)).send (.realtimeOpen core.realtimePort epoch)
    match error with
    | some error => (core, s.fail (.failed error))
    | none => (core.emit (.peerState info.id.id info.name (.connected true)), { s with
        host := some ⟨.start edge 25 (.new s.key epoch true), desktop, [edge], false, false⟩
        phase := .running info })

/-! ### The main loop -/

/-- `handle_inbound`; `some reason` ends the session. -/
def handleInbound (core : AppCore x) (s : Session) (info : DeviceInfo) (msg : ControlMsg) :
    AppCore x × Session × Option String :=
  match msg with
  | .setMode mode => match s.role with
    | .controlled => (core, s.send (.modeAck mode true ""), none)
    | .controller .. => (core, s, none)
  | .realtimeOpen _ epoch => match s.role with
    | .controlled => ({ core with inboundRt := some (.new s.key epoch false) }, s, none)
    | .controller .. => (core, s, none)
  | .edgeEnter px py => match s.role with
    | .controlled => ({ core with injector := core.injector ++ [.setCursorNorm px py] }, s, none)
    | .controller .. => (core, s, none)
  | .clipboard (.text text) => ({ core with applied := core.applied ++ [text] }, s, none)
  | .ping nonce => (core, s.send (.pong nonce), none)
  | .pong nonce =>
    if nonce ∈ s.pingSent then (core.emit (.rtt info.id.id), { s with pingSent := s.pingSent.erase nonce }, none)
    else (core, s, none)
  | .reject reason => (core, s, some ("peer rejected: " ++ reason))
  | .edgeLeave | .modeAck .. | .hello .. | .helloAck _ | .pairBegin | .pairConfirm | .pairConfirmed | .pairCancel _
  | .startMirror _ | .stopMirror => (core, s, none)

/-- Take the receiver's stop handle, if there is one, and set it. -/
def takeReceiver (s : Session) : Session :=
  match s.mirrorRx with
  | some i => { s.stopReceiver i with mirrorRx := none }
  | none => s

/-- The messages the main loop handles itself. -/
def mirrorInbound (core : AppCore x) (s : Session) (info : DeviceInfo) (msg : ControlMsg) : AppCore x × Session :=
  match msg with
  | .startMirror epoch =>
    let s := s.takeReceiver
    (core.emit (.status ("Viewing " ++ info.name ++ "'s screen")), { s with
      receivers := s.receivers ++ [.spawn (s.videoKey x) epoch]
      mirrorRx := some s.receivers.length })
  | .stopMirror => ({ core with videoFrame := none }, s.takeReceiver)
  | _ => (core, s)

def runningRecv (core : AppCore x) (s : Session) (info : DeviceInfo) (msg : ControlMsg) : AppCore x × Session :=
  let p := mirrorInbound core s info msg
  let q := handleInbound p.1 p.2 info msg
  (q.1, match q.2.2 with
    | none => q.2.1
    | some reason => { q.2.1 with phase := .closing info (some (.stopped reason)) })

def runningCmd (core : AppCore x) (s : Session) (info : DeviceInfo) (cmd : SessionCmd) (epoch : BitVec 64) :
    AppCore x × Session :=
  match cmd with
  | .disconnect => (core, { s with phase := .closing info none })
  | .snapHome => (core, { s with host := s.host.map HostThread.requestSnap })
  | .setEdge edge => (core, { s with host := s.host.map fun h => h.storeEdge edge })
  | .startMirror => match s.mirrorTx with
    | some _ => (core, s)
    | none =>
      if !s.writer then (core, { s with phase := .closing info none })
      else (core.emit (.status ("Sharing screen with " ++ info.name)), { s.send (.startMirror epoch) with
        senders := s.senders ++ [.spawn (s.videoKey x) epoch]
        mirrorTx := some s.senders.length })
  | .stopMirror => match s.mirrorTx with
    | some i => (core, { (s.stopSender i).send .stopMirror with mirrorTx := none })
    | none => (core, s.send .stopMirror)
  | .confirm | .cancel => (core, s)

def tick (s : Session) (info : DeviceInfo) : Session :=
  let s := { s with pingNonce := s.pingNonce + 1, pingSent := s.pingSent ++ [s.pingNonce + 1] }
  if !s.writer then { s with phase := .closing info none } else s.send (.ping s.pingNonce)

/-- Set every stop handle the session still holds. -/
def stopThreads (s : Session) : Session :=
  { s with
    host := s.host.map HostThread.halt
    senders := match s.mirrorTx with
      | some i => s.senders.modify i MirrorSender.halt
      | none => s.senders
    receivers := match s.mirrorRx with
      | some i => s.receivers.modify i MirrorReceiver.halt
      | none => s.receivers }

/-- Clear what the session may have put into the shared slots. -/
def clearShared (core : AppCore x) (s : Session) : AppCore x :=
  { core with
    videoFrame := match s.mirrorRx with
      | some _ => none
      | none => core.videoFrame
    inboundRt := match s.role with
      | .controlled => none
      | .controller .. => core.inboundRt }

def teardown (core : AppCore x) (s : Session) (info : DeviceInfo) (result : Option SessionError) :
    AppCore x × Session :=
  ((clearShared core s).emit (.peerState info.id.id info.name .disconnected),
    { s.stopThreads with writer := false, phase := .ended result })

/-! ### The threads -/

/-- Forward what the input loop has just emitted: control messages to the writer, events to the UI. -/
def forwardOne (p : AppCore x × Session) (o : HostOut) : AppCore x × Session :=
  match o with
  | .ctrl msg => (p.1, p.2.send msg)
  | .event event => (p.1.emit event, p.2)
  | .udp .. | .suppress _ | .park .. => p

def hostStep (ar : Arith) (core : AppCore x) (s : Session) (h : HostThread) (edge : ScreenEdge)
    (captured : Option CapturedEvent) (edgeNow : ScreenEdge) : AppCore x × Session :=
  let input := hostIter x ar h.desktop h.input ⟨edge, false, captured, edgeNow⟩
  let s := { s with host := some { h with input := input } }
  (input.out.drop h.input.out.length).foldl forwardOne (core, s)

/-! ### The step function -/

/-- One step of the session; `none` if the event cannot happen now. -/
def step (ar : Arith) (core : AppCore x) (s : Session) (event : SessionEvent) : Option (AppCore x × Session) :=
  match event, s.phase with
  | .sayHello, .start => some (core, s.sayHello core)
  | .closed error, .start => some (core, s.fail (.failed error))
  | .recv msg, .hello => some (core, s.recvHello msg)
  | .closed error, .hello => some (core, s.fail (.failed error))
  | .setSlot, .greeted info => some (core, s.setSlot info)
  | .checkTrust, .gate info => some (checkTrust core s info)
  | .recv msg, .pairing info state => some (pairingRecv core s info state msg)
  | .closed _, .pairing _ _ => some (core, s.fail .closedDuringPairing)
  | .cmd cmd _, .pairing info state => some (pairingCmd core s info state cmd)
  | .cmdClosed, .pairing info _ => some (pairingCancel core s info)
  | .store error, .paired info => some (store core s info error)
  | .wire epoch desktop error, .authenticated info => some (wire core s info epoch desktop error)
  | .recv msg, .running info => some (runningRecv core s info msg)
  | .closed _, .running info => some (core, { s with phase := .closing info none })
  | .cmd cmd epoch, .running info => some (runningCmd core s info cmd epoch)
  | .cmdClosed, .running info => some (core, { s with phase := .closing info none })
  | .tick, .running info => some (core, s.tick info)
  | .teardown, .closing info result => some (teardown core s info result)
  | .writerDied, _ => if s.slot.isSome then some (core, { s with writer := false, out := [] }) else none
  | .host edge captured edgeNow, _ => match s.host with
    | some h =>
      if h.stop ∨ h.exited ∨ edge ∉ h.edges ∨ edgeNow ∉ h.edges then none
      else some (hostStep ar core s h edge captured edgeNow)
    | none => none
  | .hostExit, _ => match s.host with
    | some h =>
      if !h.stop ∨ h.exited then none
      else some (core, { s with host := some { h with input := h.input.emit (.suppress false), exited := true } })
    | none => none
  | .sender i ev, _ => match s.senders[i]? with
    | some t => (t.step x ev).map fun t => (core, { s with senders := s.senders.set i t })
    | none => none
  | .clipboard text, _ => if s.clip then some (core, s.send (.clipboard (.text text))) else none
  | .clipExit, .ended _ => some (core, { s with clip := false })
  | _, _ => none

/-- The epoch of the inbound channel the event opens, if it opens one. -/
def opens (s : Session) (event : SessionEvent) : Option (BitVec 64) :=
  match event, s.phase, s.role with
  | .recv (.realtimeOpen _ epoch), .running _, .controlled => some epoch
  | _, _, _ => none

/-- The event clears the inbound channel. -/
def clears (s : Session) (event : SessionEvent) : Bool :=
  match event, s.phase, s.role with
  | .teardown, .closing _ _, .controlled => true
  | _, _, _ => false

end Session

end ScreenLink

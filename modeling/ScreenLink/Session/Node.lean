import ScreenLink.Session.Run

/-!
# The whole process

`run`, `accept_loop`, `route` and the UDP listener: one process with any number of sessions. The dispatcher takes
UI commands one at a time and routes each in two parts, as the code does: it first visits the handles under the
sessions lock, reading each fingerprint slot at its own moment, and then sends to the targets one after the other,
waiting where a queue of 16 is full. A session's step is `Session.step`; the runs of `Node.step` are all the
interleavings of the tasks with the peers and the user.
-/

namespace ScreenLink

/-- A routed command, with the session whose prompt the user answered by it (history: no step reads it). -/
structure Queued where
  cmd : SessionCmd
  answers : Option ℕ
  deriving DecidableEq

/-- The task behind a session handle. -/
inductive Task
  /-- `connect_and_run` before the TLS session is up. -/
  | connecting (ip : IpAddr) (edge : ScreenEdge)
  | session (s : Session)
  | connectFailed

/-- `SessionHandle`, with the task it belongs to. -/
structure Handle where
  task : Task
  /-- The name given to `Connect`. -/
  name : String
  /-- The commands sent and not yet taken. -/
  queue : List Queued

namespace Handle

def session? (h : Handle) : Option Session :=
  match h.task with
  | .session s => some s
  | _ => none

/-- The value of `peer_fp`. -/
def slot (h : Handle) : Option String := h.session?.bind Session.slot

/-- The receiver of the queue is gone. -/
def closed (h : Handle) : Bool :=
  match h.task with
  | .connecting .. => false
  | .session s => s.phase.finished
  | .connectFailed => true

end Handle

/-- What the dispatcher is doing. -/
inductive Dispatch
  | idle
  /-- In the filter of `route` (or `broadcast`, without a fingerprint), at handle `next`. -/
  | filtering (fingerprint : Option String) (cmd : Queued) (next : ℕ) (targets : List ℕ)
  | sending (cmd : Queued) (targets : List ℕ)
  deriving DecidableEq

/-- A UI command, with the session whose prompt it answers (history). -/
structure Command where
  cmd : NetCommand
  answers : Option ℕ
  deriving DecidableEq

structure Node (x : Crates) where
  core : AppCore x
  /-- `sessions` -/
  handles : List Handle
  /-- The UI commands not yet received. -/
  commands : List Command
  dispatch : Dispatch
  /-- History: the session that opened the inbound channel last, and the epoch. -/
  opener : Option (ℕ × BitVec 64)

inductive NodeEvent
  /-- The UI sends a command. -/
  | ui (cmd : NetCommand)
  /-- The user confirms the prompt of session `i`. -/
  | confirm (i : ℕ)
  /-- `TrustStore::revoke` on the UI thread. -/
  | revoke (fingerprint : String)
  /-- An inbound TLS connection is up. -/
  | accept (ip : IpAddr) (key : SessionKey) (cert : Bytes)
  /-- An outgoing TLS connection is up. -/
  | connected (i : ℕ) (key : SessionKey) (cert : Bytes)
  | connectFailed (i : ℕ) (error : Error)
  /-- The dispatcher takes the next command. -/
  | receive
  /-- The dispatcher's filter looks at the next handle. -/
  | visit
  /-- The dispatcher sends to the next target. -/
  | send
  /-- Session `i` takes a command from its queue. -/
  | command (i : ℕ) (epoch : BitVec 64)
  /-- Any other step of session `i`. -/
  | session (i : ℕ) (event : SessionEvent)
  /-- A packet arrives on the realtime port. -/
  | datagram (packet : Bytes)
  deriving DecidableEq

namespace Node

/-- Capacity of a session's command queue. -/
def QUEUE : ℕ := 16

variable {x : Crates}

def initial (core : AppCore x) : Node x where
  core := core
  handles := []
  commands := []
  dispatch := .idle
  opener := none

/-- Session `i`, if handle `i` has one. -/
def session? (n : Node x) (i : ℕ) : Option Session := n.handles[i]?.bind Handle.session?

/-- `route`'s filter, where an empty fingerprint matches all; `broadcast` takes every handle. -/
def matchesHandle (fingerprint : Option String) (h : Handle) : Bool :=
  match fingerprint with
  | some fingerprint => fingerprint == "" || h.slot == some fingerprint
  | none => true

/-- The body of the dispatcher's loop, up to its first wait. -/
def dispatchCommand (n : Node x) (c : Command) : Node x :=
  match c.cmd with
  | .connect ip name edge => { n with
      core := n.core.emit (.peerState "" name .connecting)
      handles := n.handles ++ [⟨.connecting ip edge, name, []⟩] }
  | .confirmPairing fingerprint => { n with dispatch := .filtering (some fingerprint) ⟨.confirm, c.answers⟩ 0 [] }
  | .cancelPairing fingerprint => { n with dispatch := .filtering (some fingerprint) ⟨.cancel, none⟩ 0 [] }
  | .disconnect fingerprint => { n with dispatch := .filtering (some fingerprint) ⟨.disconnect, none⟩ 0 [] }
  | .setEdge fingerprint edge => { n with dispatch := .filtering (some fingerprint) ⟨.setEdge edge, none⟩ 0 [] }
  | .snapHome => { n with dispatch := .filtering none ⟨.snapHome, none⟩ 0 [] }
  | .shareScreen fingerprint => { n with dispatch := .filtering (some fingerprint) ⟨.startMirror, none⟩ 0 [] }
  | .stopShareScreen fingerprint => { n with dispatch := .filtering (some fingerprint) ⟨.stopMirror, none⟩ 0 [] }

/-- One visit of the filter. -/
def visit (n : Node x) (fingerprint : Option String) (cmd : Queued) (next : ℕ) (targets : List ℕ) : Node x :=
  match n.handles[next]? with
  | none => { n with dispatch := .sending cmd targets }
  | some h =>
    let targets := if matchesHandle fingerprint h then targets ++ [next] else targets
    { n with dispatch := .filtering fingerprint cmd (next + 1) targets }

/-- One `tx.send(cmd).await`: it fails when the receiver is gone and waits when the queue is full. -/
def sendTo (n : Node x) (cmd : Queued) (targets : List ℕ) : Option (Node x) :=
  match targets with
  | [] => some { n with dispatch := .idle }
  | i :: rest => match n.handles[i]? with
    | none => none
    | some h =>
      if h.closed then some { n with dispatch := .sending cmd rest }
      else if h.queue.length < QUEUE then some { n with
        handles := n.handles.set i { h with queue := h.queue ++ [cmd] }
        dispatch := .sending cmd rest }
      else none

/-- What `run` does when a controller session has ended with an error. -/
def report (core : AppCore x) (name : String) (s : Session) : AppCore x :=
  match s.role, s.phase with
  | .controller .., .ended (some error) => core.emit (.peerState "" name (.error (error.text x)))
  | _, _ => core

/-- After session `i` has done `event` with the result `p`, and its queue is `queue`. -/
def afterStep (n : Node x) (i : ℕ) (name : String) (s : Session) (queue : List Queued) (event : SessionEvent)
    (p : AppCore x × Session) : Node x :=
  { n with
    core := if s.phase.finished then p.1 else report p.1 name p.2
    handles := n.handles.set i ⟨.session p.2, name, queue⟩
    opener := match s.opens event with
      | some epoch => some (i, epoch)
      | none => n.opener }

/-- One round of the UDP listener. -/
def datagram (core : AppCore x) (packet : Bytes) : AppCore x :=
  match core.inboundRt with
  | none => core
  | some rt =>
    let (rt, res) := rt.open x packet
    let core := { core with inboundRt := some rt }
    match res with
    | .error _ => core
    | .ok (_, pt) => match x.decodeInput pt with
      | none => core
      | some event => { core with injector := core.injector ++ [.inject event] }

/-- One step of the process; `none` if the event cannot happen now. -/
def step (ar : Arith) (n : Node x) (event : NodeEvent) : Option (Node x) :=
  match event with
  | .ui cmd => match cmd with
    | .confirmPairing _ => none
    | _ => some { n with commands := n.commands ++ [⟨cmd, none⟩] }
  | .confirm i => match (n.session? i).bind Session.slot with
    | some fingerprint =>
      if n.core.events.any fun | .pairingPrompt fp _ _ => fp == fingerprint | _ => false then
        some { n with commands := n.commands ++ [⟨.confirmPairing fingerprint, some i⟩] }
      else none
    | none => none
  | .revoke fingerprint => some { n with core := { n.core with trust := n.core.trust.revoke fingerprint } }
  | .accept ip key cert => match n.dispatch with
    | .filtering .. => none
    | _ => match (PinnedVerifier.check x .pairTofu cert).1 with
      | .error _ => none
      | .ok _ => some { n with handles := n.handles ++ [⟨.session (.new .controlled ip key cert), "", []⟩] }
  | .connected i key cert => match n.handles[i]? with
    | some ⟨.connecting ip edge, name, queue⟩ => match (PinnedVerifier.check x .pairTofu cert).1 with
      | .error _ => none
      | .ok _ => some { n with
        handles := n.handles.set i ⟨.session (.new (.controller ip edge) ip key cert), name, queue⟩ }
    | _ => none
  | .connectFailed i error => match n.handles[i]? with
    | some ⟨.connecting _ _, name, queue⟩ => some { n with
        core := n.core.emit (.peerState "" name (.error error.text))
        handles := n.handles.set i ⟨.connectFailed, name, queue⟩ }
    | _ => none
  | .receive => match n.dispatch, n.commands with
    | .idle, c :: rest => some ({ n with commands := rest }.dispatchCommand c)
    | _, _ => none
  | .visit => match n.dispatch with
    | .filtering fingerprint cmd next targets => some (n.visit fingerprint cmd next targets)
    | _ => none
  | .send => match n.dispatch with
    | .sending cmd targets => n.sendTo cmd targets
    | _ => none
  | .command i epoch => match n.handles[i]? with
    | some ⟨.session s, name, q :: queue⟩ =>
      (s.step ar n.core (.cmd q.cmd epoch)).map (n.afterStep i name s queue (.cmd q.cmd epoch))
    | _ => none
  | .session i event => match event, n.handles[i]? with
    -- commands come from the queue, and handles are never removed, so it is never closed
    | .cmd .., _ | .cmdClosed, _ => none
    | event, some ⟨.session s, name, queue⟩ => (s.step ar n.core event).map (n.afterStep i name s queue event)
    | _, none => none
    | _, some _ => none
  | .datagram packet => some { n with core := datagram n.core packet }

end Node

end ScreenLink

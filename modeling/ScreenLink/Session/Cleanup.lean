import ScreenLink.Session.Link
import ScreenLink.Session.NodeMoves
import ScreenLink.Session.Route
import ScreenLink.Session.Threads

/-!
# What a session leaves behind

`run_session` starts a reader and a writer task after the Hello, each with one half of the TLS stream, and only its
normal end aborts them. `Connection.step` interleaves the two sessions of a connection with their tasks: a reader ends
when the stream does, or when it has a message to pass on and its session has returned. The stream of an end is closed
when both of its halves are dropped, so two readers whose sessions have returned can wait for each other for ever
(`session_exit_kept`). The handle of a session is never removed from the registry.
-/

namespace ScreenLink

open Machine

inductive ReaderTask
  /-- The session still has the read half. -/
  | unspawned
  /-- In `read_msg`. -/
  | reading
  /-- In `in_tx.send`. -/
  | sending (msg : ControlMsg)
  | gone
  deriving DecidableEq

inductive WriterTask
  /-- The session still has the write half. -/
  | unspawned
  /-- In `out_rx.recv`. -/
  | waiting
  /-- In `write_msg`. -/
  | writing (msg : ControlMsg)
  | gone
  deriving DecidableEq

/-- A session with its tasks; `session.out` is the channel to the writer. -/
structure Endpoint (x : Crates) where
  core : AppCore x
  session : Session
  reader : ReaderTask
  /-- The channel from the reader. -/
  inbox : List ControlMsg
  writer : WriterTask

inductive EndpointEvent (x : Crates)
  /-- A step of the session that needs nothing from the stream. -/
  | act (event : SessionEvent)
  /-- The session reads the peer's Hello itself, -/
  | hello
  /-- or fails to read or write in the Hello exchange. -/
  | helloFails (error : Error)
  /-- The session takes a message from the reader's channel, -/
  | take
  /-- or finds the reader gone. -/
  | noMore (error : Error)
  | read
  /-- The reader sees the end of the stream. -/
  | eof
  /-- The reader passes on its message, or finds the session gone. -/
  | push
  /-- The writer takes a message, -/
  | pull
  | write
  | writeFails
  /-- or finds all senders gone. -/
  | drained
  /-- The other sessions and the user change what the process shares. -/
  | shared (core : AppCore x)

namespace EndpointEvent

variable {x : Crates}

def isRead : EndpointEvent x → Bool
  | .read => true
  | _ => false

def isTeardown : EndpointEvent x → Bool
  | .act .teardown => true
  | _ => false

theorem isTeardown_act {event : SessionEvent} (h : event ≠ .teardown) :
    (act event : EndpointEvent x).isTeardown = false := by
  unfold isTeardown
  split
  · rename_i heq
    cases heq
    exact absurd rfl h
  · rfl

end EndpointEvent

inductive ConnectionEvent (x : Crates)
  | at (side : Side) (event : EndpointEvent x)
  | breaks

/-- The two ends of a TLS connection. -/
structure Connection (x : Crates) where
  endpoint : Side → Endpoint x
  /-- The messages this side has written and the other has not read. -/
  wire : Side → List ControlMsg
  broken : Bool

/-- Capacity of the channel from the reader. -/
def INBOX : ℕ := 256

namespace Endpoint

variable {x : Crates}

def new (core : AppCore x) (role : Role) (ip : IpAddr) (key : SessionKey) (cert : Bytes) : Endpoint x where
  core := core
  session := .new role ip key cert
  reader := .unspawned
  inbox := []
  writer := .unspawned

def returned (a : Endpoint x) : Bool := a.session.phase.finished

/-- Both halves of the stream are dropped. -/
def dropped (a : Endpoint x) : Bool :=
  (match a.reader with
    | .unspawned => a.returned
    | .gone => true
    | _ => false) &&
  match a.writer with
  | .unspawned => a.returned
  | .gone => true
  | _ => false

/-- No sender of the channel to the writer is left: the session, the clipboard thread and the input loop have one. -/
def sendersGone (a : Endpoint x) : Bool := a.returned && !a.session.clip && a.session.host.all HostThread.exited

/-- A step of the session. Before it has a writer it writes itself. -/
def stepSession (ar : Arith) (a : Endpoint x) (event : SessionEvent) : Option (Endpoint x × List ControlMsg) :=
  (a.session.step ar a.core event).map fun p => match a.writer with
    | .unspawned => ({ a with core := p.1, session := { p.2 with out := [] } }, p.2.out)
    | _ => ({ a with core := p.1, session := p.2 }, [])

/-- The tasks after a step of the session: started with the slot set, aborted by the teardown. -/
def afterAct (event : SessionEvent) (a : Endpoint x) : Endpoint x :=
  match event with
  | .setSlot => { a with reader := .reading, writer := .waiting }
  | .teardown => { a with reader := .gone, writer := .gone }
  | _ => a

/-- One step of an end with this input: the end, the input left, and the output. `eof` says that the stream of the
other end is closed. -/
def step (ar : Arith) (broken eof : Bool) (a : Endpoint x) (input : List ControlMsg) (e : EndpointEvent x) :
    Option (Endpoint x × List ControlMsg × List ControlMsg) :=
  match e with
  | .act event =>
    if event.ofStream then none
    else (a.stepSession ar event).map fun p => (p.1.afterAct event, input, p.2)
  | .hello => match a.reader, input with
    | .unspawned, msg :: rest => (a.stepSession ar (.recv msg)).map fun p => (p.1, rest, p.2)
    | _, _ => none
  | .helloFails error => match a.reader with
    | .unspawned => (a.stepSession ar (.closed error)).map fun p => (p.1, input, p.2)
    | _ => none
  | .take => match a.inbox with
    | [] => none
    | msg :: rest => (stepSession ar { a with inbox := rest } (.recv msg)).map fun p => (p.1, input, p.2)
  | .noMore error => match a.reader, a.inbox with
    | .gone, [] => (a.stepSession ar (.closed error)).map fun p => (p.1, input, p.2)
    | _, _ => none
  | .read => match a.reader, input with
    | .reading, msg :: rest => some ({ a with reader := .sending msg }, rest, [])
    | _, _ => none
  | .eof => match a.reader with
    | .reading => if broken || (eof && input.isEmpty) then some ({ a with reader := .gone }, input, []) else none
    | _ => none
  | .push => match a.reader with
    | .sending msg =>
      if a.returned then some ({ a with reader := .gone }, input, [])
      else if a.inbox.length < INBOX then some ({ a with reader := .reading, inbox := a.inbox ++ [msg] }, input, [])
      else none
    | _ => none
  | .pull => match a.writer, a.session.out with
    | .waiting, msg :: rest =>
      some ({ a with writer := .writing msg, session := { a.session with out := rest } }, input, [])
    | _, _ => none
  | .write => match a.writer with
    | .writing msg => some ({ a with writer := .waiting }, input, [msg])
    | _ => none
  | .writeFails => match a.writer with
    | .writing _ => (a.session.step ar a.core .writerDied).map fun p =>
      ({ a with core := p.1, session := p.2, writer := .gone }, input, [])
    | _ => none
  | .drained => match a.writer, a.session.out with
    | .waiting, [] => if a.sendersGone then some ({ a with writer := .gone }, input, []) else none
    | _, _ => none
  | .shared core => some ({ a with core := core }, input, [])

end Endpoint

namespace Connection

variable {x : Crates}

/-- The two ends as the TLS handshake leaves them. -/
def initial (core : Side → AppCore x) (ip : IpAddr) (edge : ScreenEdge) (peer : IpAddr) (key : SessionKey) :
    Connection x where
  endpoint
    | .a => .new (core .a) (.controller ip edge) ip key (core .b).identity.certDer
    | .b => .new (core .b) .controlled peer key (core .a).identity.certDer
  wire _ := []
  broken := false

/-- `side` is now `p.1`, has left `p.2.1` of its input and written `p.2.2`. -/
def set (c : Connection x) (side : Side) (p : Endpoint x × List ControlMsg × List ControlMsg) : Connection x :=
  { c with
    endpoint := Function.update c.endpoint side p.1
    wire := Function.update (Function.update c.wire side.other p.2.1) side (c.wire side ++ p.2.2) }

/-- One step; `none` if the event cannot happen now. -/
def step (ar : Arith) (c : Connection x) (e : ConnectionEvent x) : Option (Connection x) :=
  match e with
  | .at side event => ((c.endpoint side).step ar c.broken (c.endpoint side.other).dropped (c.wire side.other)
      event).map (c.set side)
  | .breaks => some { c with broken := true }

/-- What a task does by itself. -/
def taskEvents : List (EndpointEvent x) := [.read, .eof, .push, .pull, .write, .drained]

/-- The tasks and the clipboard threads have come to rest. -/
def Settled (ar : Arith) (c : Connection x) : Prop :=
  ∀ side, (c.endpoint side).session.clip = false ∧ ∀ event ∈ taskEvents, (step ar c (.at side event)).isNone = true

instance (ar : Arith) (c : Connection x) : Decidable (c.Settled ar) := inferInstanceAs (Decidable (∀ _, _ ∧ _))

/-- No reader or writer task is left. -/
def NoTaskLeft (c : Connection x) : Prop :=
  ∀ side, ((c.endpoint side).reader = .unspawned ∨ (c.endpoint side).reader = .gone) ∧
    ((c.endpoint side).writer = .unspawned ∨ (c.endpoint side).writer = .gone)

instance (c : Connection x) : Decidable c.NoTaskLeft := inferInstanceAs (Decidable (∀ _, (_ ∨ _) ∧ (_ ∨ _)))

/-- The event is the step by which the session of `side` returns. -/
def Returns (ar : Arith) (side : Side) (c : Connection x) (event : EndpointEvent x) : Prop :=
  (c.endpoint side).returned = false ∧
    (step ar c (.at side event)).any (fun c' => (c'.endpoint side).returned) = true

/-- The session of `side` returns by its teardown, or while its reader does not wait for a message; or its reader
reads a message when the session has returned. -/
def Frees (ar : Arith) (side : Side) (c : Connection x) : ConnectionEvent x → Prop
  | .at side' event => side' = side ∧ ((event.isRead = true ∧ (c.endpoint side).returned = true) ∨
      (Returns ar side c event ∧ (event.isTeardown = true ∨ (c.endpoint side).reader ≠ .reading)))
  | .breaks => False

instance (ar : Arith) (side : Side) (c : Connection x) (e : ConnectionEvent x) : Decidable (Frees ar side c e) :=
  match e with
  | .at _ _ => inferInstanceAs (Decidable (_ ∧ (_ ∨ ((_ ∧ _) ∧ (_ ∨ _)))))
  | .breaks => inferInstanceAs (Decidable False)

end Connection

/-! ### One end -/

namespace Endpoint

variable {x : Crates} {ar : Arith} {broken eof : Bool} {a : Endpoint x} {input : List ControlMsg} {e : EndpointEvent x}
  {p : Endpoint x × List ControlMsg × List ControlMsg}

/-- What a step does to the session and to the tasks. -/
inductive Moves (ar : Arith) (broken eof : Bool) (a a' : Endpoint x) : EndpointEvent x → Prop
  | session (e : EndpointEvent x) (he : e.isRead = false ∧ e.isTeardown = false) (event : SessionEvent)
    (r : AppCore x × Session) (hr : a.session.step ar a.core event = some r)
    (hevent : event ≠ .setSlot ∧ event ≠ .teardown) (hphase : a'.session.phase = r.2.phase)
    (hhost : a'.session.host = r.2.host) (hreader : a'.reader = a.reader)
    (hwriter : a'.writer = a.writer ∨ (a.writer ≠ .unspawned ∧ a'.writer = .gone)) : Moves ar broken eof a a' e
  | spawned (r : AppCore x × Session) (hr : a.session.step ar a.core .setSlot = some r)
    (hphase : a'.session.phase = r.2.phase) (hhost : a'.session.host = r.2.host) (hreader : a'.reader = .reading)
    (hwriter : a'.writer = .waiting) : Moves ar broken eof a a' (.act .setSlot)
  | aborted (r : AppCore x × Session) (hr : a.session.step ar a.core .teardown = some r)
    (hphase : a'.session.phase = r.2.phase) (hhost : a'.session.host = r.2.host) (hreader : a'.reader = .gone)
    (hwriter : a'.writer = .gone) : Moves ar broken eof a a' (.act .teardown)
  | read (msg : ControlMsg) (ha : a.reader = .reading) (hreader : a'.reader = .sending msg)
    (hsession : a'.session = a.session) (hwriter : a'.writer = a.writer) : Moves ar broken eof a a' .read
  | ended (ha : a.reader = .reading) (hend : broken = true ∨ eof = true) (hreader : a'.reader = .gone)
    (hsession : a'.session = a.session) (hwriter : a'.writer = a.writer) : Moves ar broken eof a a' .eof
  | pushed (msg : ControlMsg) (ha : a.reader = .sending msg)
    (hreader : a'.reader = if a.returned then .gone else .reading) (hsession : a'.session = a.session)
    (hwriter : a'.writer = a.writer) : Moves ar broken eof a a' .push
  | writer (e : EndpointEvent x) (he : e.isRead = false ∧ e.isTeardown = false) (hreader : a'.reader = a.reader)
    (hphase : a'.session.phase = a.session.phase)
    (hhost : a'.session.host = a.session.host)
    (hwriter : a'.writer = a.writer ∨ (∃ msg, a.writer = .waiting ∨ a.writer = .writing msg) ∧ a'.writer ≠ .unspawned) :
    Moves ar broken eof a a' e

theorem stepSession_eq {event : SessionEvent} {q : Endpoint x × List ControlMsg}
    (h : a.stepSession ar event = some q) : ∃ r, a.session.step ar a.core event = some r ∧
      q.1.session.phase = r.2.phase ∧ q.1.session.host = r.2.host ∧ q.1.reader = a.reader ∧ q.1.writer = a.writer := by
  obtain ⟨r, hr, rfl⟩ := Option.map_eq_some_iff.mp h
  refine ⟨r, hr, ?_⟩
  split
  · rename_i hwriter
    exact ⟨rfl, rfl, rfl, hwriter ▸ rfl⟩
  · exact ⟨rfl, rfl, rfl, rfl⟩

theorem moves_of_stepSession {event : SessionEvent} {q : Endpoint x × List ControlMsg}
    (he : e.isRead = false ∧ e.isTeardown = false) (h : a.stepSession ar event = some q)
    (hevent : event ≠ .setSlot ∧ event ≠ .teardown) : Moves ar broken eof a q.1 e := by
  obtain ⟨r, hr, hphase, hhost, hreader, hwriter⟩ := stepSession_eq h
  exact .session e he event r hr hevent hphase hhost hreader (Or.inl hwriter)

theorem moves_of_step (h : a.step ar broken eof input e = some p) : Moves ar broken eof a p.1 e := by
  cases e with
  | act event =>
    simp only [step] at h
    split_ifs at h
    obtain ⟨q, hq, rfl⟩ := Option.map_eq_some_iff.mp h
    obtain ⟨r, hr, hphase, hhost, hreader, hwriter⟩ := stepSession_eq hq
    unfold afterAct
    split
    · exact .spawned r hr hphase hhost rfl rfl
    · exact .aborted r hr hphase hhost rfl rfl
    · rename_i hslot hteardown
      exact .session _ ⟨rfl, EndpointEvent.isTeardown_act hteardown⟩ event r hr ⟨hslot, hteardown⟩ hphase hhost hreader
        (Or.inl hwriter)
  | hello | helloFails error =>
    simp only [step] at h
    split at h
    · obtain ⟨q, hq, rfl⟩ := Option.map_eq_some_iff.mp h
      exact moves_of_stepSession ⟨rfl, rfl⟩ hq (by simp)
    · cases h
  | take =>
    simp only [step] at h
    split at h
    · cases h
    · obtain ⟨q, hq, rfl⟩ := Option.map_eq_some_iff.mp h
      obtain ⟨r, hr, hphase, hhost, hreader, hwriter⟩ := stepSession_eq hq
      exact .session _ ⟨rfl, rfl⟩ _ r hr (by simp) hphase hhost hreader (Or.inl hwriter)
  | noMore error =>
    simp only [step] at h
    split at h
    · obtain ⟨q, hq, rfl⟩ := Option.map_eq_some_iff.mp h
      exact moves_of_stepSession ⟨rfl, rfl⟩ hq (by simp)
    · cases h
  | read =>
    simp only [step] at h
    split at h
    · rename_i msg rest hreader
      cases h
      exact .read msg hreader rfl rfl rfl
    · cases h
  | eof =>
    simp only [step] at h
    split at h
    · rename_i hreader
      split_ifs at h with hend
      cases h
      rw [Bool.or_eq_true, Bool.and_eq_true] at hend
      exact .ended hreader (hend.imp_right And.left) rfl rfl rfl
    · cases h
  | push =>
    simp only [step] at h
    split at h
    · rename_i msg hreader
      split_ifs at h with hreturned hroom
      · cases h
        exact .pushed msg hreader (by rw [if_pos hreturned]) rfl rfl
      · cases h
        exact .pushed msg hreader (by rw [if_neg hreturned]) rfl rfl
    · cases h
  | pull =>
    simp only [step] at h
    split at h
    · rename_i msg rest hwriter hout
      cases h
      exact .writer _ ⟨rfl, rfl⟩ rfl rfl rfl (Or.inr ⟨⟨msg, Or.inl hwriter⟩, nofun⟩)
    · cases h
  | write =>
    simp only [step] at h
    split at h
    · rename_i msg hwriter
      cases h
      exact .writer _ ⟨rfl, rfl⟩ rfl rfl rfl (Or.inr ⟨⟨msg, Or.inr hwriter⟩, nofun⟩)
    · cases h
  | writeFails =>
    simp only [step] at h
    split at h
    · rename_i msg hwriter
      obtain ⟨r, hr, rfl⟩ := Option.map_eq_some_iff.mp h
      exact .session _ ⟨rfl, rfl⟩ .writerDied r hr (by simp) rfl rfl rfl (Or.inr ⟨by rw [hwriter]; nofun, rfl⟩)
    · cases h
  | drained =>
    simp only [step] at h
    split at h
    · rename_i hwriter hout
      split_ifs at h
      cases h
      exact .writer _ ⟨rfl, rfl⟩ rfl rfl rfl (Or.inr ⟨⟨.edgeLeave, Or.inl hwriter⟩, nofun⟩)
    · cases h
  | shared core =>
    cases h
    exact .writer _ ⟨rfl, rfl⟩ rfl rfl rfl (Or.inl rfl)

/-- What is known of an end throughout a run. -/
structure Inv (a : Endpoint x) : Prop where
  /-- The tasks are started together, -/
  tasks : a.reader = .unspawned ↔ a.writer = .unspawned
  /-- not before the slot is set. -/
  unnamed : a.session.phase.unnamed = true → a.reader = .unspawned
  /-- A session with an input loop has entered its main loop, and returns by its teardown. -/
  host : a.session.host.isSome = true → a.session.phase.started = true ∧ (a.returned = true → a.writer = .gone)

theorem host_isSome_of_step {s : Session} {core : AppCore x} {event : SessionEvent} {r : AppCore x × Session}
    (h : s.step ar core event = some r) (hhost : r.2.host.isSome = true) :
    s.host.isSome = true ∨ ∃ info, r.2.phase = .running info := by
  have hmove := Session.host_of_step h
  generalize r.2.phase = phase at hmove ⊢
  generalize r.2.host = host at hmove hhost
  cases hmove with
  | same => exact Or.inl hhost
  | started peerIp edge epoch desktop info hrole hs => exact Or.inr ⟨info, rfl⟩
  | kept _ t t' ht hinput => exact Or.inl (by simp [ht])
  | iterated _ t tick ht => exact Or.inl (by simp [ht])

theorem eq_teardown_of_moves {trusted : String → Bool} {phase phase' : Phase} {event : SessionEvent}
    (h : phase.Moves trusted event phase') (hstarted : phase.started = true) (hlive : phase.finished = false)
    (hover : phase'.finished = true) : event = .teardown := by
  cases h with
  | teardown => rfl
  | thread => exact absurd hover (by simp [hlive])
  | running => cases hover
  | leave => cases hover
  | _ => cases hstarted

theorem inv_session {a' : Endpoint x} {event : SessionEvent} {r : AppCore x × Session} (hinv : a.Inv)
    (hr : a.session.step ar a.core event = some r) (hevent : event ≠ .setSlot ∧ event ≠ .teardown)
    (hphase : a'.session.phase = r.2.phase) (hhost : a'.session.host = r.2.host) (hreader : a'.reader = a.reader)
    (hwriter : a'.writer = a.writer ∨ (a.writer ≠ .unspawned ∧ a'.writer = .gone)) : a'.Inv := by
  have hmoves := Session.step_moves hr
  refine ⟨?_, ?_, ?_⟩
  · rw [hreader, hinv.tasks]
    rcases hwriter with hsame | ⟨hspawned, hgone⟩
    · rw [hsame]
    · simp [hspawned, hgone]
  · intro hunnamed
    rw [hphase] at hunnamed
    exact hreader.trans (hinv.unnamed (Phase.unnamed_of_moves hmoves hunnamed).1)
  · intro hsome
    rw [hhost] at hsome
    rw [returned, hphase]
    rcases host_isSome_of_step hr hsome with hsome | ⟨info, hrunning⟩
    · obtain ⟨hstarted, hgone⟩ := hinv.host hsome
      refine ⟨Phase.started_of_moves hmoves hstarted, fun hover => ?_⟩
      cases hlive : a.session.phase.finished with
      | true =>
        rcases hwriter with hsame | ⟨-, hgone'⟩
        · exact hsame.trans (hgone hlive)
        · exact hgone'
      | false => exact absurd (eq_teardown_of_moves hmoves hstarted hlive hover) hevent.2
    · rw [hrunning]
      exact ⟨rfl, nofun⟩

theorem moves_inv {a' : Endpoint x} (hinv : a.Inv) (h : Moves ar broken eof a a' e) : a'.Inv := by
  cases h with
  | session e he event r hr hevent hphase hhost hreader hwriter =>
    exact inv_session hinv hr hevent hphase hhost hreader hwriter
  | spawned r hr hphase hhost hreader hwriter =>
    obtain ⟨info, hs, rfl⟩ := Session.step_setSlot hr
    refine ⟨by simp [hreader, hwriter], fun hunnamed => ?_, fun hsome => ?_⟩
    · rw [hphase] at hunnamed
      cases hunnamed
    · rw [hhost] at hsome
      have := (hinv.host hsome).1
      rw [hs] at this
      cases this
  | aborted r hr hphase hhost hreader hwriter =>
    refine ⟨by simp [hreader, hwriter], fun hunnamed => ?_, fun hsome => ?_⟩
    · cases Session.steps_of_step hr with
      | teardown info result hs =>
        rw [hphase] at hunnamed
        cases hunnamed
    · cases Session.steps_of_step hr with
      | teardown info result hs => exact ⟨hphase ▸ rfl, fun _ => hwriter⟩
  | read msg ha hreader hsession hwriter | ended ha hend hreader hsession hwriter =>
    have hspawned : a.writer ≠ .unspawned := fun h => by simp [hinv.tasks.mpr h] at ha
    refine ⟨by simp [hreader, hwriter, hspawned], fun hunnamed => ?_, ?_⟩
    · rw [hsession] at hunnamed
      simp [hinv.unnamed hunnamed] at ha
    · rw [returned, hsession, hwriter]
      exact hinv.host
  | pushed msg ha hreader hsession hwriter =>
    have hspawned : a.writer ≠ .unspawned := fun h => by simp [hinv.tasks.mpr h] at ha
    have hreader' : a'.reader ≠ .unspawned := by
      rw [hreader]
      split_ifs <;> nofun
    refine ⟨by simp [hreader', hwriter, hspawned], fun hunnamed => ?_, ?_⟩
    · rw [hsession] at hunnamed
      simp [hinv.unnamed hunnamed] at ha
    · rw [returned, hsession, hwriter]
      exact hinv.host
  | writer e he hreader hphase hhost hwriter =>
    refine ⟨?_, ?_, ?_⟩
    · rw [hreader, hinv.tasks]
      rcases hwriter with hsame | ⟨⟨msg, hlive⟩, hlive'⟩
      · rw [hsame]
      · rcases hlive with hlive | hlive <;> simp [hlive, hlive']
    · rw [hphase, hreader]
      exact hinv.unnamed
    · rw [returned, hphase, hhost]
      intro hsome
      obtain ⟨hstarted, hgone⟩ := hinv.host hsome
      refine ⟨hstarted, fun hover => ?_⟩
      rcases hwriter with hsame | ⟨⟨msg, hlive⟩, -⟩
      · exact hsame.trans (hgone hover)
      · rcases hlive with hlive | hlive <;> simp [hgone hover] at hlive

/-! ### The reader -/

theorem returned_of_moves {a' : Endpoint x} (h : Moves ar broken eof a a' e) (hreturned : a.returned = true) :
    a'.returned = true := by
  cases h with
  | session e he event r hr hevent hphase hhost hreader hwriter =>
    rw [returned, hphase]
    exact Phase.finished_of_moves (Session.step_moves hr) hreturned
  | spawned r hr hphase hhost hreader hwriter | aborted r hr hphase hhost hreader hwriter =>
    rw [returned, hphase]
    exact Phase.finished_of_moves (Session.step_moves hr) hreturned
  | read msg ha hreader hsession hwriter | ended ha hend hreader hsession hwriter
  | pushed msg ha hreader hsession hwriter => rwa [returned, hsession]
  | writer e he hreader hphase hhost hwriter => rwa [returned, hphase]

theorem reader_of_returned {a' : Endpoint x} (h : Moves ar broken eof a a' e) (hreturned : a.returned = true)
    (hreader : a.reader ≠ .reading) : a'.reader ≠ .reading := by
  cases h with
  | session e he event r hr hevent hphase hhost hsame hwriter => rwa [hsame]
  | spawned r hr hphase hhost hspawned hwriter =>
    obtain ⟨info, hs, -⟩ := Session.step_setSlot hr
    rw [returned, hs] at hreturned
    cases hreturned
  | aborted r hr hphase hhost hgone hwriter =>
    rw [hgone]
    nofun
  | read msg ha hmsg hsession hwriter =>
    rw [hmsg]
    nofun
  | ended ha hend hgone hsession hwriter => exact absurd ha hreader
  | pushed msg ha hpushed hsession hwriter =>
    rw [hpushed, if_pos hreturned]
    nofun
  | writer e he hsame hphase hhost hwriter => rwa [hsame]

theorem reader_of_read {a' : Endpoint x} (h : Moves ar broken eof a a' e) (hread : e.isRead = true) :
    a'.reader ≠ .reading := by
  cases h with
  | session e he event r hr hevent hphase hhost hsame hwriter => simp [he.1] at hread
  | read msg ha hmsg hsession hwriter =>
    rw [hmsg]
    nofun
  | writer e he hsame hphase hhost hwriter => simp [he.1] at hread
  | _ => cases hread

theorem reader_of_returns {a' : Endpoint x} (h : Moves ar broken eof a a' e) (hlive : a.returned = false)
    (hreturned : a'.returned = true) (hreader : e.isTeardown = true ∨ a.reader ≠ .reading) : a'.reader ≠ .reading := by
  cases h with
  | session e he event r hr hevent hphase hhost hsame hwriter =>
    rw [hsame]
    exact hreader.resolve_left (by simp [he.2])
  | spawned r hr hphase hhost hspawned hwriter =>
    obtain ⟨info, hs, rfl⟩ := Session.step_setSlot hr
    rw [returned, hphase] at hreturned
    cases hreturned
  | aborted r hr hphase hhost hgone hwriter =>
    rw [hgone]
    nofun
  | read msg ha hmsg hsession hwriter | ended ha hend hgone hsession hwriter | pushed msg ha hpushed hsession hwriter =>
    rw [returned, hsession] at hreturned
    exact absurd hreturned (Bool.eq_false_iff.mp hlive)
  | writer e he hsame hphase hhost hwriter =>
    rw [returned, hphase] at hreturned
    exact absurd hreturned (Bool.eq_false_iff.mp hlive)

theorem away_cases {a' : Endpoint x} (h : Moves ar broken eof a a' e) (hreturned : a'.returned = true)
    (hreader : a'.reader ≠ .reading) (hgone : a'.reader ≠ .gone) :
    (a.returned = true ∧ a.reader ≠ .reading ∧ a.reader ≠ .gone) ∨ (e.isRead = true ∧ a.returned = true) ∨
      (a.returned = false ∧ a.reader ≠ .reading) := by
  cases h with
  | session e he event r hr hevent hphase hhost hsame hwriter =>
    rw [hsame] at hreader hgone
    cases hlive : a.returned with
    | true => exact Or.inl ⟨rfl, hreader, hgone⟩
    | false => exact Or.inr (Or.inr ⟨rfl, hreader⟩)
  | spawned r hr hphase hhost hspawned hwriter => exact absurd hspawned hreader
  | aborted r hr hphase hhost hgone' hwriter => exact absurd hgone' hgone
  | read msg ha hmsg hsession hwriter =>
    rw [returned, hsession] at hreturned
    exact Or.inr (Or.inl ⟨rfl, hreturned⟩)
  | ended ha hend hgone' hsession hwriter => exact absurd hgone' hgone
  | pushed msg ha hpushed hsession hwriter =>
    rw [returned, hsession] at hreturned
    exact absurd (hpushed.trans (if_pos hreturned)) hgone
  | writer e he hsame hphase hhost hwriter =>
    rw [hsame] at hreader hgone
    rw [returned, hphase] at hreturned
    exact Or.inl ⟨hreturned, hreader, hgone⟩

theorem gone_cases {a' : Endpoint x} (h : Moves ar broken eof a a' e) (hgone : a'.reader = .gone) :
    a.reader = .gone ∨ (e.isTeardown = true ∧ a.returned = false ∧ a'.returned = true) ∨ broken = true ∨ eof = true ∨
      (a.returned = true ∧ ∃ msg, a.reader = .sending msg) := by
  cases h with
  | session e he event r hr hevent hphase hhost hsame hwriter => exact Or.inl (hsame ▸ hgone)
  | spawned r hr hphase hhost hspawned hwriter => cases hspawned.symm.trans hgone
  | aborted r hr hphase hhost hgone' hwriter =>
    cases Session.steps_of_step hr with
    | teardown info result hs =>
      refine Or.inr (Or.inl ⟨rfl, ?_, ?_⟩)
      · rw [returned, hs]
        rfl
      · rw [returned, hphase]
        rfl
  | read msg ha hmsg hsession hwriter => cases hmsg.symm.trans hgone
  | ended ha hend hgone' hsession hwriter =>
    rcases hend with hend | hend
    · exact Or.inr (Or.inr (Or.inl hend))
    · exact Or.inr (Or.inr (Or.inr (Or.inl hend)))
  | pushed msg ha hpushed hsession hwriter =>
    cases hreturned : a.returned with
    | true => exact Or.inr (Or.inr (Or.inr (Or.inr ⟨rfl, msg, ha⟩)))
    | false =>
      rw [hreturned, if_neg Bool.false_ne_true] at hpushed
      cases hpushed.symm.trans hgone
  | writer e he hsame hphase hhost hwriter => exact Or.inl (hsame ▸ hgone)

end Endpoint

namespace Connection

variable {x : Crates} {ar : Arith} {c₀ c c' : Connection x} {es : List (ConnectionEvent x)} {e : ConnectionEvent x}
  {side : Side}

/-- What is known after the events `es`. -/
structure Known (ar : Arith) (c₀ : Connection x) (es : List (ConnectionEvent x)) (c : Connection x) : Prop where
  inv : ∀ side, (c.endpoint side).Inv
  freed : ∀ side, Seen (step ar) (Frees ar side) c₀ es →
    (c.endpoint side).returned = true ∧ (c.endpoint side).reader ≠ .reading
  away : ∀ side, (c.endpoint side).returned = true → (c.endpoint side).reader ≠ .reading →
    (c.endpoint side).reader ≠ .gone → Seen (step ar) (Frees ar side) c₀ es
  /-- A reader is gone for a reason. -/
  gone : ∀ side, (c.endpoint side).reader = .gone →
    c.broken = true ∨ ∃ side', Seen (step ar) (Frees ar side') c₀ es

theorem reader_of_dropped {a : Endpoint x} (h : a.dropped = true) :
    (a.returned = true ∧ a.reader = .unspawned) ∨ a.reader = .gone := by
  unfold Endpoint.dropped at h
  obtain ⟨hreader, -⟩ := Bool.and_eq_true_iff.mp h
  split at hreader
  · rename_i heq
    exact Or.inl ⟨hreader, heq⟩
  · rename_i heq
    exact Or.inr heq
  · cases hreader

theorem known_gone_of_dropped (h : Known ar c₀ es c) (hdropped : (c.endpoint side).dropped = true) :
    c.broken = true ∨ ∃ side', Seen (step ar) (Frees ar side') c₀ es := by
  rcases reader_of_dropped hdropped with ⟨hreturned, hreader⟩ | hreader
  · exact Or.inr ⟨side, h.away side hreturned (by rw [hreader]; nofun) (by rw [hreader]; nofun)⟩
  · exact h.gone side hreader

theorem known_step (hrun : run (step ar) c₀ es = some c) (h : Known ar c₀ es c) (hstep : step ar c e = some c') :
    Known ar c₀ (es ++ [e]) c' := by
  have hseen : ∀ side, Seen (step ar) (Frees ar side) c₀ (es ++ [e]) ↔
      Seen (step ar) (Frees ar side) c₀ es ∨ Frees ar side c e := fun side => seen_snoc hrun
  cases e with
  | breaks =>
    cases hstep
    refine ⟨h.inv, fun side hfrees => ?_, fun side h₁ h₂ h₃ => ?_, fun _ _ => Or.inl rfl⟩
    · exact h.freed side (((hseen side).mp hfrees).resolve_right id)
    · exact (hseen side).mpr (Or.inl (h.away side h₁ h₂ h₃))
  | «at» side event =>
    obtain ⟨p, hp, rfl⟩ := Option.map_eq_some_iff.mp hstep
    have hmoves := Endpoint.moves_of_step hp
    have hself : (c.set side p).endpoint side = p.1 := Function.update_self ..
    have hother : ∀ side', side' ≠ side → (c.set side p).endpoint side' = c.endpoint side' := fun side' hne =>
      Function.update_of_ne hne ..
    have hreturns : (c.endpoint side).returned = false → p.1.returned = true → Returns ar side c event :=
      fun hlive hover => ⟨hlive, by rw [hstep, Option.any_some, hself, hover]⟩
    have hreturned : Returns ar side c event → p.1.returned = true := by
      rintro ⟨-, hover⟩
      rwa [hstep, Option.any_some, hself] at hover
    -- what was known to free a reader before is known now
    have hlift : (c.broken = true ∨ ∃ side', Seen (step ar) (Frees ar side') c₀ es) →
        c.broken = true ∨ ∃ side', Seen (step ar) (Frees ar side') c₀ (es ++ [.at side event]) :=
      Or.imp_right fun ⟨side', hfrees⟩ => ⟨side', (hseen side').mpr (Or.inl hfrees)⟩
    refine ⟨fun side' => ?_, fun side' hfrees => ?_, fun side' h₁ h₂ h₃ => ?_, fun side' hgone => ?_⟩
    all_goals by_cases hside : side' = side
    · subst hside
      exact hself ▸ Endpoint.moves_inv (h.inv side') hmoves
    · exact hother side' hside ▸ h.inv side'
    · subst hside
      rw [hself]
      rcases (hseen side').mp hfrees with hfrees | ⟨-, ⟨hread, hover⟩ | ⟨hreturns, hreader⟩⟩
      · obtain ⟨hover, hreader⟩ := h.freed side' hfrees
        exact ⟨Endpoint.returned_of_moves hmoves hover, Endpoint.reader_of_returned hmoves hover hreader⟩
      · exact ⟨Endpoint.returned_of_moves hmoves hover, Endpoint.reader_of_read hmoves hread⟩
      · exact ⟨hreturned hreturns, Endpoint.reader_of_returns hmoves hreturns.1 (hreturned hreturns) hreader⟩
    · rw [hother side' hside]
      exact h.freed side' (((hseen side').mp hfrees).resolve_right fun hfrees => hside hfrees.1.symm)
    · subst hside
      rw [hself] at h₁ h₂ h₃
      rcases Endpoint.away_cases hmoves h₁ h₂ h₃ with ⟨hover, h₂, h₃⟩ | hread | ⟨hlive, hreader⟩
      · exact (hseen side').mpr (Or.inl (h.away side' hover h₂ h₃))
      · exact (hseen side').mpr (Or.inr ⟨rfl, Or.inl hread⟩)
      · exact (hseen side').mpr (Or.inr ⟨rfl, Or.inr ⟨hreturns hlive h₁, Or.inr hreader⟩⟩)
    · rw [hother side' hside] at h₁ h₂ h₃
      exact (hseen side').mpr (Or.inl (h.away side' h₁ h₂ h₃))
    · subst hside
      rw [hself] at hgone
      rcases Endpoint.gone_cases hmoves hgone with
        hgone | ⟨hteardown, hlive, hover⟩ | hbroken | hdropped | ⟨hover, msg, hmsg⟩
      · exact hlift (h.gone side' hgone)
      · exact Or.inr ⟨side', (hseen side').mpr (Or.inr ⟨rfl, Or.inr ⟨hreturns hlive hover, Or.inl hteardown⟩⟩)⟩
      · exact Or.inl hbroken
      · exact hlift (known_gone_of_dropped h hdropped)
      · exact hlift (Or.inr ⟨side', h.away side' hover (by rw [hmsg]; nofun) (by rw [hmsg]; nofun)⟩)
    · rw [hother side' hside] at hgone
      exact hlift (h.gone side' hgone)

theorem known_run {core : Side → AppCore x} {ip peer : IpAddr} {edge : ScreenEdge} {key : SessionKey}
    (hrun : run (step ar) (initial core ip edge peer key) es = some c) :
    Known ar (initial core ip edge peer key) es c := by
  refine run_induction ⟨fun side => ?_, fun side hfrees => ?_, fun side hreturned => ?_, fun side hgone => ?_⟩
    (fun es c e c' hrun h hstep => known_step hrun h hstep) es c hrun
  · cases side <;> exact ⟨iff_of_true rfl rfl, fun _ => rfl, nofun⟩
  · exact (not_seen_nil _ _ hfrees).elim
  · cases side <;> cases hreturned
  · cases side <;> cases hgone

/-! ### At rest -/

theorem reader_of_settled (hsettled : c.Settled ar) (hreturned : (c.endpoint side).returned = true)
    (hreader : (c.endpoint side).reader ≠ .reading) :
    (c.endpoint side).reader = .unspawned ∨ (c.endpoint side).reader = .gone := by
  cases hstage : (c.endpoint side).reader with
  | unspawned => exact Or.inl rfl
  | reading => exact absurd hstage hreader
  | sending msg =>
    -- the reader finds that its session has returned
    have hrest := (hsettled side).2 .push (by simp [taskEvents])
    simp [step, Endpoint.step, hstage, hreturned] at hrest
  | gone => exact Or.inr rfl

theorem writer_of_settled (hsettled : c.Settled ar) (hinv : (c.endpoint side).Inv)
    (hreturned : (c.endpoint side).returned = true) :
    (c.endpoint side).writer = .unspawned ∨ (c.endpoint side).writer = .gone := by
  cases hstage : (c.endpoint side).writer with
  | unspawned => exact Or.inl rfl
  | waiting =>
    have hpull := (hsettled side).2 .pull (by simp [taskEvents])
    have hdrained := (hsettled side).2 .drained (by simp [taskEvents])
    have hhost : (c.endpoint side).session.host = none := by
      by_contra hsome
      have hgone := (hinv.host (Option.isSome_iff_ne_none.mpr hsome)).2 hreturned
      cases hstage.symm.trans hgone
    have hsenders : (c.endpoint side).sendersGone = true := by
      simp [Endpoint.sendersGone, hreturned, (hsettled side).1, hhost]
    cases hout : (c.endpoint side).session.out with
    | nil => simp [step, Endpoint.step, hstage, hout, hsenders] at hdrained
    | cons msg rest => simp [step, Endpoint.step, hstage, hout] at hpull
  | writing msg =>
    have hrest := (hsettled side).2 .write (by simp [taskEvents])
    simp [step, Endpoint.step, hstage] at hrest
  | gone => exact Or.inr rfl

theorem reading_of_settled (hsettled : c.Settled ar) (hreader : (c.endpoint side).reader = .reading) :
    c.broken = false ∧ (c.endpoint side.other).dropped = false := by
  have hread := (hsettled side).2 .read (by simp [taskEvents])
  have heof := (hsettled side).2 .eof (by simp [taskEvents])
  cases hwire : c.wire side.other with
  | nil => simpa [step, Endpoint.step, hreader, hwire] using heof
  | cons msg rest => simp [step, Endpoint.step, hreader, hwire] at hread

theorem noTaskLeft_iff {core : Side → AppCore x} {ip peer : IpAddr} {edge : ScreenEdge} {key : SessionKey}
    (hrun : run (step ar) (initial core ip edge peer key) es = some c)
    (hreturned : ∀ side, (c.endpoint side).returned = true) (hsettled : c.Settled ar) :
    c.NoTaskLeft ↔ c.broken = true ∨ ∃ side, Seen (step ar) (Frees ar side) (initial core ip edge peer key) es := by
  have hknown := known_run hrun
  constructor
  · intro hleft
    rcases (hleft .a).1 with hreader | hreader
    · exact Or.inr ⟨.a, hknown.away .a (hreturned .a) (by rw [hreader]; nofun) (by rw [hreader]; nofun)⟩
    · exact hknown.gone .a hreader
  · rintro hfreed side
    refine ⟨reader_of_settled hsettled (hreturned side) fun hreader => ?_,
      writer_of_settled hsettled (hknown.inv side) (hreturned side)⟩
    obtain ⟨hwhole, hopen⟩ := reading_of_settled hsettled hreader
    obtain ⟨side', hfrees⟩ := hfreed.resolve_left (Bool.eq_false_iff.mp hwhole)
    have hreader' := (hknown.freed side' hfrees).2
    rcases Side.eq_or_eq_other side side' with rfl | rfl
    · exact hreader' hreader
    · -- the other end has dropped both halves of its stream
      have hdropped : (c.endpoint side.other).dropped = true := by
        rcases reader_of_settled hsettled (hreturned side.other) hreader' with hr | hr <;>
          rcases writer_of_settled hsettled (hknown.inv side.other) (hreturned side.other) with hw | hw <;>
            simp [Endpoint.dropped, hr, hw, hreturned side.other]
      exact absurd hdropped (Bool.eq_false_iff.mp hopen)

end Connection

/-! ### The registry -/

namespace Node

variable {x : Crates} {ar : Arith}

theorem step_returned {n n' : Node x} {e : NodeEvent} (hstep : step ar n e = some n') {i : ℕ}
    (h : ∃ s, n.session? i = some s ∧ s.phase.finished = true) :
    ∃ s, n'.session? i = some s ∧ s.phase.finished = true := by
  obtain ⟨s, hs, hover⟩ := h
  cases hacts : n.acts e with
  | none =>
    rcases session?_of_idle hstep hacts i with hsame | ⟨hnone, -⟩
    · exact ⟨s, hsame.trans hs, hover⟩
    · cases hs.symm.trans hnone
  | some act =>
    obtain ⟨k, event⟩ := act
    obtain ⟨t, p, ht, hp, hsessions, -⟩ := step_of_acts hstep hacts
    rw [hsessions i]
    split_ifs with hik
    · subst hik
      obtain rfl : s = t := Option.some.inj (hs.symm.trans ht)
      exact ⟨p.2, rfl, Phase.finished_of_moves (Session.step_moves hp) hover⟩
    · exact ⟨s, hs, hover⟩

theorem run_returned {n n' : Node x} {es : List NodeEvent} (hrun : run (step ar) n es = some n') {i : ℕ}
    (h : ∃ s, n.session? i = some s ∧ s.phase.finished = true) :
    ∃ s, n'.session? i = some s ∧ s.phase.finished = true :=
  run_invariant (P := fun n : Node x => ∃ s, n.session? i = some s ∧ s.phase.finished = true) h
    (fun _ _ _ h hstep => step_returned hstep h) es n' hrun

end Node

namespace Connection

variable {x : Crates} {ar : Arith}

/-- In every run of the process, the handle of a session that has returned stays in the registry for ever. In every run
of a connection: once both sessions have returned and all is at rest, no task is left if and only if the connection is
broken, or one of the sessions returned by its teardown or while its reader did not wait for a message, or one of the
readers has read a message since. -/
theorem session_exit_kept :
    (∀ (core : AppCore x) (es fs : List NodeEvent) (n n' : Node x), run (Node.step ar) (.initial core) es = some n →
        run (Node.step ar) n fs = some n' → ∀ i, (∃ s, n.session? i = some s ∧ s.phase.finished = true) →
        ∃ s, n'.session? i = some s ∧ s.phase.finished = true) ∧
      ∀ (core : Side → AppCore x) (ip peer : IpAddr) (edge : ScreenEdge) (key : SessionKey)
        (es : List (ConnectionEvent x)) (c : Connection x),
        run (step ar) (initial core ip edge peer key) es = some c → (∀ side, (c.endpoint side).returned = true) →
        c.Settled ar →
        (c.NoTaskLeft ↔
          c.broken = true ∨ ∃ side, Seen (step ar) (Frees ar side) (initial core ip edge peer key) es) :=
  ⟨fun _ _ _ _ _ _ hrun _ h => Node.run_returned hrun h,
    fun _ _ _ _ _ _ _ hrun hreturned hsettled => noTaskLeft_iff hrun hreturned hsettled⟩

/-! ### A pairing that is cancelled -/

/-- Alice has connected to Bob, and both sessions show their prompts. -/
def prompted : List (ConnectionEvent demoCrates) :=
  [.at .a (.act .sayHello), .at .b (.act .sayHello), .at .a .hello, .at .b .hello, .at .a (.act .setSlot),
    .at .b (.act .setSlot), .at .a (.act .checkTrust), .at .b (.act .checkTrust), .at .a .pull, .at .a .write,
    .at .b .pull, .at .b .write, .at .a .read, .at .a .push, .at .a .take, .at .b .read, .at .b .push, .at .b .take]

/-- Alice cancels. -/
def cancelled : List (ConnectionEvent demoCrates) :=
  [.at .a (.act (.cmd .cancel 0)), .at .a .pull, .at .a .write, .at .a .drained, .at .b .read, .at .b .push, .at .b .take,
    .at .b .drained]

/-- A connection that fails in the Hello exchange, and then a command that is routed to every session. -/
def refused : List NodeEvent :=
  [.accept (.v4 0x0A000003) demoKey certAlice, .session 0 (.closed (.io "connection reset")),
    .ui (.disconnect ""), .receive, .visit, .visit, .send, .send]

/-- The handle of a session that has returned is still there after a route, and both readers of a cancelled pairing wait
for each other. -/
theorem cancelled_pairing_leaks :
    (∃ n, run (Node.step .exact) (.initial (demoCore certBob "bob" [])) refused = some n ∧ n.commands = [] ∧
        n.dispatch = .idle ∧ n.handles.length = 1 ∧ ((n.session? 0).any fun s => s.phase.finished) = true) ∧
      ∃ c, run (step .exact) (initial strangers (.v4 0x0A000002) .right (.v4 0x0A000003) demoKey)
          (prompted ++ cancelled) = some c ∧
        (∀ side, (c.endpoint side).returned = true) ∧ c.Settled .exact ∧ ¬ c.NoTaskLeft :=
  ⟨exists_run (by decide +kernel), exists_run (by decide +kernel)⟩

/-- Bob's confirmation reaches Alice's reader when Alice has cancelled. -/
def confirmedMeanwhile : List (ConnectionEvent demoCrates) :=
  [.at .a (.act (.cmd .cancel 0)), .at .b (.act (.cmd .confirm 0)), .at .a .pull, .at .a .write, .at .a .drained,
    .at .b .pull, .at .b .write, .at .a .read, .at .a .push, .at .b .read, .at .b .push, .at .b .take, .at .b .drained,
    .at .b .eof]

theorem session_exit_kept_confirmedMeanwhile :
    (∃ n n', run (Node.step .exact) (.initial (demoCore certBob "bob" [])) (refused.take 2) = some n ∧
        run (Node.step .exact) n (refused.drop 2) = some n' ∧
        ∃ s, n'.session? 0 = some s ∧ s.phase.finished = true) ∧
      ∃ c, run (step .exact) (initial strangers (.v4 0x0A000002) .right (.v4 0x0A000003) demoKey)
          (prompted ++ confirmedMeanwhile) = some c ∧
        (∀ side, (c.endpoint side).returned = true) ∧ c.Settled .exact ∧ c.NoTaskLeft := by
  constructor
  · exact ⟨_, _, rfl, rfl, (@session_exit_kept demoCrates .exact).1 (demoCore certBob "bob" []) (refused.take 2)
      (refused.drop 2) _ _ rfl rfl 0 ⟨_, rfl, rfl⟩⟩
  · obtain ⟨c, hrun, hreturned, hsettled⟩ : ∃ c, run (step .exact)
        (initial strangers (.v4 0x0A000002) .right (.v4 0x0A000003) demoKey) (prompted ++ confirmedMeanwhile) = some c ∧
          (∀ side, (c.endpoint side).returned = true) ∧ c.Settled .exact := exists_run (by decide +kernel)
    have hfrees : Seen (step .exact) (Frees .exact .a)
        (initial strangers (.v4 0x0A000002) .right (.v4 0x0A000003) demoKey) (prompted ++ confirmedMeanwhile) := by
      decide +kernel
    exact ⟨c, hrun, hreturned, hsettled, (session_exit_kept.2 strangers _ _ _ _ _ c hrun hreturned hsettled).mpr
      (Or.inr ⟨.a, hfrees⟩)⟩

end Connection

end ScreenLink

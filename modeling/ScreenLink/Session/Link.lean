import ScreenLink.Lib.Machine
import ScreenLink.Session.Moves

/-!
# The two ends of a connection

`Link.step` runs the sessions at both ends of one TLS connection. What one end sends the other reads in order; an end
sees the end of the stream when the other session is over, after the messages that were still written, or at any time
once the connection is broken.
-/

namespace ScreenLink

structure Link (x : Crates) where
  core : Side → AppCore x
  session : Side → Session
  broken : Bool

/-- The event is about the stream, or about the command queue's end, which a session in use never sees. -/
def SessionEvent.ofStream : SessionEvent → Bool
  | .recv _ | .closed _ | .writerDied | .cmdClosed => true
  | _ => false

inductive LinkEvent
  /-- A step that needs nothing from the stream. -/
  | act (side : Side) (event : SessionEvent)
  /-- `side` reads the next message. -/
  | deliver (side : Side)
  /-- `side` sees the end of the stream. -/
  | closed (side : Side) (error : Error)
  /-- A write of `side` fails. -/
  | writerDied (side : Side)
  | breaks
  deriving DecidableEq

namespace Link

variable {x : Crates} {ar : Arith}

/-- The two ends as the TLS handshake leaves them: one key, and each other's certificate. -/
def initial (core : Side → AppCore x) (ip : IpAddr) (edge : ScreenEdge) (peer : IpAddr) (key : SessionKey) :
    Link x where
  core := core
  session
    | .a => .new (.controller ip edge) ip key (core .b).identity.certDer
    | .b => .new .controlled peer key (core .a).identity.certDer
  broken := false

/-- The result of a step of `side`. -/
def set (l : Link x) (side : Side) (p : AppCore x × Session) : Link x :=
  { l with core := Function.update l.core side p.1, session := Function.update l.session side p.2 }

/-- What `side` has sent and the other has not read. -/
def setOut (l : Link x) (side : Side) (out : List ControlMsg) : Link x :=
  { l with session := Function.update l.session side { l.session side with out := out } }

/-- The stream towards the other end has ended. -/
def ended (l : Link x) (side : Side) : Bool :=
  (l.session side).phase.finished && ((l.session side).out.isEmpty || !(l.session side).writer)

def stepSide (ar : Arith) (l : Link x) (side : Side) (event : SessionEvent) : Option (Link x) :=
  ((l.session side).step ar (l.core side) event).map (l.set side)

/-- One step of the two ends; `none` if the event cannot happen now. -/
def step (ar : Arith) (l : Link x) (e : LinkEvent) : Option (Link x) :=
  match e with
  | .act side event => if event.ofStream then none else l.stepSide ar side event
  | .deliver side => match (l.session side.other).out with
    | [] => none
    | msg :: rest => (l.setOut side.other rest).stepSide ar side (.recv msg)
  | .closed side error => if l.broken || l.ended side.other then l.stepSide ar side (.closed error) else none
  | .writerDied side =>
    if l.broken || (l.session side.other).phase.finished then l.stepSide ar side .writerDied else none
  | .breaks => some { l with broken := true }

/-- The side and its event, if the event is a step of a session. -/
def acts (l : Link x) : LinkEvent → Option (Side × SessionEvent)
  | .act side event => some (side, event)
  | .deliver side => (l.session side.other).out.head?.map fun msg => (side, .recv msg)
  | .closed side error => some (side, .closed error)
  | .writerDied side => some (side, .writerDied)
  | .breaks => none

variable {l l' : Link x} {e : LinkEvent} {side : Side} {event : SessionEvent}

/-- The queue of the other end after the event. -/
def outAfter (event : SessionEvent) (out : List ControlMsg) : List ControlMsg :=
  match event with
  | .recv _ => out.tail
  | _ => out

theorem step_of_acts (h : step ar l e = some l') (hacts : l.acts e = some (side, event)) :
    ∃ p, (l.session side).step ar (l.core side) event = some p ∧ l'.core side = p.1 ∧ l'.session side = p.2 ∧
      l'.core side.other = l.core side.other ∧
      l'.session side.other = { l.session side.other with out := outAfter event (l.session side.other).out } ∧
      l'.broken = l.broken := by
  have hset : ∀ (m : Link x) (p : AppCore x × Session), (m.set side p).core side = p.1 ∧
      (m.set side p).session side = p.2 ∧ (m.set side p).core side.other = m.core side.other ∧
      (m.set side p).session side.other = m.session side.other := by
    intro m p
    simp [set]
  cases e with
  | act side' event' =>
    cases hacts
    simp only [step] at h
    split_ifs at h with hstream
    obtain ⟨p, hp, rfl⟩ := Option.map_eq_some_iff.mp h
    obtain ⟨hcore, hsession, hcore', hsession'⟩ := hset l p
    refine ⟨p, hp, hcore, hsession, hcore', hsession'.trans ?_, rfl⟩
    cases event <;> first | rfl | cases hstream rfl
  | deliver side' =>
    simp only [acts, Option.map_eq_some_iff, Prod.mk.injEq] at hacts
    obtain ⟨msg, hhead, rfl, rfl⟩ := hacts
    simp only [step] at h
    split at h
    case h_1 => cases h
    case h_2 msg' rest hout =>
      rw [hout, List.head?_cons, Option.some.injEq] at hhead
      subst hhead
      obtain ⟨p, hp, rfl⟩ := Option.map_eq_some_iff.mp h
      obtain ⟨hcore, hsession, hcore', hsession'⟩ := hset (l.setOut side'.other rest) p
      refine ⟨p, ?_, hcore, hsession, hcore', hsession'.trans ?_, rfl⟩
      · simpa [setOut, Function.update_of_ne (Side.other_ne side').symm] using hp
      · simp [setOut, outAfter, hout]
  | closed side' error =>
    cases hacts
    simp only [step] at h
    split_ifs at h
    obtain ⟨p, hp, rfl⟩ := Option.map_eq_some_iff.mp h
    obtain ⟨hcore, hsession, hcore', hsession'⟩ := hset l p
    exact ⟨p, hp, hcore, hsession, hcore', hsession', rfl⟩
  | writerDied side' =>
    cases hacts
    simp only [step] at h
    split_ifs at h
    obtain ⟨p, hp, rfl⟩ := Option.map_eq_some_iff.mp h
    obtain ⟨hcore, hsession, hcore', hsession'⟩ := hset l p
    exact ⟨p, hp, hcore, hsession, hcore', hsession', rfl⟩
  | breaks => cases hacts

theorem stream_of_acts (h : step ar l e = some l') (hacts : l.acts e = some (side, event))
    (hstream : event.ofStream = true) :
    (∃ msg, event = .recv msg ∧ (l.session side.other).out.head? = some msg) ∨
      (∃ err, event = .closed err ∧ (l.broken = true ∨ l.ended side.other = true)) ∨
      (event = .writerDied ∧ (l.broken = true ∨ (l.session side.other).phase.finished = true)) := by
  cases e with
  | act side' event' =>
    cases hacts
    simp [step, hstream] at h
  | deliver side' =>
    simp only [acts, Option.map_eq_some_iff, Prod.mk.injEq] at hacts
    obtain ⟨msg, hhead, rfl, rfl⟩ := hacts
    exact Or.inl ⟨msg, rfl, hhead⟩
  | closed side' error =>
    cases hacts
    simp only [step] at h
    split_ifs at h with hopen
    exact Or.inr (Or.inl ⟨error, rfl, Bool.or_eq_true_iff.mp hopen⟩)
  | writerDied side' =>
    cases hacts
    simp only [step] at h
    split_ifs at h with hopen
    exact Or.inr (Or.inr ⟨rfl, Bool.or_eq_true_iff.mp hopen⟩)
  | breaks => cases hacts

theorem queue_of_recv {msg : ControlMsg} (h : step ar l e = some l') (hacts : l.acts e = some (side, .recv msg)) :
    ∃ rest, (l.session side.other).out = msg :: rest := by
  rcases stream_of_acts h hacts rfl with ⟨msg', heq, hhead⟩ | ⟨err, heq, -⟩ | ⟨heq, -⟩
  · cases heq
    exact ⟨_, (List.cons_head?_tail hhead).symm⟩
  · cases heq
  · cases heq

theorem eq_act_of_acts (hacts : l.acts e = some (side, event))
    (hstream : event.ofStream = false) : e = .act side event := by
  cases e with
  | act side' event' =>
    cases hacts
    rfl
  | deliver side' =>
    simp only [acts, Option.map_eq_some_iff, Prod.mk.injEq] at hacts
    obtain ⟨msg, -, -, rfl⟩ := hacts
    cases hstream
  | closed side' error =>
    cases hacts
    cases hstream
  | writerDied side' =>
    cases hacts
    cases hstream
  | breaks => cases hacts

theorem eq_breaks_of_idle (h : step ar l e = some l') (hacts : l.acts e = none) :
    e = .breaks ∧ l' = { l with broken := true } := by
  cases e with
  | deliver side' =>
    simp only [acts, Option.map_eq_none_iff, List.head?_eq_none_iff] at hacts
    simp [step, hacts] at h
  | breaks => exact ⟨rfl, (Option.some.inj h).symm⟩
  | _ => cases hacts

end Link

end ScreenLink

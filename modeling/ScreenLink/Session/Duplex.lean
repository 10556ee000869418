import ScreenLink.Session.Dispatch
import ScreenLink.Session.Whole

/-!
# The queues of a connection

The two ends of a connection with the bounded queues between them: what a task sends waits for room in the channel of 256
to the writer task, which writes onto the wire, which takes a bounded number of messages; the reader task of the other
end reads them and waits for room in its channel of 256. `Duplex.step` is `Link.step` with these queues: a task takes a
step only when it does not wait for room, and the main task handles only what the reader has put into its channel.
-/

namespace ScreenLink

open Machine BoundedChannel

/-- Where the messages are that one end has sent and the other has not handled, in the order in which they move on. -/
structure Lane where
  /-- In the channel to the writer, with the sends that wait for room: the task of each. -/
  line : List OutTask
  /-- With the writer, or on the wire. -/
  wire : ℕ
  /-- In the channel from the reader, or with the reader. -/
  inn : ℕ
  deriving DecidableEq

namespace Lane

/-- The lane of an end after its event, at which it sends `n` messages. -/
def sent (l : Lane) (event : SessionEvent) (n : ℕ) : Lane :=
  match event with
  | .writerDied => ⟨[], 0, 0⟩
  | event => { l with line := l.line ++ List.replicate n (event.task.getD .main) }

/-- The lane towards an end after its event. -/
def handled (l : Lane) (event : SessionEvent) : Lane :=
  match event with
  | .recv _ => { l with inn := l.inn - 1 }
  | _ => l

theorem sent_of_ne {event : SessionEvent} (h : event ≠ .writerDied) (l : Lane) (n : ℕ) :
    l.sent event n = { l with line := l.line ++ List.replicate n (event.task.getD .main) } := by
  cases event <;> first | rfl | exact absurd rfl h

def write (l : Lane) : Lane := { l with line := l.line.tail, wire := l.wire + 1 }

def read (l : Lane) : Lane := { l with wire := l.wire - 1, inn := l.inn + 1 }

end Lane

/-- The two ends, and for each the lane of what it sends. -/
structure Duplex (x : Crates) where
  link : Link x
  lane : Side → Lane

inductive DuplexEvent
  | link (event : LinkEvent)
  /-- The writer of `side` takes a message. -/
  | write (side : Side)
  /-- The reader of `side` takes a message. -/
  | read (side : Side)
  deriving DecidableEq

/-- What is sent goes on by itself. -/
def DuplexEvent.flows : DuplexEvent → Prop
  | .link (.deliver _) | .write _ | .read _ => True
  | .link _ => False

namespace Duplex

variable {x : Crates}

def initial (core : Side → AppCore x) (ip : IpAddr) (edge : ScreenEdge) (peer : IpAddr) (key : SessionKey) : Duplex x :=
  ⟨.initial core ip edge peer key, fun _ => ⟨[], 0, 0⟩⟩

def session (d : Duplex x) (side : Side) : Session := d.link.session side

/-- A change of one lane. -/
def onLane (d : Duplex x) (side : Side) (f : Lane → Lane) : Duplex x :=
  { d with lane := Function.update d.lane side (f (d.lane side)) }

/-- How many of the messages in line are in the channel to the writer; before there is a writer, `write_msg` waits for
each. -/
def room (d : Duplex x) (side : Side) : ℕ := if (d.session side).slot.isSome then OUTBOX else 0

/-- How many messages the reader takes from the wire; before there is a reader, `read_msg` takes the Hello. -/
def inbox (d : Duplex x) (side : Side) : ℕ := if (d.session side).slot.isSome then INBOX + 1 else 1

/-- The main task waits for room. -/
def MainWaits (d : Duplex x) (side : Side) : Prop := Waits (d.room side) (d.lane side).line .main

instance (d : Duplex x) (side : Side) : Decidable (d.MainWaits side) :=
  inferInstanceAs (Decidable (Waits _ _ _))

/-- The task of the event does not wait for room, and what it handles is there. -/
def ready (d : Duplex x) (side : Side) (event : SessionEvent) : Bool :=
  (match event.task with
    | some task => !decide (Waits (d.room side) (d.lane side).line task)
    | none => true) &&
  match event with
  | .recv _ => decide (0 < (d.lane side.other).inn)
  | _ => true

/-- The two ends after the event of `side`. -/
def afterAct (d : Duplex x) (side : Side) (event : SessionEvent) (link : Link x) : Duplex x :=
  let n := (link.session side).out.length - (d.session side).out.length
  { link := link
    lane := Function.update (fun _ => (d.lane side.other).handled event) side ((d.lane side).sent event n) }

def stepLink (ar : Arith) (d : Duplex x) (e : LinkEvent) : Option (Duplex x) :=
  match d.link.acts e with
  | some (side, event) =>
    if d.ready side event then (d.link.step ar e).map (d.afterAct side event) else none
  | none => (d.link.step ar e).map fun link => { d with link := link }

/-- One step, over a connection that takes `capacity` messages each way; `none` if the event cannot happen now. -/
def step (ar : Arith) (capacity : ℕ) (d : Duplex x) (e : DuplexEvent) : Option (Duplex x) :=
  match e with
  | .link e => d.stepLink ar e
  | .write side =>
    if (d.session side).writer ∧ (d.lane side).line ≠ [] ∧ (d.lane side).wire < capacity then
      some (d.onLane side Lane.write)
    else none
  | .read side =>
    if (d.session side).phase.finished = false ∧ 0 < (d.lane side.other).wire ∧
        (d.lane side.other).inn < d.inbox side then
      some (d.onLane side.other Lane.read)
    else none

variable {ar : Arith} {capacity : ℕ} {d d' : Duplex x} {e : DuplexEvent} {side : Side}

@[simp] theorem onLane_session (d : Duplex x) (side side' : Side) (f : Lane → Lane) :
    (d.onLane side f).session side' = d.session side' := rfl

@[simp] theorem onLane_lane (d : Duplex x) (side : Side) (f : Lane → Lane) :
    (d.onLane side f).lane side = f (d.lane side) := Function.update_self ..

@[simp] theorem onLane_lane_other (d : Duplex x) (side : Side) (f : Lane → Lane) :
    (d.onLane side f).lane side.other = d.lane side.other := Function.update_of_ne (Side.other_ne side) ..

@[simp] theorem onLane_other_lane (d : Duplex x) (side : Side) (f : Lane → Lane) :
    (d.onLane side.other f).lane side = d.lane side := Function.update_of_ne (Side.other_ne side).symm ..

/-- The branches of `step`. -/
inductive Steps (ar : Arith) (capacity : ℕ) (d : Duplex x) : DuplexEvent → Duplex x → Prop
  | act (e : LinkEvent) (side : Side) (event : SessionEvent) (link : Link x) (hacts : d.link.acts e = some (side, event))
    (hready : d.ready side event = true) (h : d.link.step ar e = some link) :
    Steps ar capacity d (.link e) (d.afterAct side event link)
  | breaks : Steps ar capacity d (.link .breaks) { d with link := { d.link with broken := true } }
  | write (side : Side) (hwriter : (d.session side).writer = true) (hline : (d.lane side).line ≠ [])
    (hwire : (d.lane side).wire < capacity) :
    Steps ar capacity d (.write side) (d.onLane side Lane.write)
  | read (side : Side) (hphase : (d.session side).phase.finished = false) (hwire : 0 < (d.lane side.other).wire)
    (hinn : (d.lane side.other).inn < d.inbox side) :
    Steps ar capacity d (.read side) (d.onLane side.other Lane.read)

theorem steps_of_step (h : step ar capacity d e = some d') : Steps ar capacity d e d' := by
  cases e with
  | link e' =>
    simp only [step, stepLink] at h
    split at h
    case h_1 side event hacts =>
      split_ifs at h with hready
      obtain ⟨link, hlink, rfl⟩ := Option.map_eq_some_iff.mp h
      exact .act e' side event link hacts hready hlink
    case h_2 hacts =>
      obtain ⟨link, hlink, rfl⟩ := Option.map_eq_some_iff.mp h
      obtain ⟨rfl, rfl⟩ := Link.eq_breaks_of_idle hlink hacts
      exact .breaks
  | write side =>
    simp only [step] at h
    split_ifs at h with hguard
    obtain ⟨hwriter, hline, hwire⟩ := hguard
    exact Option.some.inj h ▸ .write side hwriter hline hwire
  | read side =>
    simp only [step] at h
    split_ifs at h with hguard
    obtain ⟨hphase, hwire, hinn⟩ := hguard
    exact Option.some.inj h ▸ .read side hphase hwire hinn

theorem link_of_step (h : step ar capacity d e = some d') :
    (∃ e', d.link.step ar e' = some d'.link) ∨ d'.link = d.link := by
  cases steps_of_step h with
  | act e side event link hacts hready hlink => exact Or.inl ⟨e, hlink⟩
  | breaks => exact Or.inl ⟨.breaks, rfl⟩
  | write side | read side => exact Or.inr rfl

theorem run_link {core : Side → AppCore x} {ip peer : IpAddr} {edge : ScreenEdge} {key : SessionKey}
    {es : List DuplexEvent} (hrun : run (step ar capacity) (initial core ip edge peer key) es = some d) :
    ∃ ls, run (Link.step ar) (.initial core ip edge peer key) ls = some d.link := by
  refine run_invariant (P := fun d : Duplex x => ∃ ls, run (Link.step ar) (.initial core ip edge peer key) ls = some d.link)
    ⟨[], rfl⟩ ?_ es d hrun
  rintro t e u ⟨ls, hls⟩ hstep
  rcases link_of_step hstep with ⟨e', he'⟩ | heq
  · exact ⟨ls ++ [e'], (run_snoc_eq_some _).mpr ⟨t.link, hls, he'⟩⟩
  · exact ⟨ls, heq ▸ hls⟩

/-- The lanes hold what has been sent and not handled. -/
def Fits (d : Duplex x) : Prop :=
  ∀ side, (d.session side).out.length = (d.lane side).inn + (d.lane side).wire + (d.lane side).line.length

theorem step_fits (h : step ar capacity d e = some d') (hfits : d.Fits) : d'.Fits := by
  cases steps_of_step h with
  | act e side event link hacts hready hlink =>
    obtain ⟨p, hp, -, hsession, -, hother, -⟩ := Link.step_of_acts hlink hacts
    have hmine := hfits side
    have htheirs := hfits side.other
    intro side'
    rcases Side.eq_or_eq_other side side' with rfl | rfl
    · simp only [afterAct, session, Function.update_self, hsession]
      by_cases hdied : event = .writerDied
      · subst hdied
        cases Session.steps_of_step hp with
        | writerDied hslot => rfl
      · have hout := (Session.step_messages hp hdied).1
        rw [Lane.sent_of_ne hdied]
        simp only [session] at hmine
        simp only [List.length_append, List.length_replicate, hout]
        omega
    · simp only [afterAct, session, Function.update_of_ne (Side.other_ne side), hother]
      simp only [session] at htheirs
      cases event with
      | recv msg =>
        have hpos : 0 < (d.lane side.other).inn := by
          have hboth := (Bool.and_eq_true_iff.mp hready).2
          simpa using hboth
        simp only [Link.outAfter, List.length_tail, Lane.handled]
        omega
      | _ => exact htheirs
  | breaks => exact hfits
  | write side hwriter hline hwire =>
    have hpos := List.length_pos_iff.mpr hline
    intro side'
    have h' := hfits side'
    rcases Side.eq_or_eq_other side side' with rfl | rfl
    · simp only [onLane_session, onLane_lane, Lane.write, List.length_tail]
      omega
    · rwa [onLane_session, onLane_lane_other]
  | read side hphase hwire hinn =>
    intro side'
    have h' := hfits side'
    rcases Side.eq_or_eq_other side side' with rfl | rfl
    · rwa [onLane_session, onLane_other_lane]
    · simp only [onLane_session, onLane_lane, Lane.read]
      omega

end Duplex

end ScreenLink

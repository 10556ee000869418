import ScreenLink.Core.Framing
import ScreenLink.Pairing.Party
import ScreenLink.Session.Route

/-!
# What the writer puts on the wire

The bytes between a session and its peer's `read_msg`. `run_session` writes its Hello itself; from then on the writer
task does, and it ends at the first error of `write_msg`, whether the connection is broken or the message is too long.
So every message short enough for a frame is delivered, in order, if and only if no message is too long
(`delivers_iff`).
-/

namespace ScreenLink

open Machine

/-- A session, its writer task, and the peer that reads. -/
structure Delivery (x : Crates) where
  core : AppCore x
  /-- `out` is the channel to the writer. -/
  session : Session
  /-- What the session has written or put into the channel. -/
  sent : List ControlMsg
  /-- Our Hello is written. -/
  greeted : Bool
  /-- Written, and not yet read by the peer. -/
  wire : Bytes
  broken : Bool
  /-- The peer's `read_msg` has not failed. -/
  reader : Bool
  received : List ControlMsg

inductive DeliveryEvent (x : Crates)
  | act (event : SessionEvent)
  /-- The writer takes a message and writes it. -/
  | write
  | breaks
  /-- The peer reads a message that has arrived. -/
  | read
  /-- The other sessions and the user change what the process shares. -/
  | shared (core : AppCore x)

namespace Delivery

variable {x : Crates}

def start (core : AppCore x) (role : Role) (ip : IpAddr) (key : SessionKey) (cert : Bytes) : Delivery x where
  core := core
  session := .new role ip key cert
  sent := []
  greeted := false
  wire := []
  broken := false
  reader := true
  received := []

def helloMsg (t : Delivery x) : ControlMsg := .hello PROTOCOL_VERSION t.core.deviceInfo

/-- The session writes its Hello; an error ends it. -/
def greet (c : Postcard ControlMsg) (t : Delivery x) (p : AppCore x × Session) : Delivery x :=
  match c.writeMsg t.helloMsg with
  | .ok bytes => { t with
      core := p.1
      session := { p.2 with out := [] }
      sent := t.sent ++ [t.helloMsg]
      greeted := true
      wire := t.wire ++ bytes }
  | .error error => { t with session := t.session.fail (.failed error) }

/-- Another step of the session. Before it has a writer it writes itself, and drops the error. -/
def acted (c : Postcard ControlMsg) (t : Delivery x) (p : AppCore x × Session) : Delivery x :=
  let msgs := p.2.out.drop t.session.out.length
  match p.2.slot with
  | some _ => { t with core := p.1, session := p.2, sent := t.sent ++ msgs }
  | none => { t with
      core := p.1
      session := { p.2 with out := [] }
      sent := t.sent ++ msgs
      wire := if t.broken then t.wire else t.wire ++ msgs.flatMap c.frame }

/-- The session after the error with which its writer ends. -/
def stopWriter (t : Delivery x) : Delivery x := { t with session := { t.session with writer := false, out := [] } }

/-- One step; `none` if the event cannot happen now. -/
def step (ar : Arith) (c : Postcard ControlMsg) (t : Delivery x) (e : DeliveryEvent x) : Option (Delivery x) :=
  match e with
  | .act event =>
    if event = .writerDied then none
    -- the Hello is written while the connection holds, and otherwise writing it fails
    else if t.session.phase = .start ∧ t.broken = decide (event = .sayHello) then none
    else (t.session.step ar t.core event).map fun p => if event = .sayHello then t.greet c p else t.acted c p
  | .write =>
    if t.session.slot = none ∨ t.session.writer = false then none
    else match t.session.out with
      | [] => none
      | msg :: rest => match t.broken, c.writeMsg msg with
        | false, .ok bytes => some { t with session := { t.session with out := rest }, wire := t.wire ++ bytes }
        | _, _ => some t.stopWriter
  | .breaks => some { t with broken := true }
  | .read => match t.reader, c.readMsg t.wire with
    | true, some (.ok msg, rest) => some { t with wire := rest, received := t.received ++ [msg] }
    | true, some (.error _, rest) => some { t with wire := rest, reader := false }
    | _, _ => none
  | .shared core => some { t with core := core }

/-- `flying` is on the wire. It comes next of what was sent, and while the connection and the writer are there, nothing
is missing but what is still in the channel. -/
structure InOrder (c : Postcard ControlMsg) (t : Delivery x) (flying : List ControlMsg) : Prop where
  wire : t.wire = flying.flatMap c.frame
  fits : ∀ msg ∈ flying, c.fits msg = true
  next : t.received ++ flying <+: t.sent.filter c.fits
  whole : t.broken = false → t.session.writer = true →
    t.received ++ flying ++ t.session.out.filter c.fits = t.sent.filter c.fits

/-- The messages that fit into a frame are delivered in order, and the others are skipped. -/
structure Good (c : Postcard ControlMsg) (t : Delivery x) : Prop where
  inOrder : ∃ flying, t.InOrder c flying
  /-- The peer is in sync. -/
  reader : t.reader = true
  /-- While the connection holds, the writer lives as long as the session, -/
  writer : t.broken = false → t.session.phase.finished = false → t.session.writer = true
  /-- and no session ends for want of a Hello. -/
  hello : t.broken = false → t.session.phase ≠ .start → t.greeted = true

/-- A message too long for a frame comes up: the Hello, or while the connection holds one that the writer takes. -/
def Oversized (c : Postcard ControlMsg) (t : Delivery x) : DeliveryEvent x → Prop
  | .act event => event = .sayHello ∧ c.fits t.helloMsg = false
  | .write => t.broken = false ∧ t.session.phase.finished = false ∧ ∃ msg ∈ t.session.out.head?, c.fits msg = false
  | _ => False

instance (c : Postcard ControlMsg) (t : Delivery x) (e : DeliveryEvent x) : Decidable (Oversized c t e) := by
  cases e <;> unfold Oversized <;> infer_instance

/-! ### Invariants -/

variable {ar : Arith} {c : Postcard ControlMsg} {t u : Delivery x} {e : DeliveryEvent x} {event : SessionEvent}
  {p : AppCore x × Session} {flying : List ControlMsg}

structure Inv (t : Delivery x) : Prop where
  slot : t.session.SlotOk
  /-- Before it has a writer, a session has nothing for it. -/
  quiet : t.session.slot = none → t.session.out = []
  fresh : t.session.phase = .start → t.greeted = false

theorem act_cases (hstep : t.step ar c (.act event) = some u) :
    event ≠ .writerDied ∧ (t.session.phase = .start → t.broken = !decide (event = .sayHello)) ∧
      ∃ p, t.session.step ar t.core event = some p ∧ u = if event = .sayHello then t.greet c p else t.acted c p := by
  simp only [step] at hstep
  split_ifs at hstep with hdied hstart
  all_goals
    obtain ⟨p, hp, rfl⟩ := Option.map_eq_some_iff.mp hstep
    refine ⟨hdied, fun hphase => ?_, p, hp, ?_⟩
    · have hne := fun hbroken => hstart ⟨hphase, hbroken⟩
      simpa [Bool.eq_not_iff] using hne
    · first | rw [if_pos ‹_›] | rw [if_neg ‹_›]

theorem out_of_step (hp : t.session.step ar t.core event = some p) (hdied : event ≠ .writerDied) :
    ∃ msgs, p.2.out = t.session.out ++ msgs ∧ (t.session.writer = false → msgs = []) ∧
      (p.2.writer = true → t.session.writer = true) := by
  by_cases hdown : event = .teardown
  · subst hdown
    cases Session.steps_of_step hp with
    | teardown info result hs => exact ⟨[], (List.append_nil _).symm, fun _ => rfl, nofun⟩
  · obtain ⟨msgs, hout, -, hnone, hwriter⟩ := Session.says_of_step hp hdied hdown
    exact ⟨msgs, hout, hnone, fun h => hwriter ▸ h⟩

theorem slot_of_step (hp : t.session.step ar t.core event = some p) (hslot : p.2.slot = none) :
    t.session.slot = none := by
  by_cases hset : event = .setSlot
  · subst hset
    obtain ⟨info, -, rfl⟩ := Session.step_setSlot hp
    cases hslot
  · exact (Session.step_slot hp hset).symm.trans hslot

theorem InOrder.next_append (h : t.InOrder c flying) (msgs : List ControlMsg) :
    t.received ++ flying <+: (t.sent ++ msgs).filter c.fits := by
  rw [List.filter_append]
  exact h.next.trans (List.prefix_append _ _)

theorem inOrder_queued {F : String} (hp : t.session.step ar t.core event = some p) (hdied : event ≠ .writerDied)
    (hslot : p.2.slot = some F) (horder : t.InOrder c flying) : (t.acted c p).InOrder c flying := by
  obtain ⟨msgs, hout, hnone, hwriter⟩ := out_of_step hp hdied
  have hacted : t.acted c p = { t with core := p.1, session := p.2, sent := t.sent ++ msgs } := by
    rw [acted, hout, List.drop_left, hslot]
  rw [hacted]
  refine ⟨horder.wire, horder.fits, horder.next_append msgs, fun hbroken hlive => ?_⟩
  show t.received ++ flying ++ p.2.out.filter c.fits = (t.sent ++ msgs).filter c.fits
  rw [hout, List.filter_append, List.filter_append, ← List.append_assoc, horder.whole hbroken (hwriter hlive)]

theorem inOrder_written (hinv : Inv t) (hp : t.session.step ar t.core event = some p) (hdied : event ≠ .writerDied)
    (hslot : p.2.slot = none) (horder : t.InOrder c flying) : ∃ flying', (t.acted c p).InOrder c flying' := by
  obtain ⟨msgs, hout, hnone, hwriter⟩ := out_of_step hp hdied
  have hquiet : t.session.out = [] := hinv.quiet (slot_of_step hp hslot)
  have hacted : t.acted c p = { t with
      core := p.1
      session := { p.2 with out := [] }
      sent := t.sent ++ msgs
      wire := if t.broken then t.wire else t.wire ++ msgs.flatMap c.frame } := by
    rw [acted, hout, List.drop_left, hslot]
  rw [hacted]
  cases hbroken : t.broken with
  | true => exact ⟨flying, horder.wire, horder.fits, horder.next_append msgs, nofun⟩
  | false =>
    have hall : t.received ++ (flying ++ msgs.filter c.fits) <+: (t.sent ++ msgs).filter c.fits ∧
        (t.session.writer = true →
          t.received ++ (flying ++ msgs.filter c.fits) = (t.sent ++ msgs).filter c.fits) := by
      cases hlive : t.session.writer with
      | false =>
        rw [hnone hlive, List.filter_nil, List.append_nil, List.append_nil]
        exact ⟨horder.next, nofun⟩
      | true =>
        have hwhole := horder.whole hbroken hlive
        rw [hquiet, List.filter_nil, List.append_nil] at hwhole
        rw [← List.append_assoc, hwhole, List.filter_append]
        exact ⟨List.prefix_rfl, fun _ => rfl⟩
    refine ⟨flying ++ msgs.filter c.fits, ?_, ?_, hall.1, fun _ hlive => ?_⟩
    · show t.wire ++ msgs.flatMap c.frame = _
      rw [List.flatMap_append, Postcard.flatMap_frame_filter, horder.wire]
    · intro msg hmsg
      rcases List.mem_append.mp hmsg with hold | hnew
      · exact horder.fits msg hold
      · exact (List.mem_filter.mp hnew).2
    · show t.received ++ (flying ++ msgs.filter c.fits) ++ [] = _
      rw [List.append_nil]
      exact hall.2 (hwriter hlive)

theorem InOrder.append {msg : ControlMsg} (horder : t.InOrder c flying)
    (hfits : c.fits msg = true) {u : Delivery x} (hwire : u.wire = t.wire ++ c.frame msg)
    (hreceived : u.received = t.received)
    (hwhole : t.received ++ (flying ++ [msg]) ++ u.session.out.filter c.fits = u.sent.filter c.fits) :
    u.InOrder c (flying ++ [msg]) := by
  refine ⟨?_, ?_, ?_, fun _ _ => by rw [hreceived, hwhole]⟩
  · rw [hwire, horder.wire, List.flatMap_append, List.flatMap_singleton]
  · intro m hm
    rcases List.mem_append.mp hm with hold | hnew
    · exact horder.fits m hold
    · rwa [List.mem_singleton.mp hnew]
  · rw [hreceived, ← hwhole]
    exact List.prefix_append _ _

theorem InOrder.frozen (horder : t.InOrder c flying) {u : Delivery x} (hwire : u.wire = t.wire)
    (hreceived : u.received = t.received) (hsent : u.sent = t.sent)
    (hoff : u.broken = true ∨ u.session.writer = false) : u.InOrder c flying := by
  refine ⟨hwire.trans horder.wire, horder.fits, by rw [hreceived, hsent]; exact horder.next, fun hheld hlive => ?_⟩
  rcases hoff with hbroken | hdead
  · cases hheld.symm.trans hbroken
  · cases hlive.symm.trans hdead

theorem write_cases (hstep : t.step ar c .write = some u) :
    ∃ msg rest, t.session.out = msg :: rest ∧ t.session.slot ≠ none ∧ t.session.writer = true ∧
      ((t.broken = false ∧ c.fits msg = true ∧
          u = { t with session := { t.session with out := rest }, wire := t.wire ++ c.frame msg }) ∨
        ((t.broken = true ∨ c.fits msg = false) ∧ u = t.stopWriter)) := by
  simp only [step] at hstep
  split_ifs at hstep with hidle
  rw [not_or] at hidle
  cases hout : t.session.out with
  | nil => rw [hout] at hstep; cases hstep
  | cons msg rest =>
    rw [hout] at hstep
    refine ⟨msg, rest, rfl, hidle.1, by simpa using hidle.2, ?_⟩
    cases hfits : c.fits msg with
    | true =>
      simp only [Postcard.writeMsg_of_fits hfits] at hstep
      cases hbroken : t.broken with
      | false =>
        rw [hbroken] at hstep
        exact Or.inl ⟨rfl, rfl, (Option.some.inj hstep).symm⟩
      | true =>
        rw [hbroken] at hstep
        exact Or.inr ⟨Or.inl rfl, (Option.some.inj hstep).symm⟩
    | false =>
      obtain ⟨err, herr⟩ := Postcard.writeMsg_of_not_fits hfits
      simp only [herr] at hstep
      refine Or.inr ⟨Or.inr rfl, ?_⟩
      cases hbroken : t.broken <;> rw [hbroken] at hstep <;> exact (Option.some.inj hstep).symm

theorem read_cases (hc : c.Lossless) (horder : t.InOrder c flying) (hstep : t.step ar c .read = some u) :
    ∃ msg rest, flying = msg :: rest ∧
      u = { t with wire := rest.flatMap c.frame, received := t.received ++ [msg] } := by
  simp only [step] at hstep
  cases flying with
  | nil =>
    have hwire : t.wire = [] := horder.wire
    rw [hwire] at hstep
    cases hreader : t.reader <;> rw [hreader] at hstep <;> cases hstep
  | cons msg rest =>
    have hread : c.readMsg t.wire = some (.ok msg, rest.flatMap c.frame) := by
      rw [horder.wire, List.flatMap_cons]
      exact Postcard.readMsg_frame hc (horder.fits msg List.mem_cons_self) _
    rw [hread] at hstep
    cases hreader : t.reader with
    | false => rw [hreader] at hstep; cases hstep
    | true =>
      rw [hreader] at hstep
      exact ⟨msg, rest, rfl, (Option.some.inj hstep).symm⟩

theorem InOrder.read {msg : ControlMsg} {rest : List ControlMsg} (horder : t.InOrder c (msg :: rest)) :
    InOrder c { t with wire := rest.flatMap c.frame, received := t.received ++ [msg] } rest := by
  refine ⟨rfl, fun m hm => horder.fits m (List.mem_cons_of_mem _ hm), ?_, fun hbroken hlive => ?_⟩
  · show t.received ++ [msg] ++ rest <+: _
    rw [List.append_assoc]
    exact horder.next
  · show t.received ++ [msg] ++ rest ++ _ = _
    rw [List.append_assoc t.received]
    exact horder.whole hbroken hlive

theorem acted_frame : (t.acted c p).broken = t.broken ∧ (t.acted c p).reader = t.reader ∧
    (t.acted c p).greeted = t.greeted ∧ (t.acted c p).session.phase = p.2.phase ∧
    (t.acted c p).session.slot = p.2.slot ∧ (t.acted c p).session.writer = p.2.writer ∧
    (p.2.slot = none → (t.acted c p).session.out = []) := by
  unfold acted
  dsimp only
  split
  · rename_i F hslot
    exact ⟨rfl, rfl, rfl, rfl, rfl, rfl, fun hnone => by cases hnone.symm.trans hslot⟩
  · exact ⟨rfl, rfl, rfl, rfl, rfl, rfl, fun _ => rfl⟩

theorem acted_step (hinv : Inv t) (hgood : t.Good c) (hp : t.session.step ar t.core event = some p)
    (hdied : event ≠ .writerDied) (hhello : event ≠ .sayHello)
    (hstart : t.session.phase = .start → t.broken = true) : (t.acted c p).Good c ∧ Inv (t.acted c p) := by
  obtain ⟨flying, horder⟩ := hgood.inOrder
  obtain ⟨hbroken, hreader, hgreeted, hphase, hslot, hwriter, hquiet⟩ := acted_frame (t := t) (c := c) (p := p)
  have hmoves := Session.step_moves hp
  constructor
  · refine ⟨?_, hreader.trans hgood.reader, fun hheld hrunning => ?_, fun hheld hbegun => ?_⟩
    · cases hnamed : p.2.slot with
      | some F => exact ⟨flying, inOrder_queued hp hdied hnamed horder⟩
      | none => exact inOrder_written hinv hp hdied hnamed horder
    · rw [hbroken] at hheld
      rw [hphase] at hrunning
      rw [hwriter]
      have hlive := hgood.writer hheld (Phase.unfinished_of_moves hmoves hrunning)
      by_cases hdown : event = .teardown
      · subst hdown
        cases Session.steps_of_step hp with
        | teardown info result hs => cases hrunning
      · obtain ⟨msgs, -, -, -, hsame⟩ := Session.says_of_step hp hdied hdown
        exact hsame.trans hlive
    · rw [hbroken] at hheld
      rw [hgreeted]
      refine hgood.hello hheld fun hfirst => ?_
      cases hheld.symm.trans (hstart hfirst)
  · refine ⟨?_, fun hnone => hquiet (hslot ▸ hnone), fun hfirst => ?_⟩
    · have hok := Session.step_slotOk hp hinv.slot
      exact ⟨fun F hF => hslot.trans (hok.named F (hphase ▸ hF)), fun h => hslot.trans (hok.unnamed (hphase ▸ h))⟩
    · rw [hgreeted]
      exact hinv.fresh (Phase.start_of_moves hmoves (hphase ▸ hfirst)).1

theorem greet_step (hinv : Inv t) (hgood : t.Good c) (hp : t.session.step ar t.core .sayHello = some p)
    (hheld : t.broken = false) :
    ((t.greet c p).Good c ↔ ¬ c.fits t.helloMsg = false) ∧ ((t.greet c p).Good c → Inv (t.greet c p)) := by
  obtain ⟨flying, horder⟩ := hgood.inOrder
  cases Session.steps_of_step hp with
  | sayHello hs =>
    have hunnamed : t.session.slot = none := hinv.slot.unnamed (hs ▸ rfl)
    have hlive : t.session.writer = true := hgood.writer hheld (hs ▸ rfl)
    have hwhole := horder.whole hheld hlive
    rw [hinv.quiet hunnamed, List.filter_nil, List.append_nil] at hwhole
    cases hfits : c.fits t.helloMsg with
    | true =>
      have hgreet : t.greet c (t.core, t.session.sayHello t.core) = { t with
          session := { t.session.sayHello t.core with out := [] }
          sent := t.sent ++ [t.helloMsg]
          greeted := true
          wire := t.wire ++ c.frame t.helloMsg } := by
        rw [greet, Postcard.writeMsg_of_fits hfits]
      rw [hgreet]
      refine ⟨iff_of_true ⟨⟨_, horder.append hfits rfl rfl ?_⟩, hgood.reader, fun _ _ => hlive, fun _ _ => rfl⟩ nofun,
        fun _ => ⟨⟨nofun, fun _ => hunnamed⟩, fun _ => rfl, nofun⟩⟩
      show t.received ++ (flying ++ [t.helloMsg]) ++ [] = (t.sent ++ [t.helloMsg]).filter c.fits
      rw [List.append_nil, ← List.append_assoc, hwhole, List.filter_append, List.filter_singleton, hfits]
      rfl
    | false =>
      obtain ⟨err, herr⟩ := Postcard.writeMsg_of_not_fits hfits
      have hgreet : t.greet c (t.core, t.session.sayHello t.core) = { t with
          session := t.session.fail (.failed err) } := by
        rw [greet, herr]
      have hbad : ¬ (t.greet c (t.core, t.session.sayHello t.core)).Good c := by
        rw [hgreet]
        intro hgood'
        cases (hinv.fresh hs).symm.trans (hgood'.hello hheld nofun)
      exact ⟨iff_of_false hbad (not_not.mpr rfl), fun hgood' => absurd hgood' hbad⟩

theorem write_step (hinv : Inv t) (hgood : t.Good c) (hstep : t.step ar c .write = some u) :
    (u.Good c ↔ ¬ Oversized c t .write) ∧ (u.Good c → Inv u) := by
  obtain ⟨flying, horder⟩ := hgood.inOrder
  obtain ⟨msg, rest, hout, hslot, hlive, ⟨hheld, hfits, rfl⟩ | ⟨hwhy, rfl⟩⟩ := write_cases hstep
  · have hwhole := horder.whole hheld hlive
    rw [hout, List.filter_cons_of_pos hfits] at hwhole
    refine ⟨iff_of_true ⟨⟨_, horder.append hfits rfl rfl ?_⟩, hgood.reader, hgood.writer, hgood.hello⟩ ?_,
      fun _ => ⟨⟨hinv.slot.named, hinv.slot.unnamed⟩, fun hnone => absurd hnone hslot, hinv.fresh⟩⟩
    · rw [← hwhole, ← List.append_assoc, List.append_assoc (t.received ++ flying)]
      rfl
    · rintro ⟨-, -, msg', hmsg', hlong⟩
      rw [hout] at hmsg'
      cases hmsg'
      cases hfits.symm.trans hlong
  · have hinv' : Inv t.stopWriter := ⟨⟨hinv.slot.named, hinv.slot.unnamed⟩, fun _ => rfl, hinv.fresh⟩
    refine ⟨?_, fun _ => hinv'⟩
    by_cases hover : Oversized c t .write
    · refine iff_of_false (fun hgood' => ?_) (not_not.mpr hover)
      cases hgood'.writer hover.1 hover.2.1
    · refine iff_of_true ⟨⟨flying, horder.frozen rfl rfl rfl (Or.inr rfl)⟩, hgood.reader, fun hheld hrunning => ?_,
        hgood.hello⟩ hover
      rcases hwhy with hbroken | hlong
      · cases hheld.symm.trans hbroken
      · exact absurd ⟨hheld, hrunning, msg, by rw [hout]; rfl, hlong⟩ hover

theorem good_step (hc : c.Lossless) (hgood : t.Good c) (hinv : Inv t) (hstep : t.step ar c e = some u) :
    (u.Good c ↔ ¬ Oversized c t e) ∧ (u.Good c → Inv u) := by
  cases e with
  | act event =>
    obtain ⟨hdied, hstart, p, hp, rfl⟩ := act_cases hstep
    by_cases hhello : event = .sayHello
    · subst hhello
      rw [if_pos rfl]
      have hheld : t.broken = false := by
        cases Session.steps_of_step hp with
        | sayHello hs => exact (hstart hs).trans rfl
      have hgreet := greet_step hinv hgood hp hheld
      exact ⟨hgreet.1.trans (not_congr (and_iff_right rfl).symm), hgreet.2⟩
    · rw [if_neg hhello]
      have hbroken : t.session.phase = .start → t.broken = true := by
        intro hs
        rw [hstart hs, decide_eq_false hhello]
        rfl
      have hnext := acted_step hinv hgood hp hdied hhello hbroken
      exact ⟨iff_of_true hnext.1 fun hover => hhello hover.1, fun _ => hnext.2⟩
  | write => exact write_step hinv hgood hstep
  | breaks =>
    obtain rfl := Option.some.inj hstep
    obtain ⟨flying, horder⟩ := hgood.inOrder
    exact ⟨iff_of_true ⟨⟨flying, horder.frozen rfl rfl rfl (Or.inl rfl)⟩, hgood.reader, nofun, nofun⟩ id,
      fun _ => ⟨hinv.slot, hinv.quiet, hinv.fresh⟩⟩
  | read =>
    obtain ⟨flying, horder⟩ := hgood.inOrder
    obtain ⟨msg, rest, rfl, rfl⟩ := read_cases hc horder hstep
    exact ⟨iff_of_true ⟨⟨rest, horder.read⟩, hgood.reader, hgood.writer, hgood.hello⟩ id,
      fun _ => ⟨hinv.slot, hinv.quiet, hinv.fresh⟩⟩
  | shared core =>
    obtain rfl := Option.some.inj hstep
    obtain ⟨flying, horder⟩ := hgood.inOrder
    exact ⟨iff_of_true ⟨⟨flying, ⟨horder.wire, horder.fits, horder.next, horder.whole⟩⟩, hgood.reader, hgood.writer,
      hgood.hello⟩ id, fun _ => ⟨hinv.slot, hinv.quiet, hinv.fresh⟩⟩

theorem clipboard_stops {info : DeviceInfo} {text F : String} (hphase : t.session.phase = .running info)
    (hclip : t.session.clip = true) (hout : t.session.out = []) (hslot : t.session.slot = some F)
    (hwriter : t.session.writer = true) (hbroken : t.broken = false) (hlong : c.fits (.clipboard (.text text)) = false) :
    ∃ u, run (step ar c) t [.act (.clipboard text), .write] = some u ∧ ¬ u.Good c := by
  obtain ⟨err, herr⟩ := Postcard.writeMsg_of_not_fits hlong
  have hcopies : t.step ar c (.act (.clipboard text)) =
      some (t.acted c (t.core, t.session.send (.clipboard (.text text)))) := by
    simp [step, Session.step, hclip, hphase]
  have hqueued : t.acted c (t.core, t.session.send (.clipboard (.text text))) = { t with
      session := { t.session with out := [.clipboard (.text text)] }
      sent := t.sent ++ [.clipboard (.text text)] } := by
    simp [acted, Session.send, hout, hslot, hwriter]
  rw [hqueued] at hcopies
  have hwrites : step ar c { t with
      session := { t.session with out := [.clipboard (.text text)] }
      sent := t.sent ++ [.clipboard (.text text)] } .write = some (stopWriter { t with
        session := { t.session with out := [.clipboard (.text text)] }
        sent := t.sent ++ [.clipboard (.text text)] }) := by
    simp [step, hslot, hwriter, hbroken, herr]
  refine ⟨_, by rw [run, hcopies, Option.bind_some, run, hwrites]; rfl, fun hgood => ?_⟩
  have hlive := hgood.writer hbroken
  rw [stopWriter, hphase] at hlive
  cases hlive rfl

end Delivery

open Delivery in
/-- For every interleaving of a session with its writer, the peer's reader and the connection: as long as the connection
and the session last the writer does, and every message that fits into a frame is delivered in order, iff no message
comes up that does not fit. -/
theorem delivers_iff {x : Crates} (ar : Arith) (c : Postcard ControlMsg) (hc : c.Lossless) (core : AppCore x)
    (role : Role) (ip : IpAddr) (key : SessionKey) (cert : Bytes) (es : List (DeliveryEvent x)) (t : Delivery x)
    (hrun : run (step ar c) (start core role ip key cert) es = some t) :
    (∀ front back u, es = front ++ back → run (step ar c) (start core role ip key cert) front = some u → u.Good c) ↔
      ¬ Seen (step ar c) (Oversized c) (start core role ip key cert) es := by
  have hinv : Inv (start core role ip key cert) := ⟨⟨nofun, fun _ => rfl⟩, fun _ => rfl, fun _ => rfl⟩
  have hgood : (start core role ip key cert).Good c :=
    ⟨⟨[], rfl, nofun, List.prefix_rfl, fun _ _ => rfl⟩, rfl, fun _ _ => rfl, fun _ hnot => absurd rfl hnot⟩
  exact always_good_iff (A := Inv) hgood hinv (fun t e u hgood hinv hstep => good_step hc hgood hinv hstep) hrun

/-! ### A text of 8 MiB -/

@[irreducible] def longText : String := .ofList (.replicate MAX_FRAME_LEN 'a')

/-- Bob has paired with Alice, who connects. -/
def bobShares : Delivery demoCrates :=
  .start (demoCore certBob "bob" [fpAlice]) .controlled (.v4 0xC0A80107) demoKey certAlice

/-- What Bob's session has to say, as postcard encodes it. -/
def bobMessages : List (ControlMsg × Bytes) :=
  [(bobShares.helloMsg, 0 :: 1 :: 64 :: asBytes fpBob ++ 3 :: asBytes "bob" ++ 5 :: asBytes "linux" ++
      [166, 55, 1, 0, 1, 0, 0]),
    (.clipboard (.text "hi"), [14, 0, 2, 104, 105]),
    (.ping 1, [15, 1]),
    (.clipboard (.text longText), [14, 0, 128, 128, 128, 4] ++ .replicate MAX_FRAME_LEN 97)]

def bobPostcard : Postcard ControlMsg where
  toStdvec msg := (bobMessages.lookup msg).elim (.error "") .ok
  fromBytes bytes := ((bobMessages.find? fun entry => entry.2 == bytes).map Prod.fst).elim (.error "") .ok

theorem bobPostcard_lossless : bobPostcard.Lossless := by
  have hnodup : (bobMessages.map Prod.snd).Nodup := by simp [bobMessages]
  intro msg body hbody
  have hmem : (msg, body) ∈ bobMessages := by
    cases hlookup : bobMessages.lookup msg with
    | none => simp [bobPostcard, hlookup] at hbody
    | some found =>
      obtain ⟨front, back, heq, -⟩ := List.lookup_eq_some_iff.mp hlookup
      obtain rfl : found = body := by simpa [bobPostcard, hlookup] using hbody
      rw [heq]
      exact List.mem_append_right _ List.mem_cons_self
  cases hfind : bobMessages.find? fun entry => entry.2 == body with
  | none => exact absurd (List.find?_eq_none.mp hfind _ hmem) (by simp)
  | some entry =>
    have hsame : entry.2 = body := by simpa using List.find?_some hfind
    obtain rfl := List.inj_on_of_nodup_map hnodup (List.mem_of_find?_eq_some hfind) hmem hsame
    simp only [bobPostcard, hfind]
    rfl

/-- Bob's session up to its main loop. -/
def bobConnects : List (DeliveryEvent demoCrates) :=
  [.act .sayHello, .act (.recv (.hello 1 (demoCore certAlice "alice" []).deviceInfo)), .act .setSlot,
    .act .checkTrust, .act (.wire 0 ⟨0, 0, 1920, 1080⟩ none)]

/-- He copies a word, and the session pings. -/
def bobCopiesWord : List (DeliveryEvent demoCrates) :=
  bobConnects ++ [.act (.clipboard "hi"), .read, .act .tick, .write, .write, .read, .read]

theorem delivers_iff_bobCopiesWord :
    ∃ t, run (Delivery.step .exact bobPostcard) bobShares bobCopiesWord = some t ∧
      ∀ front back u, bobCopiesWord = front ++ back →
        run (Delivery.step .exact bobPostcard) bobShares front = some u → u.Good bobPostcard := by
  obtain ⟨t, hrun, -⟩ : ∃ t, run (Delivery.step .exact bobPostcard) bobShares bobCopiesWord = some t ∧
      t.received = [bobShares.helloMsg, .clipboard (.text "hi"), .ping 1] := exists_run (by decide +kernel)
  exact ⟨t, hrun, (delivers_iff .exact bobPostcard bobPostcard_lossless _ .controlled (.v4 0xC0A80107) demoKey certAlice
    bobCopiesWord t hrun).mpr (by decide +kernel)⟩

/-- He copies a text of 8 MiB. -/
def bobCopiesLong : List (DeliveryEvent demoCrates) := bobConnects ++ [.act (.clipboard longText), .write]

theorem ofList_replicate_ne {n : ℕ} (hn : 2 < n) : String.ofList (.replicate n 'a') ≠ "hi" := by
  intro heq
  have hlen : (String.ofList (.replicate n 'a')).toList.length = n := by simp
  rw [heq] at hlen
  exact hn.ne hlen

theorem longText_ne : longText ≠ "hi" := by
  have hmany : 2 < MAX_FRAME_LEN := by
    unfold MAX_FRAME_LEN
    omega
  have htext : longText = .ofList (.replicate MAX_FRAME_LEN 'a') := by
    unfold longText
    rfl
  rw [htext]
  exact ofList_replicate_ne hmany

theorem length_append_replicate (n : ℕ) {front : Bytes} (hfront : front ≠ []) :
    n < (front ++ List.replicate n 97).length := by
  rw [List.length_append, List.length_replicate]
  exact Nat.lt_add_of_pos_left (List.length_pos_of_ne_nil hfront)

theorem longText_not_fits : bobPostcard.fits (.clipboard (.text longText)) = false := by
  have hhello : (ControlMsg.clipboard (.text longText) == bobShares.helloMsg) = false := beq_eq_false_iff_ne.mpr nofun
  have hword : (ControlMsg.clipboard (.text longText) == .clipboard (.text "hi")) = false := by
    rw [beq_eq_false_iff_ne]
    intro heq
    injection heq with heq
    injection heq with heq
    exact longText_ne heq
  have hping : (ControlMsg.clipboard (.text longText) == .ping 1) = false := beq_eq_false_iff_ne.mpr nofun
  have hlookup : bobMessages.lookup (.clipboard (.text longText)) =
      some ([14, 0, 128, 128, 128, 4] ++ .replicate MAX_FRAME_LEN 97) := by
    rw [bobMessages, List.lookup_cons, hhello, List.lookup_cons, hword, List.lookup_cons, hping, List.lookup_cons_self]
  have hencode : bobPostcard.toStdvec (.clipboard (.text longText)) =
      .ok ([14, 0, 128, 128, 128, 4] ++ .replicate MAX_FRAME_LEN 97) := by
    simp only [bobPostcard, hlookup, Option.elim_some]
  exact Postcard.not_fits_of_long hencode (length_append_replicate _ (List.cons_ne_nil _ _))

/-- The writer is gone, while the connection holds and the session runs. -/
theorem bobCopiesLong_not_good :
    bobPostcard.Lossless ∧ ∃ t, run (Delivery.step .exact bobPostcard) bobShares bobCopiesLong = some t ∧
      ¬ t.Good bobPostcard := by
  refine ⟨bobPostcard_lossless, ?_⟩
  obtain ⟨t, hrun, hphase, hout, hslot, hwriter, hclip, hbroken⟩ :
      ∃ t, run (Delivery.step .exact bobPostcard) bobShares bobConnects = some t ∧
        t.session.phase = .running (demoCore certAlice "alice" []).deviceInfo ∧ t.session.out = [] ∧
        t.session.slot = some fpAlice ∧ t.session.writer = true ∧ t.session.clip = true ∧ t.broken = false :=
    exists_run (by decide +kernel)
  obtain ⟨u, hrest, hbad⟩ := Delivery.clipboard_stops hphase hclip hout hslot hwriter hbroken longText_not_fits
  exact ⟨u, (run_append_eq_some _).mpr ⟨t, hrun, hrest⟩, hbad⟩

end ScreenLink

import ScreenLink.Input.Capture
import ScreenLink.Input.Release

/-!
# On exactly one machine

The hook decides whether an event is eaten when it sees the event, the loop decides whether it is relayed when it takes
the event out of the queue. The two decisions agree exactly when control has not moved in between (`exclusive_iff`): an
event seen before the crossing and taken after it is delivered twice (`typed_twice`), an event seen before the way home
and taken after it is delivered nowhere, and so is what is still in the queue, or what Raw Input has still to report, when
the loop exits on the remote. The press that completes the chord is no one's, in the queue as well (`unchorded`).
-/

namespace ScreenLink

open Machine HostInput

def CapturedEvent.isInput : CapturedEvent → Bool
  | .move _ _ _ _ => false
  | .input _ => true

/-- The loop has sent the event on to the peer. -/
def Handled.relayed (d : Handled) : Bool := match d.queued.event with
  | .move _ _ _ _ => false
  | .input ev => decide (ev ∈ d.sent)

namespace Capture

/-- The queued events that will not complete the chord when they are taken one after the other. -/
def unchorded (d : HotkeyDetector) : List Hooked → List Hooked
  | [] => []
  | q :: queue => match q.event with
    | .input (.key key pressed) =>
      if (d.onKey key pressed).2 then unchorded (d.onKey key pressed).1 queue
      else q :: unchorded (d.onKey key pressed).1 queue
    | _ => q :: unchorded d queue

/-- What the hook thread has seen and the loop has not taken, but the chord: in the queue, with Raw Input, or too late. -/
def undelivered (s : Capture) : List Hooked := unchorded s.host.hotkey s.queue ++ s.notches ++ s.lost

/-- The key, button and wheel events are left to the local applications. -/
def NoneEaten (qs : List Hooked) : Prop := ∀ q ∈ qs, q.event.isInput = true → q.eaten = false

/-- Every key, button and wheel event but the chord is either left to the local applications or relayed. -/
structure Exclusive (s : Capture) : Prop where
  handled : ∀ d ∈ s.handled, d.queued.event.isInput = true → d.chord = false → d.queued.eaten = d.relayed
  /-- What is undelivered when the loop has gone is relayed no more. -/
  left : s.exited = true → NoneEaten s.undelivered

/-- The loop takes an event other than the chord, and control is not where it was when the hook saw the event; or it
exits, and an event other than the chord is undelivered that the hook saw while control was remote. -/
def LateDelivery (s : Capture) : CaptureEvent → Prop
  | .poll _ => ∃ q ∈ s.queue.head?, q.event.isInput = true ∧ s.host.chord q.event = false ∧ q.site ≠ s.host.det.site
  | .exit => ∃ q ∈ s.undelivered, q.event.isInput = true ∧ q.site = .remote
  | _ => False

instance (s : Capture) (e : CaptureEvent) : Decidable (s.LateDelivery e) := match e with
  | .poll _ => inferInstanceAs (Decidable (∃ q ∈ s.queue.head?, _))
  | .exit => inferInstanceAs (Decidable (∃ q ∈ s.undelivered, _))
  | .hook _ | .notch _ _ | .rawWheel => inferInstanceAs (Decidable False)
  | .head _ _ => inferInstanceAs (Decidable False)

variable {x : Crates} {ar : Arith} {desktop : Rect} {s t : Capture}

theorem sent_input (hsends : x.Sends) (h : HostInput) (ev : InputEvent) (edgeNow : ScreenEdge) :
    (hostPoll x ar desktop h (some (.input ev)) edgeNow).sent.drop h.sent.length =
      if h.det.site = .remote ∧ h.chord (.input ev) = false then [ev] else [] := by
  have hturn := hostPoll_turn x ar desktop h (some (.input ev)) edgeNow
  generalize hostPoll x ar desktop h (some (.input ev)) edgeNow = h' at hturn
  have hother : (∀ key pressed, ev ≠ .key key pressed) → h.chord (.input ev) = false := by
    intro hev
    cases ev with
    | key key pressed => exact absurd rfl (hev key pressed)
    | _ => rfl
  rcases hturn with _ | _ | _ | _ | _ | hchord | ⟨hchord, hsite⟩ | ⟨hchord, hsite, hsent, hdoes⟩ | ⟨hev, hsite⟩ |
    ⟨hev, hsite, hsent, hdoes⟩
  · rw [if_neg (by simp [chord, hchord])]
    exact List.drop_length
  · rw [if_neg (by simp [hsite]), trackLocal]
    split_ifs <;> exact List.drop_length
  · rw [if_pos ⟨hsite, hchord⟩, hdoes.sent, sent_of_sentBy hsends hsent, trackLocal]
    split_ifs <;> exact List.drop_left
  · rw [if_neg (by simp [hsite])]
    exact List.drop_length
  · rw [if_pos ⟨hsite, hother hev⟩, hdoes.sent, sent_of_sentBy hsends hsent]
    exact List.drop_left

/-! ### The queue -/

theorem trySend_queue (s : Capture) (q : Hooked) :
    (s.exited = true ∧ s.trySend q = { s with lost := s.lost ++ [q] }) ∨
      (s.exited = false ∧ s.trySend q = { s with overflowed := true, hooked := s.hooked ++ [q] }) ∨
      (s.exited = false ∧ s.trySend q = { s with queue := s.queue ++ [q], hooked := s.hooked ++ [q] }) := by
  unfold trySend
  split_ifs with hexited hfull
  · exact Or.inl ⟨hexited, rfl⟩
  · exact Or.inr (Or.inl ⟨Bool.not_eq_true _ ▸ hexited, rfl⟩)
  · exact Or.inr (Or.inr ⟨Bool.not_eq_true _ ▸ hexited, rfl⟩)

theorem mem_queue_trySend {q r : Hooked} (h : r ∈ (s.trySend q).queue) : r ∈ s.queue ∨ r = q := by
  rcases trySend_queue s q with ⟨-, heq⟩ | ⟨-, heq⟩ | ⟨-, heq⟩ <;> rw [heq] at h
  · exact Or.inl h
  · exact Or.inl h
  · exact (List.mem_append.mp h).imp_right List.mem_singleton.mp

/-- The events on their way were eaten iff control was remote, and none is lost while the loop runs. -/
structure QueueRight (s : Capture) : Prop where
  queue : ∀ q ∈ s.queue, q.eaten = decide (q.site = .remote)
  notches : ∀ q ∈ s.notches, q.eaten = decide (q.site = .remote)
  running : s.exited = false → s.lost = []
  conserved : s.overflowed = false → s.hooked = s.handled.map Handled.queued ++ s.queue

theorem queueRight_trySend {q : Hooked} (hright : QueueRight s) (hq : q.eaten = decide (q.site = .remote)) :
    QueueRight (s.trySend q) := by
  have hqueue : ∀ r ∈ (s.trySend q).queue, r.eaten = decide (r.site = .remote) := by
    intro r hr
    rcases mem_queue_trySend hr with hold | rfl
    · exact hright.queue r hold
    · exact hq
  rcases trySend_queue s q with ⟨hexited, heq⟩ | ⟨hrunning, heq⟩ | ⟨hrunning, heq⟩
  · refine ⟨hqueue, ?_, ?_, ?_⟩ <;> rw [heq]
    · exact hright.notches
    · exact fun hrunning => nomatch hexited.symm.trans hrunning
    · exact hright.conserved
  · refine ⟨hqueue, ?_, ?_, ?_⟩ <;> rw [heq]
    · exact hright.notches
    · exact hright.running
    · exact fun hroom => nomatch hroom
  · refine ⟨hqueue, ?_, ?_, ?_⟩ <;> rw [heq]
    · exact hright.notches
    · exact hright.running
    · intro hroom
      simp only [hright.conserved hroom, List.append_assoc]

theorem queueRight_step {e : CaptureEvent} (hflag : FlagRight s) (hright : QueueRight s)
    (hstep : step x ar desktop s e = some t) : QueueRight t := by
  rcases step_cases hstep with ⟨event, -, rfl⟩ | hwheel | hturn
  · obtain ⟨hqueue, hnotches, hrunning, hconserved⟩ := queueRight_trySend hright (hooks_eaten hflag event)
    exact ⟨hqueue, hnotches, hrunning, hconserved⟩
  · rcases hwheel with @⟨dx, dy⟩ | @⟨q, rest, hq⟩
    · refine ⟨hright.queue, fun q hq => ?_, hright.running, hright.conserved⟩
      rcases List.mem_append.mp hq with hold | hnew
      · exact hright.notches q hold
      · rw [List.mem_singleton.mp hnew]
        exact hooks_eaten hflag _
    · have hall := hright.notches
      rw [hq] at hall
      refine queueRight_trySend ⟨hright.queue, fun r hr => ?_, hright.running, hright.conserved⟩ ?_
      · exact hall r (List.mem_cons_of_mem q hr)
      · exact hall q List.mem_cons_self
  · rcases hturn with @⟨edge, snapUi, hrunning⟩ | @⟨edgeNow, hrunning⟩ | hrunning
    · exact ⟨hright.queue, hright.notches, hright.running, hright.conserved⟩
    · refine ⟨fun q hq => hright.queue q (List.mem_of_mem_tail hq), hright.notches, hright.running, fun hroom => ?_⟩
      have hconserved := hright.conserved hroom
      simp only [poll]
      rw [hconserved]
      cases s.queue <;> simp
    · exact ⟨hright.queue, hright.notches, by simp, hright.conserved⟩

/-! ### One step -/

theorem noneEaten_append {qs rs : List Hooked} : NoneEaten (qs ++ rs) ↔ NoneEaten qs ∧ NoneEaten rs :=
  List.forall_mem_append

theorem mem_of_unchorded {d : HotkeyDetector} {qs : List Hooked} {q : Hooked} (h : q ∈ unchorded d qs) : q ∈ qs := by
  induction qs generalizing d with
  | nil => exact h
  | cons r qs ih =>
    have hcons : ∀ d', q ∈ r :: unchorded d' qs → q ∈ r :: qs := by
      intro d' hmem
      rcases List.mem_cons.mp hmem with rfl | hrest
      · exact List.mem_cons_self
      · exact List.mem_cons_of_mem r (ih hrest)
    unfold unchorded at h
    split at h
    · split_ifs at h
      · exact List.mem_cons_of_mem r (ih h)
      · exact hcons _ h
    · exact hcons _ h

theorem QueueRight.undelivered (h : QueueRight s) (hrunning : s.exited = false) {q : Hooked} (hq : q ∈ s.undelivered) :
    q.eaten = decide (q.site = .remote) := by
  rw [Capture.undelivered, h.running hrunning, List.append_nil] at hq
  exact (List.mem_append.mp hq).elim (fun hqueue => h.queue q (mem_of_unchorded hqueue)) (h.notches q)

theorem exclusive_beside (hbeside : Beside s t)
    (hleft : s.exited = true → (NoneEaten t.undelivered ↔ NoneEaten s.undelivered)) : t.Exclusive ↔ s.Exclusive := by
  obtain ⟨-, hexited, hhandled⟩ := hbeside
  constructor
  · rintro ⟨hall, hnone⟩
    exact ⟨hhandled ▸ hall, fun hgone => (hleft hgone).mp (hnone (hexited.trans hgone))⟩
  · rintro ⟨hall, hnone⟩
    refine ⟨hhandled.symm ▸ hall, fun hgone => ?_⟩
    have hgone' : s.exited = true := hexited.symm.trans hgone
    exact (hleft hgone').mpr (hnone hgone')

theorem noneEaten_hooks (hflag : FlagRight s) (hgone : s.exited = true) (event : CapturedEvent) :
    NoneEaten [s.hooks event] := by
  rintro q hq -
  rw [List.mem_singleton.mp hq, hooks_eaten hflag]
  simp [hooks, site, hgone]

theorem exclusive_hook (hflag : FlagRight s) (event : CapturedEvent) : (s.hook event).Exclusive ↔ s.Exclusive := by
  refine exclusive_beside (beside_hook s event) fun hgone => ?_
  have hsent : (s.hook event).undelivered = s.undelivered ++ [s.hooks event] := by
    simp [undelivered, hook, trySend, hgone]
  rw [hsent, noneEaten_append]
  exact and_iff_left (noneEaten_hooks hflag hgone event)

theorem exclusive_wheel {e : CaptureEvent} (hflag : FlagRight s) (hwheel : WheelTurn s e t) :
    t.Exclusive ↔ s.Exclusive := by
  refine exclusive_beside hwheel.beside fun hgone => ?_
  rcases hwheel with @⟨dx, dy⟩ | @⟨q, rest, hq⟩
  · have hnone := noneEaten_hooks hflag hgone (.input (.mouseWheel dx dy))
    simp only [undelivered, notch, noneEaten_append]
    tauto
  · have hsent : ({ s with notches := rest }.trySend q).undelivered =
        unchorded s.host.hotkey s.queue ++ rest ++ (s.lost ++ [q]) := by
      simp [undelivered, trySend, hgone]
    have hsplit : NoneEaten s.notches ↔ NoneEaten [q] ∧ NoneEaten rest := by
      rw [hq, ← List.singleton_append, noneEaten_append]
    rw [hsent, undelivered]
    simp only [noneEaten_append, hsplit]
    tauto

theorem relayed_iff (hsends : x.Sends) (h : HostInput) {q : Hooked} (edgeNow : ScreenEdge)
    (heaten : q.eaten = decide (q.site = .remote)) (hinput : q.event.isInput = true)
    (hchord : h.chord q.event = false) :
    q.eaten = Handled.relayed ⟨q, h.det.site, h.chord q.event,
      (hostPoll x ar desktop h (some q.event) edgeNow).sent.drop h.sent.length⟩ ↔ q.site = h.det.site := by
  obtain ⟨event, eaten, site⟩ := q
  cases event with
  | move dx dy absX absY => cases hinput
  | input ev =>
    simp only at heaten hchord ⊢
    rw [Handled.relayed, heaten, sent_input hsends, hchord]
    cases site <;> cases h.det.site <;> simp

theorem handled_poll (x : Crates) (ar : Arith) (desktop : Rect) (s : Capture) (edgeNow : ScreenEdge) :
    (s.queue.head? = none ∧ (s.poll x ar desktop edgeNow).handled = s.handled) ∨
      ∃ q, s.queue.head? = some q ∧ (s.poll x ar desktop edgeNow).handled = s.handled ++
        [⟨q, s.host.det.site, s.host.chord q.event,
          (hostPoll x ar desktop s.host (some q.event) edgeNow).sent.drop s.host.sent.length⟩] := by
  cases hqueue : s.queue.head? with
  | none => exact Or.inl ⟨rfl, by simp [poll, hqueue]⟩
  | some q => exact Or.inr ⟨q, rfl, by simp [poll, hqueue]⟩

theorem exclusive_poll (hsends : x.Sends) (hright : QueueRight s) (hrunning : s.exited = false)
    (edgeNow : ScreenEdge) :
    (s.poll x ar desktop edgeNow).Exclusive ↔ s.Exclusive ∧ ¬ s.LateDelivery (.poll edgeNow) := by
  have hleft : ∀ {P : Prop}, s.exited = true → P := by
    intro P hexited
    rw [hrunning] at hexited
    cases hexited
  have hleft' : ∀ {P : Prop}, (s.poll x ar desktop edgeNow).exited = true → P := hleft
  rcases handled_poll x ar desktop s edgeNow with ⟨hnone, hhandled⟩ | ⟨q, hq, hhandled⟩
  · constructor
    · intro hexcl
      refine ⟨⟨hhandled ▸ hexcl.handled, hleft⟩, ?_⟩
      rintro ⟨q, hq, -⟩
      rw [hnone] at hq
      cases hq
    · rintro ⟨hexcl, -⟩
      exact ⟨hhandled ▸ hexcl.handled, hleft'⟩
  · have heaten := hright.queue q (List.mem_of_mem_head? hq)
    constructor
    · rintro ⟨hall, -⟩
      rw [hhandled] at hall
      refine ⟨⟨fun d hd => hall d (List.mem_append_left _ hd), hleft⟩, ?_⟩
      rintro ⟨q', hq', hinput, hchord, hmoved⟩
      obtain rfl : q = q' := Option.some.inj (hq.symm.trans hq')
      exact hmoved ((relayed_iff hsends s.host edgeNow heaten hinput hchord).mp
        (hall _ (List.mem_append_right _ (List.mem_singleton_self _)) hinput hchord))
    · rintro ⟨hexcl, hnot⟩
      refine ⟨fun d hd hinput hchord => ?_, hleft'⟩
      rw [hhandled, List.mem_append, List.mem_singleton] at hd
      rcases hd with hold | rfl
      · exact hexcl.handled d hold hinput hchord
      · refine (relayed_iff hsends s.host edgeNow heaten hinput hchord).mpr ?_
        by_contra hmoved
        exact hnot ⟨q, hq, hinput, hchord, hmoved⟩

theorem exclusive_step (hsends : x.Sends) (hflag : FlagRight s) (hright : QueueRight s) {e : CaptureEvent}
    (hstep : step x ar desktop s e = some t) : t.Exclusive ↔ s.Exclusive ∧ ¬ s.LateDelivery e := by
  rcases step_cases hstep with ⟨event, rfl, rfl⟩ | hwheel | hturn
  · rw [exclusive_hook hflag]
    exact (and_iff_left id).symm
  · rw [exclusive_wheel hflag hwheel]
    cases hwheel <;> exact (and_iff_left id).symm
  · rcases hturn with @⟨edge, snapUi, hrunning⟩ | @⟨edgeNow, hrunning⟩ | hrunning
    · have hleft : ∀ {P : Prop}, s.exited = true → P := fun hexited => nomatch hrunning.symm.trans hexited
      constructor
      · rintro ⟨hhandled, -⟩
        exact ⟨⟨hhandled, hleft⟩, id⟩
      · rintro ⟨⟨hhandled, -⟩, -⟩
        exact ⟨hhandled, hleft⟩
    · exact exclusive_poll hsends hright hrunning edgeNow
    · constructor
      · rintro ⟨hhandled, hleft⟩
        refine ⟨⟨hhandled, fun hexited => nomatch hrunning.symm.trans hexited⟩, ?_⟩
        rintro ⟨q, hq, hinput, hremote⟩
        have hnot := hleft rfl q hq hinput
        rw [hright.undelivered hrunning hq, hremote] at hnot
        cases hnot
      · rintro ⟨hexcl, hnot⟩
        refine ⟨hexcl.handled, fun _ q hq hinput => ?_⟩
        rw [hright.undelivered hrunning hq]
        exact decide_eq_false fun hremote => hnot ⟨q, hq, hinput, hremote⟩

end Capture

/-- Capture starts with control on the host. -/
def typingStart : Capture := .start dragStart

/-- The cursor crosses, and once the loop has crossed the left Shift key is pressed and released and the wheel turned; then
the chord is pressed, and the loop finds `stop` set with its last press in the queue. -/
def typedAway : List CaptureEvent :=
  [.hook (.move 5 0 1919 540), .head .right false, .poll .right, .hook (.input (.key .shiftLeft true)),
    .head .right false, .poll .right, .hook (.input (.key .shiftLeft false)), .notch 0 120, .head .right false,
    .poll .right, .rawWheel, .head .right false, .poll .right, .hook (.input (.key .controlLeft true)),
    .hook (.input (.key .altLeft true)), .head .right false, .poll .right, .head .right false, .poll .right,
    .hook (.input (.key .home true)), .exit]

/-- The left Shift key is pressed after the cursor has reached the edge, and before the loop has taken the move. -/
def typedEarly : List CaptureEvent :=
  [.hook (.move 5 0 1919 540), .hook (.input (.key .shiftLeft true)), .head .right false, .poll .right,
    .head .right false, .poll .right]

end ScreenLink

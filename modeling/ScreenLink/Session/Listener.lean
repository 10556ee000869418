import ScreenLink.Input.Sent
import ScreenLink.Session.Inbound

/-!
# What a session leaves injected

The UDP listener decrypts a packet under the inbound lock and injects its event outside of it, so a session can be
torn down in between. `Listening` is the process with the two parts of the listener as two steps; `Node.datagram` is
one after the other (`packet_inject`). The teardown clears the channel and releases nothing. So after a session has
ended no key or button is down in what was injected for it iff none is down when its teardown runs, and no press that
was decrypted before is injected after (`nothing_stuck_iff`). A connection that is lost while a key is held is enough
(`key_left_down`).
-/

namespace ScreenLink

open HeldKeys Machine

/-- The process, its listener in two parts. -/
structure Listening (x : Crates) where
  node : Node x
  /-- An event that is decrypted and not yet injected, with the session whose channel it came through (history). -/
  decoded : Option (Option ℕ × InputEvent)
  /-- History: the events injected by the listener, each with its session. -/
  injected : List (Option ℕ × InputEvent)

inductive ListeningEvent
  /-- Any step of the process but the listener's. -/
  | node (event : NodeEvent)
  /-- A packet arrives, and is opened. -/
  | packet (packet : Bytes)
  | inject
  deriving DecidableEq

namespace Listening

variable {x : Crates}

def initial (core : AppCore x) : Listening x where
  node := .initial core
  decoded := none
  injected := []

/-- Open a packet under the inbound lock. -/
def openPacket (n : Listening x) (packet : Bytes) : Listening x :=
  match n.node.core.inboundRt with
  | none => n
  | some rt =>
    let (rt, res) := rt.open x packet
    { n with
      node := { n.node with core := { n.node.core with inboundRt := some rt } }
      decoded := match res with
        | .error _ => none
        | .ok (_, pt) => (x.decodeInput pt).map fun event => (n.node.opener.map Prod.fst, event) }

/-- One step; `none` if the event cannot happen now. -/
def step (ar : Arith) (n : Listening x) (event : ListeningEvent) : Option (Listening x) :=
  match event with
  | .node (.datagram _) => none
  | .node event => (n.node.step ar event).map fun node => { n with node := node }
  | .packet packet => match n.decoded with
    | none => some (n.openPacket packet)
    | some _ => none
  | .inject => match n.decoded with
    | none => none
    | some entry => some
      { node := { n.node with core := { n.node.core with injector := n.node.core.injector ++ [.inject entry.2] } }
        decoded := none
        injected := n.injected ++ [entry] }

/-- Without anything in between, the two parts are one round of the listener. -/
theorem packet_inject (ar : Arith) (n : Listening x) (hidle : n.decoded = none) (packet : Bytes) :
    ∃ t, step ar n (.packet packet) = some t ∧
      ((t.decoded = none ∧ n.node.step ar (.datagram packet) = some t.node) ∨
        ∃ u, step ar t .inject = some u ∧ n.node.step ar (.datagram packet) = some u.node) := by
  refine ⟨n.openPacket packet, by simp only [step, hidle], ?_⟩
  simp only [openPacket, Node.step, Node.datagram]
  cases hin : n.node.core.inboundRt with
  | none => exact Or.inl ⟨hidle, rfl⟩
  | some rt =>
    dsimp only
    rcases hres : (rt.open x packet).2 with err | ⟨seq, pt⟩
    · exact Or.inl ⟨rfl, rfl⟩
    · cases hev : x.decodeInput pt with
      | none =>
        left
        simp only [hev, Option.map_none, and_self]
      | some event =>
        right
        refine ⟨⟨{ n.node with core := { n.node.core with
          inboundRt := some (rt.open x packet).1
          injector := n.node.core.injector ++ [.inject event] } }, none,
          n.injected ++ [(n.node.opener.map Prod.fst, event)]⟩, ?_, ?_⟩
        · simp only [hev, Option.map_some]
          rfl
        · simp only [hev]

variable {ar : Arith} {n t : Listening x} {e : ListeningEvent}

/-- What was injected for session `i`. -/
def strokesOf (n : Listening x) (i : ℕ) : List (Stroke × Bool) :=
  n.injected.filterMap fun entry => if entry.1 = some i then entry.2.stroke? else none

/-- No key or button is down in what was injected for a session that has ended. -/
def NoneHeld (n : Listening x) : Prop :=
  ∀ i, ∀ s ∈ n.node.session? i, s.phase.finished = true → ∀ stroke, ¬ Down (n.strokesOf i) stroke

/-- A session is torn down while a key or button is down in what was injected for it, or a press is injected for a
session that has ended. -/
def LeftHeld (n : Listening x) : ListeningEvent → Prop
  | .node (.session i .teardown) => ∃ stroke, Down (n.strokesOf i) stroke
  | .inject => ∃ i event stroke, n.decoded = some (some i, event) ∧ event.stroke? = some (stroke, true) ∧
    ∃ s ∈ n.node.session? i, s.phase.finished = true
  | _ => False

/-- What is injected, or about to be, is for sessions that have entered their main loop. -/
structure ForStarted (n : Listening x) : Prop where
  opener : Node.OpenerStarted n.node
  entries : ∀ i event, n.decoded = some (some i, event) ∨ (some i, event) ∈ n.injected →
    ∃ s ∈ n.node.session? i, s.phase.started = true

/-! ### What a step does to the sessions -/

theorem node_cases (hstep : step ar n e = some t) :
    (∃ event, e = .node event ∧ n.node.step ar event = some t.node ∧ t.decoded = n.decoded ∧
        t.injected = n.injected) ∨
      (∃ packet, e = .packet packet ∧ n.decoded = none ∧ t = n.openPacket packet) ∨
      ∃ entry, e = .inject ∧ n.decoded = some entry ∧ t.decoded = none ∧ t.injected = n.injected ++ [entry] ∧
        t.node.handles = n.node.handles ∧ t.node.opener = n.node.opener := by
  cases e with
  | node event =>
    left
    have hnode : (n.node.step ar event).map (fun node => { n with node := node }) = some t := by
      cases event with
      | datagram packet => cases hstep
      | _ => exact hstep
    obtain ⟨node, hnode', rfl⟩ := Option.map_eq_some_iff.mp hnode
    exact ⟨event, rfl, hnode', rfl, rfl⟩
  | packet packet =>
    simp only [step] at hstep
    split at hstep
    · rename_i hidle
      exact Or.inr (Or.inl ⟨packet, rfl, hidle, (Option.some.inj hstep).symm⟩)
    · cases hstep
  | inject =>
    simp only [step] at hstep
    split at hstep
    · cases hstep
    · rename_i entry hentry
      obtain rfl := Option.some.inj hstep
      exact Or.inr (Or.inr ⟨entry, rfl, hentry, rfl, rfl, rfl, rfl⟩)

theorem openPacket_handles (n : Listening x) (packet : Bytes) :
    (n.openPacket packet).node.handles = n.node.handles ∧ (n.openPacket packet).node.opener = n.node.opener ∧
      (n.openPacket packet).injected = n.injected := by
  unfold openPacket
  split <;> exact ⟨rfl, rfl, rfl⟩

theorem openPacket_decoded (hidle : n.decoded = none) {packet : Bytes} {entry : Option ℕ × InputEvent}
    (hentry : (n.openPacket packet).decoded = some entry) : entry.1 = n.node.opener.map Prod.fst := by
  unfold openPacket at hentry
  split at hentry
  · rw [hidle] at hentry
    cases hentry
  · dsimp only at hentry
    split at hentry
    · cases hentry
    · obtain ⟨event, -, rfl⟩ := Option.map_eq_some_iff.mp hentry
      rfl

theorem session?_congr {m m' : Node x} (h : m'.handles = m.handles) (i : ℕ) : m'.session? i = m.session? i := by
  rw [Node.session?, Node.session?, h]

theorem started_step {m m' : Node x} {event : NodeEvent} (hstep : m.step ar event = some m') {i : ℕ} {s : Session}
    (hs : s ∈ m.session? i) (hstarted : s.phase.started = true) :
    ∃ s' ∈ m'.session? i, s'.phase.started = true ∧
      (s'.phase.finished = true → s.phase.finished = true ∨ event = .session i .teardown) := by
  cases hacts : m.acts event with
  | none =>
    rcases Node.session?_of_idle hstep hacts i with heq | ⟨hnone, -⟩
    · exact ⟨s, heq ▸ hs, hstarted, Or.inl⟩
    · rw [hnone] at hs
      cases hs
  | some act =>
    obtain ⟨k, sevent⟩ := act
    obtain ⟨s₁, p, hs₁, hp, hsessions, -⟩ := Node.step_of_acts hstep hacts
    by_cases hik : i = k
    · subst hik
      obtain rfl : s₁ = s := Option.some.inj (hs₁.symm.trans hs)
      have hmoves := Session.step_moves hp
      refine ⟨p.2, (hsessions i).trans (if_pos rfl), Phase.started_of_moves hmoves hstarted, fun hfinished => ?_⟩
      revert hmoves hfinished hstarted
      generalize s₁.phase = before
      generalize p.2.phase = after
      intro hstarted hmoves hfinished
      cases hmoves with
      | thread q event hthread => exact Or.inl hfinished
      | teardown => exact Or.inr (Node.eq_session_of_acts hacts (by simp))
      | running | leave => cases hfinished
      | _ => cases hstarted
    · exact ⟨s, ((hsessions i).trans (if_neg hik)).trans hs, hstarted, Or.inl⟩

theorem forStarted_step (h : ForStarted n) (hstep : step ar n e = some t) : ForStarted t := by
  rcases node_cases hstep with ⟨event, rfl, hnode, hdecoded, hinjected⟩ | ⟨packet, rfl, hidle, rfl⟩ |
    ⟨entry, rfl, hentry, hdecoded, hinjected, hhandles, hopener⟩
  · refine ⟨Node.step_openerStarted h.opener hnode, fun i event' hentry => ?_⟩
    rw [hdecoded, hinjected] at hentry
    obtain ⟨s, hs, hstarted⟩ := h.entries i event' hentry
    obtain ⟨s', hs', hstarted', -⟩ := started_step hnode hs hstarted
    exact ⟨s', hs', hstarted'⟩
  · obtain ⟨hhandles, hopener, hinjected⟩ := openPacket_handles n packet
    have hstarted : Node.OpenerStarted (n.openPacket packet).node := by
      intro i epoch hi
      rw [session?_congr hhandles]
      exact h.opener i epoch (hopener ▸ hi)
    refine ⟨hstarted, fun i event hentry => ?_⟩
    rw [session?_congr hhandles]
    rcases hentry with hnew | hold
    · have hsession := openPacket_decoded hidle hnew
      obtain ⟨⟨j, epoch⟩, hj, hij⟩ := Option.map_eq_some_iff.mp hsession.symm
      obtain rfl : j = i := hij
      exact h.opener j epoch hj
    · rw [hinjected] at hold
      exact h.entries i event (Or.inr hold)
  · refine ⟨fun i epoch hi => ?_, fun i event hmem => ?_⟩
    · rw [session?_congr hhandles]
      exact h.opener i epoch (hopener ▸ hi)
    · rw [session?_congr hhandles]
      rcases hmem with hnew | hold
      · rw [hdecoded] at hnew
        cases hnew
      · rw [hinjected, List.mem_append, List.mem_singleton] at hold
        rcases hold with hold | rfl
        · exact h.entries i event (Or.inr hold)
        · exact h.entries i event (Or.inl hentry)

/-! ### After the teardown -/

theorem strokesOf_congr (h : t.injected = n.injected) (i : ℕ) : t.strokesOf i = n.strokesOf i := by
  rw [strokesOf, strokesOf, h]

theorem ended_before (h : ForStarted n) {m' : Node x} {event : NodeEvent} (hstep : n.node.step ar event = some m')
    {i : ℕ} {s' : Session} (hs' : s' ∈ m'.session? i) (hfinished : s'.phase.finished = true) {stroke : Stroke}
    (hdown : Down (n.strokesOf i) stroke) :
    (∃ s ∈ n.node.session? i, s.phase.finished = true) ∨ event = .session i .teardown := by
  obtain ⟨entry, hentry, hstroke⟩ := List.mem_filterMap.mp (List.mem_of_mem_filter (List.mem_of_getLast? hdown))
  obtain ⟨owner, ev⟩ := entry
  split_ifs at hstroke with howner
  obtain rfl : owner = some i := howner
  obtain ⟨s, hs, hstarted⟩ := h.entries i ev (Or.inr hentry)
  obtain ⟨s'', hs'', -, hended⟩ := started_step hstep hs hstarted
  obtain rfl : s' = s'' := Option.some.inj (hs'.symm.trans hs'')
  exact (hended hfinished).imp (fun hold => ⟨s, hs, hold⟩) id

theorem noneHeld_node (h : ForStarted n) {event : NodeEvent} (hnode : n.node.step ar event = some t.node)
    (hinjected : t.injected = n.injected) (hgood : NoneHeld n) : NoneHeld t ↔ ¬ LeftHeld n (.node event) := by
  constructor
  · rintro hnone hleft
    unfold LeftHeld at hleft
    split at hleft
    case h_1 i heq =>
      obtain rfl := ListeningEvent.node.inj heq
      obtain ⟨stroke, hdown⟩ := hleft
      obtain ⟨s, p, -, hp, hsessions, -⟩ := Node.step_of_acts hnode rfl
      refine hnone i p.2 ((hsessions i).trans (if_pos rfl)) ?_ stroke (by rwa [strokesOf_congr hinjected])
      have hmoves := Session.step_moves hp
      revert hmoves
      generalize s.phase = before
      generalize p.2.phase = after
      intro hmoves
      cases hmoves with
      | teardown | pairingFailed => rfl
      | running info event hmain | leave info event hmain => cases hmain
      | thread q event hthread => cases hthread
    case h_2 heq => cases heq
    case h_3 => exact hleft
  · intro hnot i s' hs' hfinished stroke hdown
    rw [strokesOf_congr hinjected] at hdown
    rcases ended_before h hnode hs' hfinished hdown with ⟨s, hs, hold⟩ | rfl
    · exact hgood i s hs hold stroke hdown
    · exact hnot ⟨stroke, hdown⟩

theorem noneHeld_inject {entry : Option ℕ × InputEvent} (hentry : n.decoded = some entry)
    (hinjected : t.injected = n.injected ++ [entry]) (hhandles : t.node.handles = n.node.handles)
    (hgood : NoneHeld n) : NoneHeld t ↔ ¬ LeftHeld n .inject := by
  have hstrokes : ∀ i, t.strokesOf i =
      n.strokesOf i ++ (if entry.1 = some i then entry.2.stroke? else none).toList := by
    intro i
    rw [strokesOf, strokesOf, hinjected, List.filterMap_append]
    rfl
  constructor
  · rintro hnone ⟨i, event, stroke, hdecoded, hpress, s, hs, hfinished⟩
    obtain rfl : entry = (some i, event) := Option.some.inj (hentry.symm.trans hdecoded)
    refine hnone i s ((session?_congr hhandles i).trans hs) hfinished stroke ?_
    rw [hstrokes, if_pos rfl, hpress, Option.toList_some, down_snoc, if_pos rfl]
  · intro hnot i s hs hfinished stroke hdown
    have hs' : n.node.session? i = some s := (session?_congr hhandles i).symm.trans hs
    rw [hstrokes] at hdown
    obtain ⟨owner, event⟩ := entry
    by_cases howner : owner = some i
    · rw [if_pos howner] at hdown
      subst howner
      cases hstroke : event.stroke? with
      | none =>
        rw [hstroke, Option.toList_none, List.append_nil] at hdown
        exact hgood i s hs' hfinished stroke hdown
      | some press =>
        obtain ⟨pressed, b⟩ := press
        rw [hstroke, Option.toList_some, down_snoc] at hdown
        split_ifs at hdown with hsame
        · obtain rfl : b = true := hdown
          exact hnot ⟨i, event, pressed, hentry, hstroke, s, hs', hfinished⟩
        · exact hgood i s hs' hfinished stroke hdown
    · rw [if_neg howner, Option.toList_none, List.append_nil] at hdown
      exact hgood i s hs' hfinished stroke hdown

/-- In every run, for every order of the listener's two parts and the sessions: in each state, no key or button is down
in what was injected for a session that has ended, iff no session is torn down with something down in what was injected
for it, and no press is injected for a session that has ended. -/
theorem nothing_stuck_iff (ar : Arith) (core : AppCore x) (es : List ListeningEvent) (n : Listening x)
    (hrun : run (step ar) (initial core) es = some n) :
    (∀ front back t, es = front ++ back → run (step ar) (initial core) front = some t → NoneHeld t) ↔
      ¬ Seen (step ar) LeftHeld (initial core) es := by
  refine always_good_iff (A := ForStarted) ?_ ?_ ?_ hrun
  · intro i s _ _ stroke
    exact not_down_nil stroke
  · refine ⟨fun i epoch hi => (by cases hi), fun i event hmem => ?_⟩
    rcases hmem with hnew | hold
    · cases hnew
    · cases hold
  · intro n e t hgood hstarted hstep
    refine ⟨?_, fun _ => forStarted_step hstarted hstep⟩
    rcases node_cases hstep with ⟨event, rfl, hnode, -, hinjected⟩ | ⟨packet, rfl, -, rfl⟩ |
      ⟨entry, rfl, hentry, -, hinjected, hhandles, -⟩
    · exact noneHeld_node hstarted hnode hinjected hgood
    · obtain ⟨hhandles, -, hinjected⟩ := openPacket_handles n packet
      refine iff_of_true (fun i s hs hfinished stroke => ?_) id
      rw [strokesOf_congr hinjected]
      exact hgood i s ((session?_congr hhandles i).symm.trans hs) hfinished stroke
    · exact noneHeld_inject hentry hinjected hhandles hgood

end Listening

/-! ### A key held when the connection is lost -/

/-- ChaCha20-Poly1305 under the key `7, 7, …` and the associated data of epoch 1, on the initiator's first packet when
that is the left Shift key's press. -/
def heldAead : Aead where
  encrypt _ _ _ _ := none
  decrypt key nonce ct aad :=
    if key = Vector.replicate 32 7 ∧ aad = beBytes 1 ∧ nonce = RealtimeCrypto.nonce SALT_INITIATOR 0 ∧
        ct = [106, 225, 82, 250, 171, 80, 204, 226, 128, 82, 156, 225, 157, 162, 98, 30, 248, 139, 84] then
      some [4, 50, 1]
    else none
  error := "aead::Error"

def heldCrates : Crates where
  sha256 bytes := (demoDigests.lookup bytes).getD (Vector.replicate 32 0)
  aead := heldAead
  encodeInput _ := none
  decodeInput bytes := if bytes = [4, 50, 1] then some (.key .shiftLeft true) else none
  encodeChunk _ := none
  debugMsg _ := ""

/-- Bob, who has paired with Alice. -/
def heldCore : AppCore heldCrates := (demoCore certBob "bob" [fpAlice]).over heldCrates

/-- Alice controls Bob, presses Shift, and the connection is lost. -/
def shiftLost : List ListeningEvent :=
  (Node.aliceControls 0 (Vector.replicate 32 7) 1).map .node ++
    [.packet (beBytes 0 ++ [106, 225, 82, 250, 171, 80, 204, 226, 128, 82, 156, 225, 157, 162, 98, 30, 248, 139, 84]),
      .inject, .node (.session 0 (.closed (.io "connection reset"))), .node (.session 0 .teardown)]

/-- Shift is left down. -/
theorem key_left_down :
    ∃ n, run (Listening.step .exact) (.initial heldCore) shiftLost = some n ∧ ¬ n.NoneHeld := by
  refine ⟨_, rfl, fun hnone => ?_⟩
  exact hnone 0 _ rfl rfl (.key .shiftLeft) (by decide)

theorem nothing_stuck_iff_shiftLost :
    Seen (Listening.step .exact) Listening.LeftHeld (.initial heldCore) shiftLost := by
  by_contra hnot
  have hnone := (Listening.nothing_stuck_iff .exact heldCore shiftLost _ rfl).mpr hnot shiftLost [] _
    (List.append_nil _).symm rfl
  exact hnone 0 _ rfl rfl (.key .shiftLeft) (by decide)

end ScreenLink

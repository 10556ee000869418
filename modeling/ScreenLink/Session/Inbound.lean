import ScreenLink.Channel.Network
import ScreenLink.Session.NodeMoves

/-!
# Whose inbound channel it is

The process has one inbound channel. A controlled session installs its own on `RealtimeOpen`, and its teardown clears
the slot whoever's channel is in it. The last opener keeps its channel for as long as it runs, throughout a run, exactly
when no other controlled session is torn down meanwhile (`inbound_owned_iff`); an old connection that ends after its
peer has reconnected takes the new session's channel away (`old_teardown_clears`).
-/

namespace ScreenLink

namespace Phase

def isRunning : Phase → Bool
  | .running _ => true
  | _ => false

theorem isRunning_of_moves {trusted : String → Bool} {p p' : Phase} {event : SessionEvent}
    (h : p.Moves trusted event p') (hp : p.started = true) (hp' : p'.isRunning = true) : p.isRunning = true := by
  cases h with
  | thread p event hthread => exact hp'
  | running => rfl
  | leave | teardown => cases hp'
  | _ => cases hp

end Phase

namespace Session

theorem opens_eq_some {s : Session} {event : SessionEvent} {epoch : BitVec 64} (h : s.opens event = some epoch) :
    s.phase.isRunning = true ∧ s.role = .controlled ∧ ∃ port, event = .recv (.realtimeOpen port epoch) := by
  unfold opens at h
  split at h
  case h_1 port epoch info hs hrole =>
    cases h
    exact ⟨hs ▸ rfl, hrole, port, rfl⟩
  case h_2 => cases h

theorem clears_eq_true {s : Session} {event : SessionEvent} (h : s.clears event = true) :
    event = .teardown ∧ s.role = .controlled ∧ ∃ info result, s.phase = .closing info result := by
  unfold clears at h
  split at h
  case h_1 info result hs hrole => exact ⟨rfl, hrole, info, result, hs⟩
  case h_2 => cases h

end Session

namespace Node

open Machine

variable {x : Crates} {ar : Arith}

/-- While the session that opened the inbound channel last is running, the channel is its own. -/
def Owned (n : Node x) : Prop :=
  ∀ i epoch, n.opener = some (i, epoch) → ∀ s ∈ n.session? i, s.phase.isRunning = true →
    ∃ replay, n.core.inboundRt = some { RealtimeCrypto.new s.key epoch false with replay := replay }

/-- A controlled session is torn down while another one, running, is the last opener. -/
def StrayTeardown (n : Node x) (e : NodeEvent) : Prop :=
  ∃ i, e = .session i .teardown ∧ (∃ s ∈ n.session? i, s.clears .teardown = true) ∧
    ∃ j epoch, n.opener = some (j, epoch) ∧ j ≠ i ∧ ∃ t ∈ n.session? j, t.phase.isRunning = true

/-- The last opener has entered its main loop. -/
def OpenerStarted (n : Node x) : Prop :=
  ∀ i epoch, n.opener = some (i, epoch) → ∃ s ∈ n.session? i, s.phase.started = true

theorem step_openerStarted {n n' : Node x} {e : NodeEvent} (h : OpenerStarted n) (hstep : step ar n e = some n') :
    OpenerStarted n' := by
  intro i epoch hopener
  cases hacts : n.acts e with
  | none =>
    rw [(core_of_idle hstep hacts).2.2] at hopener
    obtain ⟨s, hs, hstarted⟩ := h i epoch hopener
    rcases session?_of_idle hstep hacts i with heq | ⟨hnone, -⟩
    · exact ⟨s, heq ▸ hs, hstarted⟩
    · rw [hnone] at hs
      cases hs
  | some act =>
    obtain ⟨k, event⟩ := act
    obtain ⟨s, p, hs, hp, hsessions, -, -, hopener', -⟩ := step_of_acts hstep hacts
    have hmoves := Session.step_moves hp
    rw [hopener'] at hopener
    cases hopens : s.opens event with
    | some epoch' =>
      rw [hopens] at hopener
      cases hopener
      have hrunning := (Session.opens_eq_some hopens).1
      refine ⟨p.2, (hsessions i).trans (if_pos rfl), Phase.started_of_moves hmoves ?_⟩
      cases hphase : s.phase <;> simp_all [Phase.isRunning, Phase.started]
    | none =>
      rw [hopens] at hopener
      obtain ⟨t, ht, hstarted⟩ := h i epoch hopener
      by_cases hik : i = k
      · subst hik
        obtain rfl : s = t := Option.some.inj (hs.symm.trans ht)
        exact ⟨p.2, (hsessions i).trans (if_pos rfl), Phase.started_of_moves hmoves hstarted⟩
      · exact ⟨t, ((hsessions i).trans (if_neg hik)).trans ht, hstarted⟩

theorem step_owned {n n' : Node x} {e : NodeEvent} (hstarted : OpenerStarted n) (h : Owned n)
    (hnot : ¬ StrayTeardown n e) (hstep : step ar n e = some n') : Owned n' := by
  intro i epoch hopener s' hs' hrunning
  cases hacts : n.acts e with
  | none =>
    obtain ⟨-, hinbound, hopener'⟩ := core_of_idle hstep hacts
    rw [hopener'] at hopener
    rcases session?_of_idle hstep hacts i with heq | ⟨-, role, ip, key, cert, hnew⟩
    · obtain ⟨replay, hrt⟩ := h i epoch hopener s' (heq ▸ hs') hrunning
      rw [hinbound]
      cases e with
      | datagram packet =>
        obtain ⟨replay', hopen⟩ := RealtimeCrypto.open_fst x
          { RealtimeCrypto.new s'.key epoch false with replay := replay } packet
        exact ⟨replay', by rw [hrt, inboundAfter, Option.map_some, hopen]⟩
      | _ => exact ⟨replay, hrt⟩
    · -- a new session is not running
      rw [hnew] at hs'
      cases hs'
      cases hrunning
  | some act =>
    obtain ⟨k, event⟩ := act
    obtain ⟨s, p, hs, hp, hsessions, -, hinbound, hopener', -⟩ := step_of_acts hstep hacts
    have hrt := Session.step_inboundRt hp
    obtain ⟨-, hkey, -⟩ := Session.step_const hp
    rw [hinbound, hrt]
    rw [hopener'] at hopener
    rw [hsessions i] at hs'
    cases hopens : s.opens event with
    | some epoch' =>
      -- session `k` has just opened it
      rw [hopens] at hopener
      cases hopener
      rw [if_pos rfl] at hs'
      cases hs'
      exact ⟨{}, by rw [hkey]; rfl⟩
    | none =>
      rw [hopens] at hopener
      dsimp only
      obtain ⟨t, ht, hwas⟩ := hstarted i epoch hopener
      cases hclears : s.clears event with
      | true =>
        obtain ⟨rfl, -, info, result, hclosing⟩ := Session.clears_eq_true hclears
        by_cases hik : i = k
        · -- the opener itself is torn down, so it is not running any more
          subst hik
          rw [if_pos rfl] at hs'
          cases hs'
          obtain rfl : s = t := Option.some.inj (hs.symm.trans ht)
          have := Phase.isRunning_of_moves (Session.step_moves hp) hwas hrunning
          rw [hclosing] at this
          cases this
        · rw [if_neg hik] at hs'
          exact absurd ⟨k, eq_session_of_acts hacts (by simp), ⟨s, hs, hclears⟩, i, epoch, hopener, hik, s', hs',
            hrunning⟩ hnot
      | false =>
        rw [if_neg Bool.false_ne_true]
        by_cases hik : i = k
        · subst hik
          rw [if_pos rfl] at hs'
          cases hs'
          obtain rfl : s = t := Option.some.inj (hs.symm.trans ht)
          rw [hkey]
          exact h i epoch hopener s hs (Phase.isRunning_of_moves (Session.step_moves hp) hwas hrunning)
        · rw [if_neg hik] at hs'
          exact h i epoch hopener s' hs' hrunning

theorem not_owned_of_stray {n n' : Node x} {e : NodeEvent} (hstray : StrayTeardown n e)
    (hstep : step ar n e = some n') : ¬ Owned n' := by
  obtain ⟨i, rfl, ⟨s, hs, hclears⟩, j, epoch, hopener, hji, t, ht, hrunning⟩ := hstray
  obtain ⟨s', p, hs', hp, hsessions, -, hinbound, hopener', -⟩ :=
    step_of_acts hstep (rfl : acts n (.session i .teardown) = _)
  obtain rfl : s = s' := Option.some.inj (hs.symm.trans hs')
  have hrt := Session.step_inboundRt hp
  have hopens : s.opens .teardown = none := rfl
  rw [hopens] at hrt hopener'
  intro howned
  have ht' := ((hsessions j).trans (if_neg hji)).trans ht
  obtain ⟨replay, hsome⟩ := howned j epoch (hopener'.trans hopener) t ht' hrunning
  rw [hinbound, hrt, hclears] at hsome
  cases hsome

/-- In every run: the inbound channel is the running last opener's in every state reached, if and only if no
controlled session is torn down while another one, running, is the last opener. -/
theorem inbound_owned_iff {core : AppCore x} {es : List NodeEvent} {n : Node x}
    (hrun : run (step ar) (initial core) es = some n) :
    (∀ es₁ es₂ n₁, es = es₁ ++ es₂ → run (step ar) (initial core) es₁ = some n₁ → Owned n₁) ↔
      ¬ Seen (step ar) StrayTeardown (initial core) es := by
  refine always_good_iff (A := OpenerStarted) (fun i epoch h => by cases h) (fun i epoch h => by cases h) ?_ hrun
  intro n e n' howned hstarted hstep
  refine ⟨⟨fun howned' hstray => ?_, fun hnot => ?_⟩, fun _ => step_openerStarted hstarted hstep⟩
  · exact not_owned_of_stray hstray hstep howned'
  · exact step_owned hstarted howned hnot hstep

/-! ### A reconnect -/

/-- Alice connects to Bob, who has paired with it, as session `i`, and opens its realtime channel. -/
def aliceControls (i : ℕ) (key : SessionKey) (epoch : BitVec 64) : List NodeEvent :=
  [.accept (.v4 0x0A000003) key certAlice, .session i .sayHello,
    .session i (.recv (.hello PROTOCOL_VERSION (demoCore certAlice "alice" []).deviceInfo)), .session i .setSlot,
    .session i .checkTrust, .session i (.wire 0 ⟨0, 0, 1920, 1080⟩ none),
    .session i (.recv (.realtimeOpen 7078 epoch))]

/-- Alice's first connection hangs and it connects again. -/
def reconnect : List NodeEvent :=
  aliceControls 0 (Vector.replicate 32 1) 11 ++ aliceControls 1 (Vector.replicate 32 2) 22

/-- When the first connection is given up, the second session loses its channel. -/
theorem old_teardown_clears :
    ∃ n, run (step .exact) (initial (demoCore certBob "bob" [fpAlice]))
        (reconnect ++ [.session 0 (.closed (.io "connection reset")), .session 0 .teardown]) = some n ∧ ¬ Owned n := by
  refine ⟨_, rfl, fun howned => ?_⟩
  obtain ⟨replay, hsome⟩ := howned 1 22 rfl _ rfl rfl
  cases hsome

theorem inbound_owned_iff_reconnect :
    ∃ n, run (step .exact) (initial (demoCore certBob "bob" [fpAlice])) reconnect = some n ∧
      n.opener = some (1, 22) ∧
      ∀ es₁ es₂ n₁, reconnect = es₁ ++ es₂ →
        run (step .exact) (initial (demoCore certBob "bob" [fpAlice])) es₁ = some n₁ → Owned n₁ := by
  refine ⟨_, rfl, rfl, (inbound_owned_iff rfl).mpr ?_⟩
  rintro ⟨es₁, e, es₂, n, hes, -, i, rfl, -⟩
  have hmem : NodeEvent.session i .teardown ∈ reconnect := by
    rw [hes]
    simp
  simp [reconnect, aliceControls] at hmem

end Node

end ScreenLink

import ScreenLink.Pairing.Refinement

/-!
# Whether the two ends of a pairing agree

Two consequences of `run_refines` for honest devices. If neither trusts the other, both have stored the other's
fingerprint at the end of the pairing loops or neither has, unless both users have confirmed and exactly one of them
has cancelled before reading the other's confirmation, or a confirmation was thrown away with the writer task
(`pairing_agreement_iff`). And no handshake ends because of an unexpected message, and the devices can pair, exactly if
the devices trust each other or neither trusts the other (`handshake_unbroken_iff`): a device that trusts the other is
past its gate at once, sends what the main loop sends, and never confirms.
-/

namespace ScreenLink

open Handshake Machine

/-- The pairing loop, where there was one, has ended. -/
def Phase.settled : Phase → Bool
  | .authenticated _ | .running _ | .closing _ _ | .ended _ => true
  | _ => false

namespace Link

variable {x : Crates} {ar : Arith} {core : Side → AppCore x} {start l : Link x} {es : List LinkEvent} {a : State}
  {reliable : Prop}

/-- The trust store of `side` has the fingerprint of the other device. -/
def Trusts (core : Side → AppCore x) (l : Link x) (side : Side) : Prop :=
  (l.core side).trust.isTrusted (core side.other).identity.fingerprint = true

/-! ### Events and devices -/

/-- Both ends up to the trust store's answer. -/
def greetings : List LinkEvent :=
  [.act .a .sayHello, .act .b .sayHello, .deliver .a, .deliver .b, .act .a .setSlot, .act .b .setSlot,
    .act .a .checkTrust, .act .b .checkTrust]

/-- Both users confirm, and each end reads both messages and stores the other. -/
def pairs : List LinkEvent :=
  [.act .a (.cmd .confirm 0), .act .b (.cmd .confirm 0), .deliver .a, .deliver .a, .deliver .b, .deliver .b,
    .act .a (.store none), .act .b (.store none)]

/-- Start the threads. -/
def wires : List LinkEvent := [.act .a (.wire 0 ⟨0, 0, 0, 0⟩ none), .act .b (.wire 0 ⟨0, 0, 0, 0⟩ none)]

/-- Alice has paired with Bob, and Bob has unpaired Alice. -/
def unpaired : Side → AppCore demoCrates
  | .a => demoCore certAlice "alice" [fpBob]
  | .b => demoCore certBob "bob" []

/-- Alice connects to Bob. -/
def aliceMeetsBob (core : Side → AppCore demoCrates) : Link demoCrates :=
  initial core (.v4 0x0A000002) .right (.v4 0x0A000003) demoKey

/-! ### Agreement -/

theorem Sim.settled (h : Sim ar reliable core start es l a) {side : Side}
    (hsettled : (l.session side).phase.settled = true) :
    (a side).stage.waiting = false ∧
      (Trusts core l side ↔ trusts core side = true ∨ (a side).stage = .through) := by
  have habs := (h.party side).stage
  have htrust := (h.party side).trust
  have hpaired : (l.session side).phase.isPaired = false ∧ (a side).stage.waiting = false := by
    cases hphase : (l.session side).phase with
    | authenticated info | running info | closing info result | ended result =>
      rw [hphase] at habs
      refine ⟨rfl, ?_⟩
      first
        | rw [show (a side).stage = .through from habs]; rfl
        | rw [habs.1]; rfl
        | exact habs.1
    | _ =>
      rw [hphase] at hsettled
      cases hsettled
  refine ⟨hpaired.2, ?_⟩
  rw [Trusts, htrust, Bool.or_eq_true_iff, decide_eq_true_iff, and_iff_left hpaired.1]

/-- Two devices, neither of which trusts the other, over a connection that stays up: once both pairing loops have
ended, both have stored the other or neither has, if and only if it is not the case that both users have confirmed and
exactly one of them has cancelled, and no end has lost the other's confirmation. -/
theorem pairing_agreement_iff (ip : IpAddr) (edge : ScreenEdge) (peer : IpAddr) (key : SessionKey)
    (hrun : run (step ar) (initial core ip edge peer key) es = some l) (hup : .breaks ∉ es)
    (huntrusted : ∀ side, trusts core side = false) (hended : ∀ side, (l.session side).phase.settled = true) :
    (Trusts core l .a ↔ Trusts core l .b) ↔
      ¬ (Seen (step ar) (Confirms .a) (initial core ip edge peer key) es ∧
          Seen (step ar) (Confirms .b) (initial core ip edge peer key) es ∧
          ¬ (Seen (step ar) (Cancels .a) (initial core ip edge peer key) es ↔
            Seen (step ar) (Cancels .b) (initial core ip edge peer key) es)) ∧
        ∀ side, ¬ Seen (step ar) (Misses side) (initial core ip edge peer key) es := by
  obtain ⟨a, hreach, hsim⟩ := run_refines True core ip edge peer key hrun fun _ => hup
  have htrusts : ∀ side, Trusts core l side ↔ (a side).stage = .through := fun side => by
    rw [(hsim.settled (hended side)).2, huntrusted, or_iff_right Bool.false_ne_true]
  have hagree := agreement_iff huntrusted hreach fun side => (hsim.settled (hended side)).1
  rw [← htrusts, ← htrusts] at hagree
  rw [hagree, ← hsim.confirmed, ← hsim.confirmed, ← hsim.cancelled, ← hsim.cancelled, ← Bool.eq_iff_iff]
  refine and_congr_right' (forall_congr' fun side => ?_)
  rw [← hsim.lost, Bool.not_eq_true]

/-- Bob cancels before Alice's confirmation has arrived: Alice stores Bob, and Bob does not store Alice. -/
theorem confirm_then_cancel_disagrees :
    ∃ l, run (step .exact) (aliceMeetsBob strangers) (greetings ++
        [.act .a (.cmd .confirm 0), .act .b (.cmd .confirm 0), .act .b (.cmd .cancel 0), .deliver .a, .deliver .a,
          .act .a (.store none)]) = some l ∧
      (∀ side, trusts strangers side = false) ∧ (∀ side, (l.session side).phase.settled = true) ∧
      Trusts strangers l .a ∧ ¬ Trusts strangers l .b := by
  obtain ⟨l, hrun, ha, hb, hta, htb⟩ : ∃ l, run (step .exact) (aliceMeetsBob strangers) (greetings ++
      [.act .a (.cmd .confirm 0), .act .b (.cmd .confirm 0), .act .b (.cmd .cancel 0), .deliver .a, .deliver .a,
        .act .a (.store none)]) = some l ∧
      (l.session .a).phase.settled = true ∧ (l.session .b).phase.settled = true ∧
      (l.core .a).trust.isTrusted (strangers .b).identity.fingerprint = true ∧
      (l.core .b).trust.isTrusted (strangers .a).identity.fingerprint = false := exists_run (by decide +kernel)
  refine ⟨l, hrun, fun side => ?_, fun side => ?_, hta, fun h => Bool.noConfusion (htb.symm.trans h)⟩
  · cases side <;> rfl
  · cases side
    · exact ha
    · exact hb

/-- Both users confirm and both store the other. -/
theorem pairing_agreement_iff_confirmed :
    ∃ l, run (step .exact) (aliceMeetsBob strangers) (greetings ++ pairs) = some l ∧ Trusts strangers l .a ∧
      (Trusts strangers l .a ↔ Trusts strangers l .b) := by
  obtain ⟨l, hrun, ha, hb, hta⟩ : ∃ l, run (step .exact) (aliceMeetsBob strangers) (greetings ++ pairs) = some l ∧
      (l.session .a).phase.settled = true ∧ (l.session .b).phase.settled = true ∧
      (l.core .a).trust.isTrusted (strangers .b).identity.fingerprint = true := exists_run (by decide +kernel)
  refine ⟨l, hrun, hta, (pairing_agreement_iff (.v4 0x0A000002) .right (.v4 0x0A000003) demoKey hrun (by decide)
    (fun side => ?_) fun side => ?_).mpr ⟨?_, fun side => ?_⟩⟩
  · cases side <;> rfl
  · cases side
    · exact ha
    · exact hb
  · decide +kernel
  · cases side <;> decide +kernel

/-! ### Runs of any two devices -/

/-- A session at its gate, the peer's Hello read. -/
def atGate (core : Side → AppCore x) (ip : IpAddr) (edge : ScreenEdge) (peer : IpAddr) (key : SessionKey)
    (side : Side) : Session :=
  { (initial core ip edge peer key).session side with
    phase := .gate (core side.other).deviceInfo
    slot := some (core side.other).identity.fingerprint }

/-- The link whose ends are these. -/
def ofEnds (ends : Side → AppCore x × Session) : Link x := ⟨fun side => (ends side).1, fun side => (ends side).2, false⟩

theorem run_greetings (ar : Arith) (core : Side → AppCore x) (ip : IpAddr) (edge : ScreenEdge) (peer : IpAddr)
    (key : SessionKey) : run (step ar) (initial core ip edge peer key) greetings =
      some (ofEnds fun side =>
        Session.checkTrust (core side) (atGate core ip edge peer key side) (core side.other).deviceInfo) := by
  obtain ⟨l, hrun, hcore, hsession, hbroken⟩ : ∃ l, run (step ar) (initial core ip edge peer key) greetings = some l ∧
      (∀ side, l.core side = (Session.checkTrust (core side) (atGate core ip edge peer key side)
        (core side.other).deviceInfo).1) ∧
      (∀ side, l.session side = (Session.checkTrust (core side) (atGate core ip edge peer key side)
        (core side.other).deviceInfo).2) ∧ l.broken = false := by
    refine ⟨_, rfl, fun side => ?_, fun side => ?_, rfl⟩ <;> cases side <;> rfl
  obtain ⟨core', session', broken'⟩ := l
  obtain rfl : broken' = false := hbroken
  obtain rfl : core' = _ := funext hcore
  obtain rfl : session' = _ := funext hsession
  exact hrun

theorem run_gate (ar : Arith) (core : Side → AppCore x) (ip : IpAddr) (edge : ScreenEdge) (peer : IpAddr)
    (key : SessionKey) {p q : AppCore x × Session}
    (hp : Session.checkTrust (core .a) (atGate core ip edge peer key .a) (core .b).deviceInfo = p)
    (hq : Session.checkTrust (core .b) (atGate core ip edge peer key .b) (core .a).deviceInfo = q) :
    run (step ar) (initial core ip edge peer key) greetings = some (ofEnds fun
      | .a => p
      | .b => q) := by
  rw [run_greetings, ← hp, ← hq]
  congr 2
  funext side
  cases side <;> rfl

theorem checkTrust_trusted (ip : IpAddr) (edge : ScreenEdge) (peer : IpAddr) (key : SessionKey) {side : Side}
    (h : trusts core side = true) :
    Session.checkTrust (core side) (atGate core ip edge peer key side) (core side.other).deviceInfo =
      (core side, { atGate core ip edge peer key side with phase := .authenticated (core side.other).deviceInfo }) :=
  if_pos h

theorem checkTrust_untrusted (ip : IpAddr) (edge : ScreenEdge) (peer : IpAddr) (key : SessionKey) {side : Side}
    (h : trusts core side = false) :
    Session.checkTrust (core side) (atGate core ip edge peer key side) (core side.other).deviceInfo =
      Session.beginPairing (core side) (atGate core ip edge peer key side) (core side.other).deviceInfo :=
  if_neg (ne_true_of_eq_false h)

theorem exists_run_of_same (ar : Arith) (ip : IpAddr) (edge : ScreenEdge) (peer : IpAddr) (key : SessionKey)
    (hsame : trusts core .a = trusts core .b) :
    ∃ es l, run (step ar) (initial core ip edge peer key) es = some l ∧ .breaks ∉ es ∧
      ∀ side, Trusts core l side ∧ (l.session side).phase = .running (core side.other).deviceInfo := by
  cases ha : trusts core .a with
  | true =>
    have hgate := run_gate ar core ip edge peer key (checkTrust_trusted ip edge peer key ha)
      (checkTrust_trusted ip edge peer key (hsame.symm.trans ha))
    refine ⟨greetings ++ wires, _, (run_append_eq_some _).mpr ⟨_, hgate, rfl⟩, by decide, fun side => ?_⟩
    cases side
    · exact ⟨ha, rfl⟩
    · exact ⟨hsame.symm.trans ha, rfl⟩
  | false =>
    have hgate := run_gate ar core ip edge peer key (checkTrust_untrusted ip edge peer key ha)
      (checkTrust_untrusted ip edge peer key (hsame.symm.trans ha))
    refine ⟨greetings ++ (pairs ++ wires), _, (run_append_eq_some _).mpr ⟨_, hgate, rfl⟩, by decide, fun side => ?_⟩
    have hstored : ∀ side : Side, ((core side).trust.trust (core side.other).deviceInfo.id.id
        (core side.other).deviceInfo.name).isTrusted (core side.other).identity.fingerprint = true := by
      intro side
      rw [TrustStore.isTrusted_trust]
      simp [AppCore.deviceInfo, Identity.deviceId]
    cases side
    · exact ⟨hstored .a, rfl⟩
    · exact ⟨hstored .b, rfl⟩

/-- If one device trusts the other and is not trusted by it, what it sends first ends the other's handshake. -/
theorem exists_run_of_oneSided (ar : Arith) (ip : IpAddr) (edge : ScreenEdge) (peer : IpAddr) (key : SessionKey)
    {side : Side} (hside : trusts core side = true) (hother : trusts core side.other = false) :
    ∃ es l got, run (step ar) (initial core ip edge peer key) es = some l ∧
      (l.session side.other).phase = .ended (some (.unexpectedDuringPairing got)) := by
  cases side with
  | a =>
    have hgate := run_gate ar core ip edge peer key (checkTrust_trusted ip edge peer key hside)
      (checkTrust_untrusted ip edge peer key hother)
    exact ⟨greetings ++ [.act .a (.wire 0 ⟨0, 0, 0, 0⟩ none), .deliver .b], _, _,
      (run_append_eq_some _).mpr ⟨_, hgate, rfl⟩, rfl⟩
  | b =>
    have hgate := run_gate ar core ip edge peer key (checkTrust_untrusted ip edge peer key hother)
      (checkTrust_trusted ip edge peer key hside)
    exact ⟨greetings ++ [.act .b (.wire 0 ⟨0, 0, 0, 0⟩ none), .act .b .tick, .deliver .a], _, _,
      (run_append_eq_some _).mpr ⟨_, hgate, rfl⟩, rfl⟩

/-! ### Compatible handshakes -/

theorem Sim.broken (h : Sim ar reliable core start es l a) {side : Side} {got : ControlMsg}
    (hphase : (l.session side).phase = .ended (some (.unexpectedDuringPairing got))) : (a side).stage = .broken := by
  have habs := (h.party side).stage
  rw [hphase] at habs
  exact habs.2 got rfl

theorem exists_oneSided (hne : trusts core .a ≠ trusts core .b) :
    ∃ side : Side, trusts core side = true ∧ trusts core side.other = false := by
  cases ha : trusts core .a with
  | true => exact ⟨.a, ha, Bool.eq_false_iff.mpr fun hb => hne (ha.trans hb.symm)⟩
  | false => exact ⟨.b, (Bool.not_eq_false _).mp fun hb => hne (ha.trans hb.symm), ha⟩

theorem unbroken_of_same (hsame : trusts core .a = trusts core .b) (hreach : Reach (trusts core) reliable a)
    (side : Side) : (a side).stage ≠ .broken := by
  have hall : ∀ b, trusts core .a = b → ∀ side, trusts core side = b := by
    rintro b hb (_ | _)
    · exact hb
    · exact hsame.symm.trans hb
  cases ha : trusts core .a with
  | true => exact unbroken_of_trusted (hall true ha) hreach side
  | false => exact unbroken_of_untrusted (hall false ha) hreach side

theorem not_trusts_of_oneSided {ip : IpAddr} {edge : ScreenEdge} {peer : IpAddr} {key : SessionKey} {side : Side}
    (hside : trusts core side = true) (hother : trusts core side.other = false)
    (hrun : run (step ar) (initial core ip edge peer key) es = some l)
    (hsettled : (l.session side.other).phase.settled = true) : ¬ Trusts core l side.other := by
  obtain ⟨a, hreach, hsim⟩ := run_refines False core ip edge peer key hrun nofun
  rw [(hsim.settled hsettled).2, hother, or_iff_right Bool.false_ne_true]
  exact (oneSided_of_reach hside hother hreach).alone.2

end Link

end ScreenLink

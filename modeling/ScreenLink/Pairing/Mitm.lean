import ScreenLink.Lib.Machine
import ScreenLink.Session.Tells
import Mathlib.Data.Sym.Sym2

/-!
# A man in the middle of the first pairing

Two devices whose connections both end at an attacker: each session's TLS peer has the attacker's certificate, and the
attacker chooses every message either of them reads. What a side shows and stores comes from the id in the Hello it
accepted (`SideInv`), not from the certificate. So equal codes expose the attacker, and the stored fingerprint is the
certificate's, exactly if the attacker puts the fingerprints of its own certificates into the Hellos
(`mitm_detected_iff`); with the two devices' own ids it relays a pairing that neither user can tell from an honest one
(`relayed_hellos_pair`).
-/

namespace ScreenLink

/-- The code on the screen. -/
def NetEvent.pin? : NetEvent → Option String
  | .pairingPrompt _ _ pin => some pin
  | _ => none

/-- What the message says of the peer, if it is a Hello. -/
def SessionEvent.hello? : SessionEvent → Option DeviceInfo
  | .recv (.hello _ info) => some info
  | _ => none

/-- The codes shown so far. -/
def AppCore.pins {x : Crates} (core : AppCore x) : List String := core.events.filterMap NetEvent.pin?

namespace Phase

theorem info?_of_moves {trusted : String → Bool} {p p' : Phase} {event : SessionEvent} {info : DeviceInfo}
    (h : p.Moves trusted event p') (hp' : p'.info? = some info) :
    p.info? = some info ∨ (p = .hello ∧ event = .recv (.hello PROTOCOL_VERSION info)) := by
  cases h with
  | greeted info' =>
    cases hp'
    exact Or.inr ⟨rfl, rfl⟩
  | remoteBegin info' st | remoteConfirm info' st | localConfirm info' st epoch | otherCmd info' st cmd epoch hcmd =>
    unfold Session.afterSelect at hp'
    split_ifs at hp' <;> exact Or.inl hp'
  | setSlot | trusted | untrusted | stored | wired | running | leave | thread => exact Or.inl hp'
  | _ => cases hp'

end Phase

namespace Session

variable {x : Crates} {ar : Arith} {core : AppCore x} {s : Session} {event : SessionEvent} {p : AppCore x × Session}

theorem pins_tells {core core' : AppCore x} {evs : List NetEvent} (h : AppCore.Tells evs core core') :
    core'.pins = core.pins ++ evs.filterMap NetEvent.pin? := by
  obtain ⟨news, hnews, rfl⟩ := h
  have hpairing : (fun ev => if NetEvent.ofPairing ev = true then NetEvent.pin? ev else none) = NetEvent.pin? := by
    funext ev
    cases ev <;> rfl
  rw [AppCore.pins, hnews, List.filterMap_append, List.filterMap_filter, hpairing]
  rfl

theorem step_pins (hstep : s.step ar core event = some p) :
    p.1.pins = core.pins ∨ ∃ info, s.phase = .gate info ∧
      p.1.pins = core.pins ++ [comparisonPin x core.identity.fingerprint info.id.id] := by
  cases turn_of_step hstep with
  | prompts info hs hprompts htells hnext => exact Or.inr ⟨info, hs, pins_tells htells⟩
  | concludes fp ok hconcludes hasks htells hnone => exact Or.inl ((pins_tells htells).trans (List.append_nil _))
  | abandons fp habandons hasks htells hend => exact Or.inl ((pins_tells htells).trans (List.append_nil _))
  | quiet hprompts hconcludes habandons htells hasks hwaits =>
    exact Or.inl ((pins_tells htells).trans (List.append_nil _))

end Session

/-- Two devices in the middle of whose connection an attacker sits. -/
structure Mitm (x : Crates) where
  core : Side → AppCore x
  session : Side → Session

namespace Mitm

open Machine

variable {x : Crates} {ar : Arith}

/-- The TLS peers have presented the certificates `cert`. -/
def initial (core : Side → AppCore x) (role : Side → Role) (ip : Side → IpAddr) (key : Side → SessionKey)
    (cert : Side → Bytes) : Mitm x where
  core := core
  session side := .new (role side) (ip side) (key side) (cert side)

/-- A step of one side; the messages it reads are the attacker's. -/
def step (ar : Arith) (m : Mitm x) (e : Side × SessionEvent) : Option (Mitm x) :=
  ((m.session e.1).step ar (m.core e.1) e.2).map fun p =>
    { core := Function.update m.core e.1 p.1, session := Function.update m.session e.1 p.2 }

/-- A side accepts a Hello other than `info`. -/
def OtherHello (info : Side → DeviceInfo) (m : Mitm x) (e : Side × SessionEvent) : Prop :=
  ∃ i ∈ e.2.hello?, (m.session e.1).phase = .hello ∧ i ≠ info e.1

instance (info : Side → DeviceInfo) (m : Mitm x) (e : Side × SessionEvent) : Decidable (OtherHello info m e) :=
  inferInstanceAs (Decidable (∃ i ∈ e.2.hello?, _))

/-- `side` has shown the code since the start. -/
def Shows (core : Side → AppCore x) (m : Mitm x) (side : Side) (pin : String) : Prop :=
  ∃ new, (m.core side).pins = (core side).pins ++ new ∧ pin ∈ new

/-- The codes of two pairs of certificates are equal, though the pairs are not. -/
def Collides (x : Crates) (c₁ c₂ c₃ c₄ : Bytes) : Prop :=
  s(fingerprintHex x c₁, fingerprintHex x c₂) ≠ s(fingerprintHex x c₃, fingerprintHex x c₄) ∧
    comparisonPin x (fingerprintHex x c₁) (fingerprintHex x c₂) =
      comparisonPin x (fingerprintHex x c₃) (fingerprintHex x c₄)

/-- If the codes shown are equal, no one sits in the middle, or the codes of the certificates collide. -/
def Detected (core : Side → AppCore x) (cert : Side → Bytes) (m : Mitm x) : Prop :=
  ∀ pin, Shows core m .a pin → Shows core m .b pin →
    (∀ side, cert side = (core side.other).identity.certDer) ∨
      Collides x (core .a).identity.certDer (cert .a) (core .b).identity.certDer (cert .b)

/-- What a side has stored since the start is its TLS peer's fingerprint. -/
def StoresPeer (core : Side → AppCore x) (cert : Side → Bytes) (m : Mitm x) : Prop :=
  ∀ side fp, (m.core side).trust.isTrusted fp = true → (core side).trust.isTrusted fp = false →
    fp = fingerprintHex x (cert side)

/-! ### What a side goes by -/

/-- A side goes by the Hello it has accepted. -/
structure SideInv (core₀ : AppCore x) (info : DeviceInfo) (core : AppCore x) (s : Session) : Prop where
  identity : core.identity = core₀.identity
  peer : ∀ i, s.phase.info? = some i → i = info
  pins : ∃ new, core.pins = core₀.pins ++ new ∧
    ∀ pin ∈ new, pin = comparisonPin x core₀.identity.fingerprint info.id.id
  trust : ∀ fp, core.trust.isTrusted fp = true → core₀.trust.isTrusted fp = true ∨ fp = info.id.id

variable {core₀ core : AppCore x} {info : DeviceInfo} {s : Session} {event : SessionEvent}
  {p : AppCore x × Session}

theorem SideInv.step (h : SideInv core₀ info core s) (hstep : s.step ar core event = some p)
    (hhello : ∀ i ∈ event.hello?, s.phase = .hello → i = info) : SideInv core₀ info p.1 p.2 := by
  constructor
  case identity => exact (Session.step_const hstep).2.2.2.1.trans h.identity
  case peer =>
    intro i hi
    rcases Phase.info?_of_moves (Session.step_moves hstep) hi with hold | ⟨hphase, hevent⟩
    · exact h.peer i hold
    · exact hhello i (by rw [hevent]; rfl) hphase
  case pins =>
    obtain ⟨new, hnew, hall⟩ := h.pins
    rcases Session.step_pins hstep with hsame | ⟨i, hphase, hmore⟩
    · exact ⟨new, hsame.trans hnew, hall⟩
    · obtain rfl : i = info := h.peer i (by rw [hphase]; rfl)
      refine ⟨new ++ [comparisonPin x core.identity.fingerprint i.id.id], by rw [hmore, hnew, List.append_assoc], ?_⟩
      intro pin hpin
      rcases List.mem_append.mp hpin with hold | hlast
      · exact hall pin hold
      · rw [List.mem_singleton.mp hlast, h.identity]
  case trust =>
    intro fp hfp
    by_cases hstore : ∃ err, event = .store err
    · obtain ⟨err, rfl⟩ := hstore
      obtain ⟨i, hphase, htrust, -⟩ := Session.step_store hstep
      obtain rfl : i = info := h.peer i (by rw [hphase]; rfl)
      rw [htrust, TrustStore.isTrusted_trust, Bool.or_eq_true_iff, decide_eq_true_iff] at hfp
      exact hfp.elim Or.inr (h.trust fp)
    · by_cases hslot : event = .setSlot
      · subst hslot
        obtain ⟨i, -, rfl⟩ := Session.step_setSlot hstep
        exact h.trust fp hfp
      · rw [(Session.step_frame hstep hslot fun err heq => hstore ⟨err, heq⟩).trust] at hfp
        exact h.trust fp hfp

variable {core : Side → AppCore x} {role : Side → Role} {ip : Side → IpAddr} {key : Side → SessionKey}
  {cert : Side → Bytes} {info : Side → DeviceInfo} {es : List (Side × SessionEvent)} {m : Mitm x}

theorem run_sideInv (hrun : run (step ar) (initial core role ip key cert) es = some m)
    (hhello : ¬ Seen (step ar) (OtherHello info) (initial core role ip key cert) es) (side : Side) :
    SideInv (core side) (info side) (m.core side) (m.session side) := by
  have hall : ¬ Seen (step ar) (OtherHello info) (initial core role ip key cert) es →
      ∀ side, SideInv (core side) (info side) (m.core side) (m.session side) := by
    refine run_induction (P := fun es m => ¬ Seen (step ar) (OtherHello info) (initial core role ip key cert) es →
      ∀ side, SideInv (core side) (info side) (m.core side) (m.session side)) ?_ ?_ es m hrun
    · exact fun _ side => ⟨rfl, nofun, ⟨[], (List.append_nil _).symm, nofun⟩, fun _ => Or.inl⟩
    · rintro es m ⟨side, event⟩ m' hrun ih hstep hnot side'
      rw [seen_snoc hrun, not_or] at hnot
      obtain ⟨p, hp, rfl⟩ := Option.map_eq_some_iff.mp hstep
      have hside := ih hnot.1
      by_cases hsame : side' = side
      · subst hsame
        simp only [Function.update_self]
        exact (hside side').step hp fun i hi hphase => by_contra fun hne => hnot.2 ⟨i, hi, hphase, hne⟩
      · simp only [Function.update_of_ne hsame]
        exact hside side'
  exact hall hhello side

/-! ### The codes of certificates -/

/-- SHA-256 does not collide on the four certificates. -/
def Separates (x : Crates) (core : Side → AppCore x) (cert : Side → Bytes) : Prop :=
  ∀ c ∈ [(core .a).identity.certDer, (core .b).identity.certDer, cert .a, cert .b],
    ∀ c' ∈ [(core .a).identity.certDer, (core .b).identity.certDer, cert .a, cert .b],
      x.sha256 c = x.sha256 c' → c = c'

theorem swapped_or_collides (hsha : Separates x core cert)
    (hdistinct : (core .a).identity.certDer ≠ (core .b).identity.certDer)
    (hpins : comparisonPin x (fingerprintHex x (core .a).identity.certDer) (fingerprintHex x (cert .a)) =
      comparisonPin x (fingerprintHex x (core .b).identity.certDer) (fingerprintHex x (cert .b))) :
    (∀ side, cert side = (core side.other).identity.certDer) ∨
      Collides x (core .a).identity.certDer (cert .a) (core .b).identity.certDer (cert .b) := by
  have hinj : ∀ c ∈ [(core .a).identity.certDer, (core .b).identity.certDer, cert .a, cert .b],
      ∀ c' ∈ [(core .a).identity.certDer, (core .b).identity.certDer, cert .a, cert .b],
        fingerprintHex x c = fingerprintHex x c' → c = c' :=
    fun c hc c' hc' heq => hsha c hc c' hc' (sha256_of_fingerprint heq)
  by_cases hpairs : s(fingerprintHex x (core .a).identity.certDer, fingerprintHex x (cert .a)) =
      s(fingerprintHex x (core .b).identity.certDer, fingerprintHex x (cert .b))
  · rcases Sym2.eq_iff.mp hpairs with ⟨hsame, -⟩ | ⟨hab, hba⟩
    · exact absurd (hinj _ (by simp) _ (by simp) hsame) hdistinct
    · have hb : cert .a = (core .b).identity.certDer := hinj _ (by simp) _ (by simp) hba
      have ha : (core .a).identity.certDer = cert .b := hinj _ (by simp) _ (by simp) hab
      refine Or.inl fun side => ?_
      cases side
      · exact hb
      · exact ha.symm
  · exact Or.inr ⟨hpairs, hpins⟩

theorem detected_of_sideInv (hsha : Separates x core cert)
    (hdistinct : (core .a).identity.certDer ≠ (core .b).identity.certDer)
    (hinv : ∀ side, SideInv (core side) (info side) (m.core side) (m.session side))
    (hids : ∀ side, (info side).id.id = fingerprintHex x (cert side)) : Detected core cert m := by
  have hpin : ∀ side pin, Shows core m side pin →
      pin = comparisonPin x (fingerprintHex x (core side).identity.certDer) (fingerprintHex x (cert side)) := by
    rintro side pin ⟨new, hnew, hmem⟩
    obtain ⟨new', hnew', hall⟩ := (hinv side).pins
    obtain rfl : new = new' := List.append_cancel_left (hnew.symm.trans hnew')
    rw [hall pin hmem, hids, (core side).identity.fingerprint_eq]
  intro pin ha hb
  exact swapped_or_collides hsha hdistinct ((hpin .a pin ha).symm.trans (hpin .b pin hb))

theorem storesPeer_of_sideInv (hinv : ∀ side, SideInv (core side) (info side) (m.core side) (m.session side))
    (hids : ∀ side, (info side).id.id = fingerprintHex x (cert side)) : StoresPeer core cert m := by
  intro side fp htrusted hnot
  rcases (hinv side).trust fp htrusted with hold | hnew
  · exact Bool.noConfusion (hnot.symm.trans hold)
  · rw [hnew, hids]

/-! ### A pairing with the attacker -/

/-- What happens in a first pairing whose Hello is `info`, up to the trust store's answer. -/
def greeting (info : DeviceInfo) : List SessionEvent :=
  [.sayHello, .recv (.hello PROTOCOL_VERSION info), .setSlot, .checkTrust]

/-- The user and the attacker confirm. -/
def confirming : List SessionEvent := [.cmd .confirm 0, .recv .pairConfirm, .store none]

theorem run_alone (ar : Arith) (side : Side) (evs : List SessionEvent) {m : Mitm x} {p : AppCore x × Session}
    (h : run (fun q ev => Session.step ar q.1 q.2 ev) (m.core side, m.session side) evs = some p) :
    run (step ar) m (evs.map (side, ·)) =
      some { core := Function.update m.core side p.1, session := Function.update m.session side p.2 } := by
  induction evs generalizing m with
  | nil =>
    cases h
    simp [run]
  | cons ev evs ih =>
    obtain ⟨q, hq, hrest⟩ := Option.bind_eq_some_iff.mp h
    rw [List.map_cons, run]
    rw [show step ar m (side, ev) = some { core := Function.update m.core side q.1
                                           session := Function.update m.session side q.2 } by
      simp [step, hq]]
    rw [Option.bind_some, ih (m := { core := Function.update m.core side q.1
                                     session := Function.update m.session side q.2 }) (by simpa using hrest)]
    simp

theorem exists_pairing (ar : Arith) (core : AppCore x) (role : Role) (ip : IpAddr) (key : SessionKey) (cert : Bytes)
    {info : DeviceInfo} (hfirst : core.trust.isTrusted info.id.id = false) :
    ∃ p, run (fun q ev => Session.step ar q.1 q.2 ev) (core, Session.new role ip key cert)
        (greeting info ++ confirming) = some p ∧ p.1.trust = core.trust.trust info.id.id info.name := by
  have hgate : run (fun q ev => Session.step ar q.1 q.2 ev) (core, Session.new role ip key cert) (greeting info) =
      some (Session.checkTrust core { (Session.new role ip key cert).sayHello core with
        phase := .gate info
        slot := some info.id.id } info) := rfl
  rw [Session.checkTrust, if_neg (ne_true_of_eq_false hfirst)] at hgate
  exact ⟨_, (run_append_eq_some _).mpr ⟨_, hgate, rfl⟩, rfl⟩

/-- At a first pairing, whatever certificates the attacker has and whatever Hellos it sends: equal codes expose it and
a side stores its peer's fingerprint, in every run, if and only if the ids in the Hellos are the fingerprints of the
attacker's certificates. -/
theorem mitm_detected_iff (ar : Arith) (role : Side → Role) (ip : Side → IpAddr) (key : Side → SessionKey)
    (hsha : Separates x core cert) (hdistinct : (core .a).identity.certDer ≠ (core .b).identity.certDer)
    (hfirst : ∀ side, (core side).trust.isTrusted (info side).id.id = false) :
    (∀ es m, run (step ar) (initial core role ip key cert) es = some m →
        ¬ Seen (step ar) (OtherHello info) (initial core role ip key cert) es →
        Detected core cert m ∧ StoresPeer core cert m) ↔
      ∀ side, (info side).id.id = fingerprintHex x (cert side) := by
  constructor
  · intro hsafe side
    obtain ⟨p, hp, htrust⟩ := exists_pairing ar (core side) (role side) (ip side) (key side) (cert side) (hfirst side)
    have hrun := run_alone ar side _ (m := initial core role ip key cert) hp
    refine (hsafe _ _ hrun ?_).2 side _ ?_ (hfirst side)
    · rintro ⟨es₁, e, es₂, t, heq, -, i, hi, -, hne⟩
      have hmem : e ∈ (greeting (info side) ++ confirming).map (side, ·) := by
        rw [heq]
        simp
      obtain ⟨ev, hev, rfl⟩ := List.mem_map.mp hmem
      have hall : ∀ ev ∈ greeting (info side) ++ confirming, ∀ i ∈ ev.hello?, i = info side := by
        simp [greeting, confirming, SessionEvent.hello?]
      exact hne (hall ev hev i hi)
    · simp [htrust, TrustStore.isTrusted_trust]
  · intro hids es m hrun hhello
    have hinv := run_sideInv hrun hhello
    exact ⟨detected_of_sideInv hsha hdistinct hinv hids, storesPeer_of_sideInv hinv hids⟩

/-- Both connections end at Mallory. -/
def mallorysCert (_ : Side) : Bytes := certMallory

/-- Alice has connected to Bob, and both are connected to Mallory. -/
def mallory : Mitm demoCrates :=
  initial strangers (fun | .a => .controller (.v4 0x0A000002) .right | .b => .controlled) (fun _ => .v4 0x0A000004)
    (fun _ => demoKey) mallorysCert

/-- Mallory sends each the Hello `info`, and both users confirm. -/
def mallorysRun (info : Side → DeviceInfo) : List (Side × SessionEvent) :=
  (greeting (info .a) ++ confirming).map (Side.a, ·) ++ (greeting (info .b) ++ confirming).map (Side.b, ·)

/-- Mallory relays the two devices' Hellos: both show one code, though no code of certificates collides, and both store
the other device's fingerprint, which is not their peer's. -/
theorem relayed_hellos_pair :
    ∃ m, run (step .exact) mallory (mallorysRun fun side => (strangers side.other).deviceInfo) = some m ∧
      (∀ side, Shows strangers m side "952777") ∧ ¬ Detected strangers mallorysCert m ∧
      ¬ StoresPeer strangers mallorysCert m := by
  obtain ⟨m, hrun, ha, hb, htrusts, hnew⟩ : ∃ m,
      run (step .exact) mallory (mallorysRun fun side => (strangers side.other).deviceInfo) = some m ∧
      (m.core .a).pins = (strangers .a).pins ++ ["952777"] ∧
      (m.core .b).pins = (strangers .b).pins ++ ["952777"] ∧
      (m.core .a).trust.isTrusted fpBob = true ∧ (strangers .a).trust.isTrusted fpBob = false :=
    exists_run (by decide +kernel)
  have hpins : ∀ side, (m.core side).pins = (strangers side).pins ++ ["952777"] := by
    intro side
    cases side
    · exact ha
    · exact hb
  have hshows : ∀ side, Shows strangers m side "952777" := fun side => ⟨_, hpins side, List.mem_singleton_self _⟩
  refine ⟨m, hrun, hshows, fun hdetected => ?_, fun hstores => ?_⟩
  · rcases hdetected _ (hshows .a) (hshows .b) with hswapped | ⟨-, hcollides⟩
    · exact absurd (hswapped .a) (by decide)
    · revert hcollides
      decide +kernel
  · exact absurd (hstores .a fpBob htrusts hnew) (by decide +kernel)

/-- What Mallory says of itself. -/
def mallorysInfo (_ : Side) : DeviceInfo := (demoCore certMallory "mallory" []).deviceInfo

/-- With its own id in both Hellos Mallory makes the devices show different codes. -/
theorem mitm_detected_iff_ownHellos :
    ∃ m, run (step .exact) mallory (mallorysRun mallorysInfo) = some m ∧ Shows strangers m .a "894266" ∧
      Shows strangers m .b "421892" ∧ Detected strangers mallorysCert m ∧ StoresPeer strangers mallorysCert m := by
  obtain ⟨m, hrun, ha, hb⟩ : ∃ m, run (step .exact) mallory (mallorysRun mallorysInfo) = some m ∧
      (m.core .a).pins = (strangers .a).pins ++ ["894266"] ∧ (m.core .b).pins = (strangers .b).pins ++ ["421892"] :=
    exists_run (by decide +kernel)
  have hhello : ¬ Seen (step .exact) (OtherHello mallorysInfo) mallory (mallorysRun mallorysInfo) := by decide +kernel
  refine ⟨m, hrun, ⟨_, ha, List.mem_singleton_self _⟩, ⟨_, hb, List.mem_singleton_self _⟩,
    (mitm_detected_iff .exact _ _ _ ?_ ?_ fun side => ?_).mpr (fun side => ?_) _ m hrun hhello⟩
  · unfold Separates
    decide +kernel
  · decide
  · cases side <;> decide +kernel
  · cases side <;> decide +kernel

end Mitm

end ScreenLink

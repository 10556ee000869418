import Mathlib.Data.List.Infix
import ScreenLink.Discovery.Peers
import ScreenLink.Lib.Machine

/-!
# Devices that come and go

`discovery/src/lib.rs`: the thread of `start_mdns`. A resolved service is put under its fingerprint; when a service is
removed, every peer goes whose name occurs in the service's full name. `live` is what the network says: the services
resolved and not removed since, by full name. The peers are those of the live services after every event iff no event
is one of `Misses` (`browse_exact_iff`); none is when the devices' names keep them apart (`exact_of_apart`).
-/

namespace ScreenLink

open Machine

/-- A resolved service, as the thread reads it. -/
structure ServiceInfo where
  fullname : String
  /-- The TXT properties `fp` and `name`. -/
  fp : Option String
  name : Option String
  addrs : List IpAddr
  port : BitVec 16
  deriving DecidableEq

inductive ServiceEvent
  | resolved (info : ServiceInfo)
  | removed (fullname : String)
  deriving DecidableEq

def MDNS_SERVICE_TYPE : String := "_screenlink._tcp.local."

/-- The instance name that a device registers. -/
def instanceName (deviceName fingerprint : String) : String :=
  deviceName ++ " [" ++ String.ofList (fingerprint.toList.take 12) ++ "]"

/-- `retain` of a hash map. -/
def retain (m : AList fun _ : String => DiscoveredPeer) (keep : DiscoveredPeer → Bool) :
    AList fun _ : String => DiscoveredPeer :=
  ⟨m.entries.filter fun e => keep e.2, m.nodupKeys.sublist List.filter_sublist⟩

/-- `fullname.contains(&name)` -/
def contains (fullname name : String) : Bool := decide (name.toList <:+: fullname.toList)

namespace ServiceInfo

/-- The service that a device registers. -/
def ofDevice (deviceName fingerprint : String) (addrs : List IpAddr) (controlPort : BitVec 16) : ServiceInfo where
  fullname := instanceName deviceName fingerprint ++ "." ++ MDNS_SERVICE_TYPE
  fp := some fingerprint
  name := some deviceName
  addrs := addrs
  port := controlPort

def fingerprint (info : ServiceInfo) : String := info.fp.getD ""

/-- What the thread lists for the service. -/
def peer (info : ServiceInfo) : DiscoveredPeer where
  fingerprint := info.fingerprint
  name := info.name.getD info.fullname
  addrs := info.addrs
  port := info.port
  source := .mdns

/-- Under which key. -/
def key (info : ServiceInfo) : String := if info.fingerprint = "" then info.fullname else info.fingerprint

/-- The entry for the service, unless it is our own. -/
def entry (our : String) (info : ServiceInfo) : Option (String × DiscoveredPeer) :=
  if info.fingerprint = our then none else some (info.key, info.peer)

end ServiceInfo

/-- The thread's loop body. -/
def Discovery.onEvent (d : Discovery) : ServiceEvent → Discovery
  | .resolved info =>
    if info.fingerprint = d.ourFingerprint then d
    else { d with mdnsPeers := d.mdnsPeers.insert info.key info.peer }
  | .removed fullname => { d with mdnsPeers := retain d.mdnsPeers fun p => !contains fullname p.name }

/-- The thread's state, and the live services. -/
structure Browse where
  disc : Discovery
  live : AList fun _ : String => ServiceInfo := ∅

namespace Browse

/-- The live services after an event. -/
def liveAfter (b : Browse) : ServiceEvent → AList fun _ : String => ServiceInfo
  | .resolved info => b.live.insert info.fullname info
  | .removed fullname => b.live.erase fullname

def next (b : Browse) (e : ServiceEvent) : Browse := ⟨b.disc.onEvent e, b.liveAfter e⟩

/-- Any event can come. -/
def step (b : Browse) (e : ServiceEvent) : Option Browse := some (b.next e)

/-- As `start` makes it. -/
def start (our : String) (manual : List DiscoveredPeer) : Browse := { disc := ⟨our, ∅, manual⟩ }

/-- The entry of the live service with this full name. -/
def own (b : Browse) (fullname : String) : Option (String × DiscoveredPeer) :=
  (b.live.lookup fullname).bind (·.entry b.disc.ourFingerprint)

/-- Some live service other than `except` has this entry. -/
def Others (b : Browse) (except : String) (e : String × DiscoveredPeer) : Prop :=
  ∃ fullname, fullname ≠ except ∧ b.own fullname = some e

/-- The peers are those of the live services, service by service: an entry is there, with its data, iff a live service
makes it. -/
def Exact (b : Browse) : Prop :=
  ∀ e : String × DiscoveredPeer, b.disc.mdnsPeers.lookup e.1 = some e.2 ↔ ∃ fullname, b.own fullname = some e

theorem Exact.listed_iff {b : Browse} (hexact : b.Exact) (key : String) :
    key ∈ b.disc.mdnsPeers ↔ ∃ fullname peer, b.own fullname = some (key, peer) := by
  rw [← AList.lookup_isSome, Option.isSome_iff_exists]
  constructor
  · rintro ⟨peer, hpeer⟩
    obtain ⟨fullname, hown⟩ := (hexact (key, peer)).mp hpeer
    exact ⟨fullname, peer, hown⟩
  · rintro ⟨fullname, peer, hown⟩
    exact ⟨peer, (hexact (key, peer)).mpr ⟨fullname, hown⟩⟩

/-- The event makes the peers differ from the live services. A removal does if the full name contains the name of a peer
whose own service stays, or does not contain the name of the peer that leaves; a resolved service does if another one
is live under the same key with different data, or if it has given up its old key and no other service has it. -/
def Misses (b : Browse) : ServiceEvent → Prop
  | .removed fullname => ∃ e : String × DiscoveredPeer,
      b.Others fullname e ∧ contains fullname e.2.name = true ∨
        b.own fullname = some e ∧ ¬ b.Others fullname e ∧ contains fullname e.2.name = false
  | .resolved info => ∃ e : String × DiscoveredPeer,
      b.Others info.fullname e ∧ (∃ p ≠ e.2, info.entry b.disc.ourFingerprint = some (e.1, p)) ∨
        b.own info.fullname = some e ∧ ¬ b.Others info.fullname e ∧
          ∀ p, info.entry b.disc.ourFingerprint ≠ some (e.1, p)

/-! ### One event -/

variable {b : Browse} {e : String × DiscoveredPeer}

theorem lookup_retain (m : AList fun _ : String => DiscoveredPeer) (keep : DiscoveredPeer → Bool) (k : String)
    (p : DiscoveredPeer) : (retain m keep).lookup k = some p ↔ m.lookup k = some p ∧ keep p = true := by
  have hmem : ∀ {m : AList fun _ : String => DiscoveredPeer}, m.lookup k = some p ↔ Sigma.mk k p ∈ m.entries :=
    AList.mem_lookup_iff
  rw [hmem, hmem]
  exact List.mem_filter

theorem exists_own_iff (except : String) :
    (∃ fullname, b.own fullname = some e) ↔ b.own except = some e ∨ b.Others except e := by
  constructor
  · rintro ⟨fullname, h⟩
    by_cases heq : fullname = except
    · exact Or.inl (heq ▸ h)
    · exact Or.inr ⟨fullname, heq, h⟩
  · rintro (h | ⟨fullname, -, h⟩)
    · exact ⟨except, h⟩
    · exact ⟨fullname, h⟩

@[simp] theorem ourFingerprint_next (b : Browse) (e : ServiceEvent) :
    (b.next e).disc.ourFingerprint = b.disc.ourFingerprint := by
  cases e with
  | resolved info =>
    simp only [next, Discovery.onEvent]
    split_ifs <;> rfl
  | removed fullname => rfl

theorem own_next_of_ne (event : ServiceEvent) {fullname : String}
    (hne : ∀ info, event = .resolved info → fullname ≠ info.fullname) (hne' : event ≠ .removed fullname) :
    (b.next event).own fullname = b.own fullname := by
  simp only [own, ourFingerprint_next]
  congr 1
  cases event with
  | resolved info => exact AList.lookup_insert_ne (hne info rfl)
  | removed f => exact AList.lookup_erase_ne fun h => hne' (h ▸ rfl)

theorem others_next_removed (b : Browse) (fullname : String) :
    (∃ g, (b.next (.removed fullname)).own g = some e) ↔ b.Others fullname e := by
  have hgone : (b.next (.removed fullname)).own fullname = none := by simp [own, next, liveAfter]
  have hrest : ∀ g ≠ fullname, (b.next (.removed fullname)).own g = b.own g := fun g hg =>
    own_next_of_ne _ nofun fun h => hg (ServiceEvent.removed.inj h).symm
  rw [exists_own_iff fullname, hgone]
  simp only [reduceCtorEq, false_or, Others]
  exact exists_congr fun g => and_congr_right fun hg => by rw [hrest g hg]

theorem others_next_resolved (b : Browse) (info : ServiceInfo) :
    (∃ g, (b.next (.resolved info)).own g = some e) ↔
      info.entry b.disc.ourFingerprint = some e ∨ b.Others info.fullname e := by
  have hnew : (b.next (.resolved info)).own info.fullname = info.entry b.disc.ourFingerprint := by
    simp only [own, ourFingerprint_next]
    simp [next, liveAfter]
  have hrest : ∀ g ≠ info.fullname, (b.next (.resolved info)).own g = b.own g := fun g hg =>
    own_next_of_ne _ (fun i hi => by cases hi; exact hg) nofun
  rw [exists_own_iff info.fullname, hnew]
  refine or_congr_right ?_
  exact exists_congr fun g => and_congr_right fun hg => by rw [hrest g hg]

theorem leaves_iff {own others : Prop} (lost : Prop) :
    ((own ∨ others) ∧ ¬ lost ↔ others) ↔ ¬ (others ∧ lost ∨ own ∧ ¬ others ∧ ¬ lost) := by
  tauto

theorem exact_removed_iff (hexact : b.Exact) (fullname : String) :
    (b.next (.removed fullname)).Exact ↔ ¬ b.Misses (.removed fullname) := by
  unfold Exact Misses
  rw [not_exists]
  refine forall_congr' fun e => ?_
  have hlookup : (b.next (.removed fullname)).disc.mdnsPeers.lookup e.1 = some e.2 ↔
      (b.own fullname = some e ∨ b.Others fullname e) ∧ ¬ contains fullname e.2.name = true := by
    rw [← exists_own_iff fullname, ← hexact e, Bool.not_eq_true, ← Bool.not_eq_true']
    exact lookup_retain ..
  rw [hlookup, others_next_removed, ← Bool.not_eq_true]
  exact leaves_iff _

theorem lookup_next_resolved (b : Browse) (info : ServiceInfo) :
    (b.next (.resolved info)).disc.mdnsPeers.lookup e.1 = some e.2 ↔
      info.entry b.disc.ourFingerprint = some e ∨
        b.disc.mdnsPeers.lookup e.1 = some e.2 ∧ ∀ p, info.entry b.disc.ourFingerprint ≠ some (e.1, p) := by
  simp only [next, Discovery.onEvent, ServiceInfo.entry]
  by_cases hours : info.fingerprint = b.disc.ourFingerprint
  · simp [hours]
  · obtain ⟨k, p⟩ := e
    simp only [if_neg hours, Option.some.injEq, Prod.mk.injEq]
    by_cases hk : k = info.key
    · subst hk
      simp
    · rw [AList.lookup_insert_ne hk]
      simp [Ne.symm hk]

theorem exact_resolved_iff (hexact : b.Exact) (info : ServiceInfo) :
    (b.next (.resolved info)).Exact ↔ ¬ b.Misses (.resolved info) := by
  unfold Exact Misses
  rw [not_exists]
  refine forall_congr' fun e => ?_
  rw [lookup_next_resolved, hexact e, exists_own_iff info.fullname, others_next_resolved]
  by_cases hnew : info.entry b.disc.ourFingerprint = some e
  · -- the new entry is there in any case
    refine iff_of_true (iff_of_true (Or.inl hnew) (Or.inl hnew)) ?_
    rintro (⟨-, p, hne, hp⟩ | ⟨-, -, hgone⟩)
    · exact hne (congrArg Prod.snd (Option.some.inj (hp.symm.trans hnew)))
    · exact hgone e.2 hnew
  · have hkey : (∃ p ≠ e.2, info.entry b.disc.ourFingerprint = some (e.1, p)) ↔
        ¬ ∀ p, info.entry b.disc.ourFingerprint ≠ some (e.1, p) := by
      rw [not_forall]
      refine exists_congr fun p => ?_
      rw [not_not]
      exact and_iff_right_of_imp fun hp heq => hnew (by rw [hp, heq])
    rw [or_iff_right hnew, or_iff_right hnew, hkey]
    simpa only [not_not] using leaves_iff (¬ ∀ p, info.entry b.disc.ourFingerprint ≠ some (e.1, p))

theorem exact_next_iff (hexact : b.Exact) (event : ServiceEvent) : (b.next event).Exact ↔ ¬ b.Misses event := by
  cases event with
  | resolved info => exact exact_resolved_iff hexact info
  | removed fullname => exact exact_removed_iff hexact fullname

/-! ### Any events -/

theorem exact_start (our : String) (manual : List DiscoveredPeer) : (start our manual).Exact := by
  intro e
  simp [start, own, AList.lookup_empty]

/-- In every run of events: the peers are those of the services that were resolved and not removed since, after each of
them, iff no event misses. -/
theorem browse_exact_iff (our : String) (manual : List DiscoveredPeer) (events : List ServiceEvent) :
    (∀ front back b, events = front ++ back → run step (start our manual) front = some b → b.Exact) ↔
      ¬ Seen step Misses (start our manual) events := by
  obtain ⟨b, hrun⟩ := exists_run_of_total step (fun _ _ => ⟨_, rfl⟩) (start our manual) events
  refine always_good_iff (A := fun _ => True) (exact_start our manual) trivial ?_ hrun
  intro b event b' hexact _ hstep
  obtain rfl := Option.some.inj hstep
  exact ⟨exact_next_iff hexact event, fun _ => trivial⟩

/-! ### Devices whose names keep them apart -/

/-- A device on the network, by what its service says of it. -/
structure Device where
  name : String
  fingerprint : String

/-- The full name of its service. -/
def Device.fullname (d : Device) : String := instanceName d.name d.fingerprint ++ "." ++ MDNS_SERVICE_TYPE

/-- No two of the devices share a fingerprint, and no device's name occurs in the full name of another. -/
structure Apart (devices : Set Device) : Prop where
  known : ∀ d ∈ devices, d.fingerprint ≠ ""
  fingerprints : ∀ d ∈ devices, ∀ d' ∈ devices, d.fingerprint = d'.fingerprint → d = d'
  names : ∀ d ∈ devices, ∀ d' ∈ devices, contains d'.fullname d.name = true → d = d'

/-- The event is about the service of one of the devices. -/
def About (devices : Set Device) : ServiceEvent → Prop
  | .resolved info => ∃ d ∈ devices, ∃ addrs port, info = .ofDevice d.name d.fingerprint addrs port
  | .removed fullname => ∃ d ∈ devices, fullname = d.fullname

/-- Every live service is that of one of the devices. -/
def Registered (devices : Set Device) (b : Browse) : Prop :=
  ∀ fullname info, b.live.lookup fullname = some info →
    ∃ d ∈ devices, fullname = d.fullname ∧ ∃ addrs port, info = .ofDevice d.name d.fingerprint addrs port

theorem contains_fullname (d : Device) : contains d.fullname d.name = true := by
  simp only [contains, Device.fullname, instanceName, String.toList_append, decide_eq_true_eq, List.append_assoc]
  exact (List.prefix_append ..).isInfix

variable {devices : Set Device}

theorem Registered.next {event : ServiceEvent} (hreg : Registered devices b) (habout : About devices event) :
    Registered devices (b.next event) := by
  intro fullname info hlookup
  cases event with
  | resolved new =>
    obtain ⟨d, hd, addrs, port, rfl⟩ := habout
    rcases eq_or_ne fullname d.fullname with rfl | hne
    · cases (AList.lookup_insert _).symm.trans hlookup
      exact ⟨d, hd, rfl, addrs, port, rfl⟩
    · exact hreg fullname info ((AList.lookup_insert_ne hne).symm.trans hlookup)
  | removed gone =>
    rcases eq_or_ne fullname gone with rfl | hne
    · cases (AList.lookup_erase _ _).symm.trans hlookup
    · exact hreg fullname info ((AList.lookup_erase_ne hne).symm.trans hlookup)

theorem entry_ofDevice {our : String} {d : Device} (hknown : d.fingerprint ≠ "") {addrs : List IpAddr}
    {port : BitVec 16} : (ServiceInfo.ofDevice d.name d.fingerprint addrs port).entry our = some e ↔
      d.fingerprint ≠ our ∧ e = (d.fingerprint, (ServiceInfo.ofDevice d.name d.fingerprint addrs port).peer) := by
  have hkey : (ServiceInfo.ofDevice d.name d.fingerprint addrs port).key = d.fingerprint := if_neg hknown
  have hfp : (ServiceInfo.ofDevice d.name d.fingerprint addrs port).fingerprint = d.fingerprint := rfl
  rw [ServiceInfo.entry, hfp, hkey]
  by_cases hours : d.fingerprint = our
  · rw [if_pos hours]
    exact iff_of_false nofun fun h => h.1 hours
  · rw [if_neg hours, Option.some_inj, eq_comm]
    exact (and_iff_right hours).symm

theorem Registered.own (hreg : Registered devices b) (hapart : Apart devices) {fullname : String}
    (h : b.own fullname = some e) : ∃ d ∈ devices, fullname = d.fullname ∧ d.fingerprint ≠ b.disc.ourFingerprint ∧
      e.1 = d.fingerprint ∧ e.2.name = d.name := by
  obtain ⟨info, hlookup, hentry⟩ := Option.bind_eq_some_iff.mp h
  obtain ⟨d, hd, hname, addrs, port, rfl⟩ := hreg fullname info hlookup
  obtain ⟨hours, rfl⟩ := (entry_ofDevice (hapart.known d hd)).mp hentry
  exact ⟨d, hd, hname, hours, rfl, rfl⟩

theorem not_misses_of_apart (hapart : Apart devices) (hreg : Registered devices b) {event : ServiceEvent}
    (habout : About devices event) : ¬ b.Misses event := by
  cases event with
  | removed fullname =>
    obtain ⟨d, hd, rfl⟩ := habout
    rintro ⟨e, ⟨⟨other, hother, hown⟩, hcontains⟩ | ⟨hown, -, hcontains⟩⟩
    · obtain ⟨d', hd', rfl, -, -, hname⟩ := hreg.own hapart hown
      exact hother (hapart.names d' hd' d hd (hname ▸ hcontains) ▸ rfl)
    · obtain ⟨d', -, hfull, -, -, hname⟩ := hreg.own hapart hown
      rw [hfull, hname, contains_fullname] at hcontains
      cases hcontains
  | resolved info =>
    obtain ⟨d, hd, addrs, port, rfl⟩ := habout
    rintro ⟨e, ⟨⟨other, hother, hown⟩, p, -, hentry⟩ | ⟨hown, -, hgone⟩⟩
    · obtain ⟨d', hd', rfl, -, hkey, -⟩ := hreg.own hapart hown
      obtain ⟨-, hkey'⟩ := (entry_ofDevice (hapart.known d hd)).mp hentry
      have hsame : d'.fingerprint = d.fingerprint := hkey.symm.trans (congrArg Prod.fst hkey')
      exact hother (hapart.fingerprints d' hd' d hd hsame ▸ rfl)
    · -- the service that is resolved again is the device's own, with the key that it had
      obtain ⟨d', hd', hfull, hours, hkey, -⟩ := hreg.own hapart hown
      have hfull : d.fullname = d'.fullname := hfull
      obtain rfl : d' = d := hapart.names d' hd' d hd (by rw [hfull, contains_fullname])
      exact hgone _ ((entry_ofDevice (hapart.known d' hd)).mpr ⟨hours, by rw [hkey]⟩)

/-- Where the names keep the devices apart, the peers are those of the live services after any events. -/
theorem exact_of_apart (hapart : Apart devices) (our : String) (manual : List DiscoveredPeer)
    {events : List ServiceEvent} (habout : ∀ event ∈ events, About devices event) {b : Browse}
    (hrun : run step (start our manual) events = some b) : b.Exact := by
  refine (run_induction (P := fun events b => (∀ event ∈ events, About devices event) →
    b.Exact ∧ Registered devices b) (fun _ => ⟨exact_start our manual, ?_⟩) ?_ events b hrun habout).1
  · intro fullname info hlookup
    cases hlookup
  · intro front b event b' _ ih hstep habout
    obtain rfl := Option.some.inj hstep
    obtain ⟨hexact, hreg⟩ := ih fun e he => habout e (List.mem_append_left _ he)
    have hevent : About devices event := habout event (by simp)
    exact ⟨(exact_next_iff hexact event).mpr (not_misses_of_apart hapart hreg hevent), hreg.next hevent⟩

/-- Alice's computer and her laptop. -/
def computer : ServiceInfo := .ofDevice "Alice" "0123456789abcdef" [.v4 0xC0A80105] 47800

def laptop : ServiceInfo := .ofDevice "Alice's laptop" "fedcba9876543210" [.v4 0xC0A80106] 47800

/-- Both are found, and the laptop is switched off: her computer, whose service is still there, is gone too. -/
theorem laptop_removes_both :
    ∃ b, run step (start "aa" []) [.resolved computer, .resolved laptop, .removed laptop.fullname] = some b ∧
      b.disc.mdnsPeers.entries = [] ∧ b.live.lookup computer.fullname = some computer ∧ ¬ b.Exact := by
  let b := (((start "aa" []).next (.resolved computer)).next (.resolved laptop)).next (.removed laptop.fullname)
  have hnone : b.disc.mdnsPeers.lookup computer.key = none := by decide
  refine ⟨b, rfl, by decide, by decide, fun hexact => ?_⟩
  have hlisted := (hexact (computer.key, computer.peer)).mpr ⟨computer.fullname, by decide⟩
  rw [hnone] at hlisted
  cases hlisted

end Browse

end ScreenLink

import Mathlib.Data.List.AList
import Mathlib.Data.List.Sort
import ScreenLink.Session.Types

/-!
# The list of peers

`discovery/src/lib.rs`: the peers found by mDNS and those entered by hand, merged. The code starts from the mDNS peers and
adds a manual peer unless one with the same list of addresses and the same port is there, so on a collision the
mDNS peer stays. The specification (`Merged`) is what the function's comment says: the manual peer wins.
`merged_iff` says when the two are the same.
-/

namespace ScreenLink

inductive PeerSource
  | mdns
  | manual
  deriving DecidableEq

/-- A peer we learned about (via mDNS or manual entry). -/
structure DiscoveredPeer where
  fingerprint : String
  name : String
  addrs : List IpAddr
  port : BitVec 16
  source : PeerSource
  deriving DecidableEq

/-- The peers known to this device; the map is keyed by fingerprint. -/
structure Discovery where
  ourFingerprint : String
  mdnsPeers : AList fun _ : String => DiscoveredPeer
  manualPeers : List DiscoveredPeer

namespace Discovery

/-- Replace the manual peer list. -/
def setManualPeers (d : Discovery) (peers : List DiscoveredPeer) : Discovery := { d with manualPeers := peers }

/-- The values of the map, in its order. -/
def mdnsValues (d : Discovery) : List DiscoveredPeer := d.mdnsPeers.entries.map (·.2)

/-- `p.addrs == m.addrs && p.port == m.port` -/
def SameEntry (p m : DiscoveredPeer) : Prop := p.addrs = m.addrs ∧ p.port = m.port

instance (p m : DiscoveredPeer) : Decidable (SameEntry p m) := inferInstanceAs (Decidable (_ ∧ _))

def addManual (out : List DiscoveredPeer) (m : DiscoveredPeer) : List DiscoveredPeer :=
  if ∃ p ∈ out, SameEntry p m then out else out ++ [m]

/-- In the order of the names. -/
def NameLe (a b : DiscoveredPeer) : Prop := a.name ≤ b.name

instance : DecidableRel NameLe := fun a b => inferInstanceAs (Decidable (a.name ≤ b.name))

instance : Std.Total NameLe := ⟨fun a b => String.le_total a.name b.name⟩

instance : IsTrans DiscoveredPeer NameLe := ⟨fun _ _ _ => String.le_trans⟩

/-- Current merged view. -/
def peers (d : Discovery) : List DiscoveredPeer := (d.manualPeers.foldl addManual d.mdnsValues).insertionSort NameLe

/-! ### What the code lists -/

variable {d : Discovery} {p m : DiscoveredPeer} {manual out : List DiscoveredPeer}

theorem SameEntry.symm (h : SameEntry p m) : SameEntry m p := ⟨h.1.symm, h.2.symm⟩

theorem SameEntry.trans {q : DiscoveredPeer} (h : SameEntry p m) (h' : SameEntry m q) : SameEntry p q :=
  ⟨h.1.trans h'.1, h.2.trans h'.2⟩

theorem mem_foldl_addManual : p ∈ manual.foldl addManual out ↔
    p ∈ out ∨ (∀ q ∈ out, ¬ SameEntry q p) ∧ manual.find? (SameEntry p ·) = some p := by
  induction manual generalizing out with
  | nil => simp
  | cons m manual ih =>
    rw [List.foldl_cons, ih, addManual, List.find?_cons]
    by_cases hin : ∃ q ∈ out, SameEntry q m
    · rw [if_pos hin]
      obtain ⟨q, hq, hqm⟩ := hin
      refine or_congr_right (and_congr_right fun hfresh => ?_)
      have hne : ¬ SameEntry p m := fun hpm => hfresh q hq (hqm.trans hpm.symm)
      rw [decide_eq_false hne]
    · rw [if_neg hin]
      by_cases hpm : SameEntry p m
      · rw [decide_eq_true hpm]
        simp only [List.mem_append, List.mem_singleton, Option.some.injEq]
        constructor
        · rintro ((hout | rfl) | ⟨hfresh, -⟩)
          · exact Or.inl hout
          · exact Or.inr ⟨fun q hq hqp => hin ⟨q, hq, hqp⟩, rfl⟩
          · exact absurd hpm.symm (hfresh m (Or.inr rfl))
        · rintro (hout | ⟨-, rfl⟩)
          · exact Or.inl (Or.inl hout)
          · exact Or.inl (Or.inr rfl)
      · rw [decide_eq_false hpm]
        have hne : p ≠ m := fun heq => hpm (heq ▸ ⟨rfl, rfl⟩)
        simp only [List.mem_append, List.mem_singleton, hne, or_false]
        refine or_congr_right (and_congr_left fun _ => ?_)
        constructor
        · intro hfresh q hq
          exact hfresh q (Or.inl hq)
        · rintro hfresh q (hq | rfl)
          · exact hfresh q hq
          · exact fun h => hpm h.symm

theorem mem_peers : p ∈ d.peers ↔
    p ∈ d.mdnsValues ∨ (∀ q ∈ d.mdnsValues, ¬ SameEntry q p) ∧ d.manualPeers.find? (SameEntry p ·) = some p := by
  rw [peers, List.mem_insertionSort, mem_foldl_addManual]

theorem pairwise_peers (d : Discovery) : d.peers.Pairwise NameLe := List.pairwise_insertionSort _ _

/-! ### What it should list -/

/-- The same addresses, in any order, and the same port. -/
def SameAddr (p m : DiscoveredPeer) : Prop :=
  ((∀ a ∈ p.addrs, a ∈ m.addrs) ∧ ∀ a ∈ m.addrs, a ∈ p.addrs) ∧ p.port = m.port

instance (p m : DiscoveredPeer) : Decidable (SameAddr p m) := inferInstanceAs (Decidable (_ ∧ _))

/-- All manual peers, the mDNS peers that no manual peer collides with, and nothing else, in the order of the names. -/
structure Merged (d : Discovery) : Prop where
  mem : ∀ p, p ∈ d.peers ↔ p ∈ d.manualPeers ∨ p ∈ d.mdnsValues ∧ ∀ m ∈ d.manualPeers, ¬ SameAddr p m
  sorted : d.peers.Pairwise NameLe

/-- The list is merged as it should be iff no mDNS peer collides with a manual peer, unless it has been entered by hand
as it is, and every manual peer that mDNS has not found as it is is the first with its addresses and port. -/
theorem merged_iff (d : Discovery) : Merged d ↔
    (∀ p ∈ d.mdnsValues, ∀ m ∈ d.manualPeers, SameAddr p m → p ∈ d.manualPeers) ∧
      ∀ m ∈ d.manualPeers, m ∈ d.mdnsValues ∨
        (∀ p ∈ d.mdnsValues, ¬ SameEntry p m) ∧ d.manualPeers.find? (SameEntry m ·) = some m := by
  constructor
  · rintro ⟨hmem, -⟩
    constructor
    · intro p hp m hm hsame
      rcases (hmem p).mp (mem_peers.mpr (Or.inl hp)) with hmanual | ⟨-, hfree⟩
      · exact hmanual
      · exact absurd hsame (hfree m hm)
    · intro m hm
      exact mem_peers.mp ((hmem m).mpr (Or.inl hm))
  · rintro ⟨hcollide, hmanual⟩
    refine ⟨fun p => mem_peers.trans ⟨?_, ?_⟩, pairwise_peers d⟩
    · rintro (hp | ⟨-, hfirst⟩)
      · by_cases hin : p ∈ d.manualPeers
        · exact Or.inl hin
        · exact Or.inr ⟨hp, fun m hm hsame => hin (hcollide p hp m hm hsame)⟩
      · exact Or.inl (List.mem_of_find?_eq_some hfirst)
    · rintro (hp | ⟨hp, -⟩)
      · exact hmanual p hp
      · exact Or.inl hp

/-- mDNS finds the laptop, and the user has entered its address under another name. -/
def laptop : DiscoveredPeer := ⟨"aa", "Laptop", [.v4 0xC0A80105], 47800, .mdns⟩

def myLaptop : DiscoveredPeer := ⟨"", "My laptop", [.v4 0xC0A80105], 47800, .manual⟩

def overridden : Discovery := setManualPeers ⟨"bb", .singleton "aa" laptop, []⟩ [myLaptop]

/-- The user's entry is dropped, and the mDNS entry stays. -/
theorem override_dropped : overridden.peers = [laptop] ∧ ¬ Merged overridden := by
  have hpeers : overridden.peers = [laptop] := by decide
  refine ⟨hpeers, fun h => ?_⟩
  have hmanual := (h.mem myLaptop).mpr (Or.inl (by decide))
  rw [hpeers] at hmanual
  exact absurd hmanual (by decide)

end Discovery

end ScreenLink

import Mathlib.Algebra.Order.BigOperators.Group.Finset
import Mathlib.Combinatorics.SimpleGraph.Acyclic
import Mathlib.Combinatorics.SimpleGraph.Finite

/-!
# What flows over the links of a forest

Vertices that pass things on to their neighbours. Over the link from `a` to `b` goes no more than what starts at `a` and
what comes to `a` from its other neighbours. In a graph without cycles that is no more than what starts on `a`'s side of
the link (`flow_le`), so over a link, both ways, no more than what starts anywhere (`flow_add_flow_le`). A graph with a
cycle has a tour that never turns back (`exists_tour`).
-/

namespace Forest

open SimpleGraph

variable {V : Type*} {G : SimpleGraph V} {a b c v : V}

/-- The graph without the link. -/
def cut (G : SimpleGraph V) (a b : V) : SimpleGraph V := G.deleteEdges {s(a, b)}

/-- `v` is on `a`'s side of the link from `a` to `b`. -/
def Beyond (G : SimpleGraph V) (a b v : V) : Prop := (cut G a b).Reachable a v

theorem cut_adj : (cut G a b).Adj c v ↔ G.Adj c v ∧ s(c, v) ≠ s(a, b) := by
  simp [cut, deleteEdges_adj]

theorem beyond_self (G : SimpleGraph V) (a b : V) : Beyond G a b a := Reachable.refl a

theorem not_beyond (hG : G.IsAcyclic) (hab : G.Adj a b) : ¬ Beyond G a b b :=
  isBridge_iff.mp (isAcyclic_iff_forall_adj_isBridge.mp hG hab)

/-- What is beyond a neighbour is on this side of every other link. -/
theorem Beyond.trans (hG : G.IsAcyclic) (hca : G.Adj c a) (hcb : c ≠ b) (h : Beyond G c a v) : Beyond G a b v := by
  have hstart : (cut G a b).Adj a c := by
    refine cut_adj.mpr ⟨hca.symm, fun heq => hcb ?_⟩
    exact Sym2.congr_right.mp heq
  refine hstart.reachable.trans ?_
  rw [Beyond, reachable_iff_reflTransGen] at h
  rw [reachable_iff_reflTransGen]
  -- a way that avoids the link to `a` does not come to `a`, so it avoids all of its links
  have havoids : ∀ u, Relation.ReflTransGen (cut G c a).Adj c u → u ≠ a := by
    rintro u hu rfl
    exact not_beyond hG hca ((reachable_iff_reflTransGen c u).mpr hu)
  induction h with
  | refl => exact .refl
  | tail hu hadj ih =>
    refine ih.tail (cut_adj.mpr ⟨(cut_adj.mp hadj).1, fun heq => ?_⟩)
    rcases Sym2.eq_iff.mp heq with ⟨hua, -⟩ | ⟨-, hva⟩
    · exact havoids _ hu hua
    · exact havoids _ (hu.tail hadj) hva

theorem Beyond.disjoint (hG : G.IsAcyclic) (hba : G.Adj b a) (hca : G.Adj c a) (hbc : b ≠ c) (h : Beyond G b a v) :
    ¬ Beyond G c a v := by
  intro h'
  have hback : Beyond G a c v := h.trans hG hba hbc
  -- then there is a way around the link between `c` and `a`
  have hcut : cut G c a = cut G a c := by simp [cut, Sym2.eq_swap]
  rw [Beyond, hcut] at h'
  exact not_beyond hG hca.symm (Reachable.trans hback h'.symm)

section

variable [Fintype V]

/-- `a`'s side of the link. -/
noncomputable def side (G : SimpleGraph V) (a b : V) : Finset V := (Set.toFinite {v | Beyond G a b v}).toFinset

theorem mem_side : v ∈ side G a b ↔ Beyond G a b v := by simp [side]

theorem sum_side_le [DecidableEq V] [DecidableRel G.Adj] (hG : G.IsAcyclic) (hab : G.Adj a b) (w : V → ℕ) :
    w a + ∑ c ∈ (G.neighborFinset a).erase b, ∑ v ∈ side G c a, w v ≤ ∑ v ∈ side G a b, w v := by
  have hadj : ∀ c ∈ (G.neighborFinset a).erase b, G.Adj c a ∧ c ≠ b := by
    intro c hc
    obtain ⟨hcb, hac⟩ := Finset.mem_erase.mp hc
    exact ⟨((G.mem_neighborFinset a c).mp hac).symm, hcb⟩
  have hdisjoint : ((((G.neighborFinset a).erase b : Finset V)) : Set V).PairwiseDisjoint fun c => side G c a := by
    intro c hc d hd hcd
    change Disjoint (side G c a) (side G d a)
    rw [Finset.disjoint_left]
    intro v hv hv'
    exact (mem_side.mp hv).disjoint hG (hadj c hc).1 (hadj d hd).1 hcd (mem_side.mp hv')
  rw [← Finset.sum_biUnion hdisjoint]
  have hnot : a ∉ ((G.neighborFinset a).erase b).biUnion fun c => side G c a := by
    intro hmem
    obtain ⟨c, hc, ha⟩ := Finset.mem_biUnion.mp hmem
    exact not_beyond hG (hadj c hc).1 (mem_side.mp ha)
  rw [← Finset.sum_insert hnot]
  refine Finset.sum_le_sum_of_subset fun v hv => ?_
  rcases Finset.mem_insert.mp hv with rfl | hmem
  · exact mem_side.mpr (beyond_self G v b)
  · obtain ⟨c, hc, hbeyond⟩ := Finset.mem_biUnion.mp hmem
    exact mem_side.mpr ((mem_side.mp hbeyond).trans hG (hadj c hc).1 (hadj c hc).2)

theorem card_side_lt (hG : G.IsAcyclic) (hca : G.Adj c a) (hcb : c ≠ b) : (side G c a).card < (side G a b).card := by
  refine Finset.card_lt_card (Finset.ssubset_iff_subset_ne.mpr ⟨fun v hv => ?_, fun heq => ?_⟩)
  · exact mem_side.mpr ((mem_side.mp hv).trans hG hca hcb)
  · exact not_beyond hG hca (mem_side.mp (heq ▸ mem_side.mpr (beyond_self G a b)))

variable [DecidableEq V] [DecidableRel G.Adj]

/-- Over a link goes no more than what starts on its side. -/
theorem flow_le (hG : G.IsAcyclic) {w : V → ℕ} {f : V → V → ℕ}
    (hf : ∀ a b, G.Adj a b → f a b ≤ w a + ∑ c ∈ (G.neighborFinset a).erase b, f c a) (hab : G.Adj a b) :
    f a b ≤ ∑ v ∈ side G a b, w v := by
  -- by induction on the size of the side
  induction hcard : (side G a b).card using Nat.strong_induction_on generalizing a b with
  | _ k ih =>
    refine (hf a b hab).trans (le_trans ?_ (sum_side_le hG hab w))
    refine Nat.add_le_add_left (Finset.sum_le_sum fun c hc => ?_) _
    obtain ⟨hcb, hac⟩ := Finset.mem_erase.mp hc
    have hca : G.Adj c a := ((G.mem_neighborFinset a c).mp hac).symm
    exact ih _ (hcard ▸ card_side_lt hG hca hcb) hca rfl

/-- Both ways, no more than what starts anywhere. -/
theorem flow_add_flow_le (hG : G.IsAcyclic) {w : V → ℕ} {f : V → V → ℕ}
    (hf : ∀ a b, G.Adj a b → f a b ≤ w a + ∑ c ∈ (G.neighborFinset a).erase b, f c a) (hab : G.Adj a b) :
    f a b + f b a ≤ ∑ v, w v := by
  have hdisjoint : Disjoint (side G a b) (side G b a) := by
    rw [Finset.disjoint_left]
    intro v hv hv'
    have hcut : cut G b a = cut G a b := by simp [cut, Sym2.eq_swap]
    have hback := mem_side.mp hv'
    rw [Beyond, hcut] at hback
    exact not_beyond hG hab (Reachable.trans (mem_side.mp hv) hback.symm)
  calc f a b + f b a ≤ (∑ v ∈ side G a b, w v) + ∑ v ∈ side G b a, w v :=
        Nat.add_le_add (flow_le hG hf hab) (flow_le hG hf hab.symm)
    _ = ∑ v ∈ side G a b ∪ side G b a, w v := (Finset.sum_union hdisjoint).symm
    _ ≤ ∑ v, w v := Finset.sum_le_sum_of_subset (Finset.subset_univ _)

end

/-- Where there is a cycle, there is a way around it for ever. -/
theorem exists_tour (hG : ¬ G.IsAcyclic) : ∃ (m : ℕ) (f : ℕ → V), (∀ i, f (i + (m + 1)) = f i) ∧
    (∀ i, G.Adj (f i) (f (i + 1))) ∧ ∀ i, f (i + 2) ≠ f i := by
  simp only [IsAcyclic, not_forall, not_not] at hG
  obtain ⟨v, p, hp⟩ := hG
  have hlen := hp.three_le_length
  have hlt : ∀ i, i % p.length < p.length := fun i => Nat.mod_lt i (by omega)
  have hmod : ∀ i, i % p.length + 1 < p.length ∧ (i + 1) % p.length = i % p.length + 1 ∨
      i % p.length = p.length - 1 ∧ (i + 1) % p.length = 0 := by
    intro i
    have hone : (i + 1) % p.length = (i % p.length + 1) % p.length := by rw [Nat.mod_add_mod]
    rcases Nat.lt_or_eq_of_le (Nat.succ_le_of_lt (hlt i)) with h | h
    · exact Or.inl ⟨h, hone.trans (Nat.mod_eq_of_lt h)⟩
    · refine Or.inr ⟨by omega, ?_⟩
      rw [hone, show i % p.length + 1 = p.length from h, Nat.mod_self]
  -- the vertex after the last is the first
  have hnext : ∀ i, p.getVert ((i + 1) % p.length) = p.getVert (i % p.length + 1) := by
    intro i
    rcases hmod i with ⟨-, hsucc⟩ | ⟨hlast, hsucc⟩
    · rw [hsucc]
    · rw [hsucc, hlast, Nat.sub_add_cancel (by omega), p.getVert_zero, p.getVert_length]
  refine ⟨p.length - 1, fun i => p.getVert (i % p.length), fun i => ?_, fun i => ?_, fun i => ?_⟩ <;> beta_reduce
  · rw [Nat.sub_add_cancel (by omega), Nat.add_mod_right]
  · rw [hnext]
    exact p.adj_getVert_succ (hlt i)
  · rw [hnext]
    rcases hmod i with ⟨hle, hsucc⟩ | ⟨hlast, hsucc⟩
    · rw [hsucc]
      exact (hp.getVert_sub_one_ne_getVert_add_one hle.le).symm
    · rw [hsucc, hlast]
      exact hp.snd_ne_penultimate

end Forest

import Mathlib.Data.BitVec
import Mathlib.Data.List.Nodup
import Mathlib.Data.List.Pairwise

/-!
# Nonces from a counter

A context of the stream `i` numbers its uses `0, 1, 2, …` in a `w`-bit counter. Within one context no number comes
twice as long as the counter does not wrap; two contexts of one stream start with the same numbers. So the uses of
several contexts are all different exactly when no two contexts of one stream have both been used
(`nodup_flatMap_uses`).
-/

namespace CounterNonce

variable {ι α : Type*} {w : ℕ}

/-- The numbers of the first `n` uses. -/
def numbers (w n : ℕ) : List (BitVec w) := (List.range n).map (BitVec.ofNat w)

theorem numbers_succ (w n : ℕ) : numbers w (n + 1) = numbers w n ++ [BitVec.ofNat w n] := by
  simp [numbers, List.range_succ]

theorem nodup_numbers {n : ℕ} (hn : n ≤ 2 ^ w) : (numbers w n).Nodup := by
  refine List.Nodup.map_on ?_ List.nodup_range
  intro k hk m hm heq
  have hk' := List.mem_range.mp hk
  have hm' := List.mem_range.mp hm
  have := congrArg BitVec.toNat heq
  rwa [BitVec.toNat_ofNat, BitVec.toNat_ofNat, Nat.mod_eq_of_lt (by omega), Nat.mod_eq_of_lt (by omega)] at this

/-- The uses of a context: its stream, and how often it was used. -/
def uses (w : ℕ) (c : ι × ℕ) : List (ι × BitVec w) := (numbers w c.2).map fun v => (c.1, v)

theorem nodup_uses {c : ι × ℕ} (hc : c.2 ≤ 2 ^ w) : (uses w c).Nodup :=
  (nodup_numbers hc).map fun _ _ heq => (Prod.mk.inj heq).2

/-- Two contexts have no use in common if their streams differ or one was never used. -/
theorem disjoint_uses_iff {c d : ι × ℕ} :
    List.Disjoint (uses w c) (uses w d) ↔ (c.1 = d.1 → c.2 = 0 ∨ d.2 = 0) := by
  constructor
  · intro hdisjoint hstream
    by_contra hused
    obtain ⟨hc, hd⟩ := not_or.mp hused
    -- both have used the number 0
    refine hdisjoint (a := (c.1, BitVec.ofNat w 0)) (List.mem_map_of_mem ?_) ?_
    · exact List.mem_map_of_mem (List.mem_range.mpr (Nat.pos_of_ne_zero hc))
    · rw [hstream]
      exact List.mem_map_of_mem (List.mem_map_of_mem (List.mem_range.mpr (Nat.pos_of_ne_zero hd)))
  · intro h use hc hd
    obtain ⟨v, hv, rfl⟩ := List.mem_map.mp hc
    obtain ⟨u, hu, heq⟩ := List.mem_map.mp hd
    rcases h (Prod.mk.inj heq).1.symm with hzero | hzero
    · simp [numbers, hzero] at hv
    · simp [numbers, hzero] at hu

/-- The uses of all contexts are different if and only if no two contexts of one stream have both been used. -/
theorem nodup_flatMap_uses {cs : List (ι × ℕ)} (hfew : ∀ c ∈ cs, c.2 ≤ 2 ^ w) :
    (cs.flatMap (uses w)).Nodup ↔ cs.Pairwise fun c d => c.1 = d.1 → c.2 = 0 ∨ d.2 = 0 := by
  rw [List.nodup_flatMap]
  constructor
  · rintro ⟨-, hpairwise⟩
    exact hpairwise.imp disjoint_uses_iff.mp
  · intro hpairwise
    exact ⟨fun c hc => nodup_uses (hfew c hc), hpairwise.imp disjoint_uses_iff.mpr⟩

theorem pairwise_or_iff {idle : α → Prop} {l : List α} :
    l.Pairwise (fun a b => idle a ∨ idle b) ↔
      ∀ (i j : ℕ) a b, l[i]? = some a → l[j]? = some b → ¬ idle a → ¬ idle b → i = j := by
  rw [List.pairwise_iff_getElem]
  constructor
  · intro h i j a b ha hb hna hnb
    obtain ⟨hi, rfl⟩ := List.getElem?_eq_some_iff.mp ha
    obtain ⟨hj, rfl⟩ := List.getElem?_eq_some_iff.mp hb
    rcases Nat.lt_trichotomy i j with hlt | heq | hgt
    · exact absurd (h i j hi hj hlt) (not_or.mpr ⟨hna, hnb⟩)
    · exact heq
    · exact absurd (h j i hj hi hgt) (not_or.mpr ⟨hnb, hna⟩)
  · intro h i j hi hj hlt
    by_contra hnone
    obtain ⟨hna, hnb⟩ := not_or.mp hnone
    exact absurd (h i j _ _ (List.getElem?_eq_getElem hi) (List.getElem?_eq_getElem hj) hna hnb) hlt.ne

end CounterNonce

import Mathlib.Data.Set.Insert
import Mathlib.Tactic.Common

/-!
# A bitmap below a moving top

A window of width `w` remembers which of the `w` numbers at or below `top` belong to a set: bit `i` of the
bitmap stands for `top - i` (`Marks`). Shifting the bitmap left moves the top up (`Marks.advance`), a jump past
the whole window starts afresh (`Marks.jump`), and setting one bit adds a number below the top
(`Marks.record`). `Fresh` is what an anti-replay window decides: the number is new, and not so old that the
bitmap has forgotten it.
-/

namespace SlidingWindow

variable {w : ℕ}

/-- Bit `i` of `bitmap` says whether `top - i` is in `A`. -/
def Marks (bitmap : BitVec w) (top : ℕ) (A : Set ℕ) : Prop :=
  ∀ i < w, bitmap.getLsbD i = true ↔ i ≤ top ∧ top - i ∈ A

/-- `seq` is not in `A`, and less than `w` behind everything in `A`. -/
def Fresh (w : ℕ) (A : Set ℕ) (seq : ℕ) : Prop := seq ∉ A ∧ ∀ a ∈ A, a < seq + w

theorem getLsbD_one_eq (i : ℕ) (hi : i < w) : (1#w).getLsbD i = true ↔ i = 0 := by
  simp only [BitVec.getLsbD_one, Bool.and_eq_true, decide_eq_true_eq]
  omega

theorem Marks.first (top : ℕ) : Marks (1#w) top {top} := by
  intro i hi
  rw [getLsbD_one_eq i hi, Set.mem_singleton_iff]
  omega

/-- Nothing of the old set is in a window that starts `w` or more above it. -/
theorem Marks.jump {A : Set ℕ} {top seq : ℕ} (htop : ∀ a ∈ A, a ≤ top) (hjump : top + w ≤ seq) :
    Marks (1#w) seq (insert seq A) := by
  intro i hi
  rw [getLsbD_one_eq i hi, Set.mem_insert_iff]
  constructor
  · rintro rfl
    exact ⟨Nat.zero_le _, Or.inl rfl⟩
  · rintro ⟨hle, heq | hmem⟩
    · omega
    · have := htop _ hmem
      omega

theorem Marks.advance {A : Set ℕ} {bitmap : BitVec w} {top seq : ℕ} (h : Marks bitmap top A)
    (htop : ∀ a ∈ A, a ≤ top) (hseq : top < seq) :
    Marks ((bitmap <<< (seq - top)) ||| 1#w) seq (insert seq A) := by
  intro i hi
  rw [BitVec.getLsbD_or, Bool.or_eq_true, getLsbD_one_eq i hi, BitVec.getLsbD_shiftLeft, Set.mem_insert_iff]
  by_cases hlow : i < seq - top
  · -- the bits shifted in: only `seq` itself is above the old top
    simp only [hi, hlow, decide_true, Bool.not_true, Bool.and_false, Bool.false_and, Bool.false_eq_true,
      false_or]
    constructor
    · rintro rfl
      exact ⟨Nat.zero_le _, Or.inl rfl⟩
    · rintro ⟨hle, heq | hmem⟩
      · omega
      · have := htop _ hmem
        omega
  · have hold := h (i - (seq - top)) (by omega)
    simp only [hi, hlow, decide_true, decide_false, Bool.not_false, Bool.true_and, hold]
    constructor
    · rintro (⟨hle, hmem⟩ | rfl)
      · refine ⟨by omega, Or.inr ?_⟩
        rwa [show seq - i = top - (i - (seq - top)) by omega]
      · omega
    · rintro ⟨hle, heq | hmem⟩
      · omega
      · refine Or.inl ⟨by omega, ?_⟩
        rwa [show top - (i - (seq - top)) = seq - i by omega]

theorem getLsbD_one_shiftLeft (d i : ℕ) (hi : i < w) : (1#w <<< d).getLsbD i = true ↔ i = d := by
  rw [BitVec.getLsbD_shiftLeft, Bool.and_eq_true, Bool.and_eq_true]
  by_cases hlt : i < d
  · simp only [hlt, decide_true, Bool.not_true, Bool.false_eq_true, and_false, false_and, false_iff]
    omega
  · rw [getLsbD_one_eq _ (by omega)]
    simp only [hi, hlt, decide_true, decide_false, Bool.not_false, true_and]
    omega

theorem Marks.record {A : Set ℕ} {bitmap : BitVec w} {top seq : ℕ} (h : Marks bitmap top A)
    (hseq : seq ≤ top) : Marks (bitmap ||| (1#w <<< (top - seq))) top (insert seq A) := by
  intro i hi
  rw [BitVec.getLsbD_or, Bool.or_eq_true, getLsbD_one_shiftLeft _ _ hi, h i hi, Set.mem_insert_iff]
  constructor
  · rintro (⟨hle, hmem⟩ | rfl)
    · exact ⟨hle, Or.inr hmem⟩
    · exact ⟨by omega, Or.inl (by omega)⟩
  · rintro ⟨hle, heq | hmem⟩
    · exact Or.inr (by omega)
    · exact Or.inl ⟨hle, hmem⟩

theorem Marks.test_iff {A : Set ℕ} {bitmap : BitVec w} {top seq : ℕ} (h : Marks bitmap top A)
    (hseq : seq ≤ top) (hin : top - seq < w) : bitmap &&& (1#w <<< (top - seq)) ≠ 0#w ↔ seq ∈ A := by
  have hbit := h (top - seq) hin
  have hself : top - (top - seq) = seq := by omega
  rw [hself] at hbit
  constructor
  · intro hne
    by_contra hnot
    apply hne
    apply BitVec.eq_of_getLsbD_eq
    intro i hi
    by_cases hid : i = top - seq
    · subst hid
      have : bitmap.getLsbD (top - seq) = false := by
        rw [← Bool.not_eq_true, hbit]
        exact fun hmem => hnot hmem.2
      simp [this]
    · have : (1#w <<< (top - seq)).getLsbD i = false := by
        rw [← Bool.not_eq_true, getLsbD_one_shiftLeft _ _ hi]
        exact hid
      rw [BitVec.getLsbD_and, this]
      simp
  · intro hmem hzero
    have hand := congrArg (BitVec.getLsbD · (top - seq)) hzero
    rw [BitVec.getLsbD_and, hbit.mpr ⟨by omega, hmem⟩,
      (getLsbD_one_shiftLeft _ _ hin).mpr rfl] at hand
    simp at hand

end SlidingWindow

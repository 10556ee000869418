import Mathlib.Data.List.Basic
import Mathlib.Data.Sym.Sym2
import ScreenLink.Session.Core

/-!
# Which pair a comparison code stands for

`pairing.rs`: the code does not depend on the order of the fingerprints, and of two fingerprints without zero bytes what
is hashed can be read back: the label, then the smaller one up to the separator, then the other. So two pairs that show
one code are the same pair, unless SHA-256 collides on them or the digests differ and only the six digits agree.
-/

namespace ScreenLink

theorem asBytes_injective : Function.Injective asBytes := by
  intro a b h
  have hdata : a.toUTF8.data = b.toUTF8.data := Array.toList_inj.mp h
  exact String.toByteArray_inj.mp (ByteArray.ext hdata)

theorem comparisonPinInput_comm (a b : String) : comparisonPinInput a b = comparisonPinInput b a := by
  unfold comparisonPinInput
  by_cases hab : a ≤ b
  · by_cases hba : b ≤ a
    · rw [String.le_antisymm hab hba]
    · rw [if_pos hab, if_neg hba]
  · rw [if_neg hab, if_pos ((String.le_total a b).resolve_left hab)]

/-- The two fingerprints in order. -/
def ordered (a b : String) : String × String := if a ≤ b then (a, b) else (b, a)

theorem ordered_cases (a b : String) : ordered a b = (a, b) ∨ ordered a b = (b, a) := by
  unfold ordered
  split_ifs
  · exact Or.inl rfl
  · exact Or.inr rfl

theorem mk_ordered (a b : String) : s((ordered a b).1, (ordered a b).2) = s(a, b) := by
  rcases ordered_cases a b with h | h <;> rw [h]
  exact Sym2.eq_swap

theorem ordered_eq_of_input {a b c d : String} (ha : 0 ∉ asBytes a) (hb : 0 ∉ asBytes b)
    (h : comparisonPinInput a b = comparisonPinInput c d) : ordered a b = ordered c d := by
  have hlo : 0 ∉ asBytes (ordered a b).1 := by rcases ordered_cases a b with heq | heq <;> rwa [heq]
  have hhi : 0 ∉ asBytes (ordered a b).2 := by rcases ordered_cases a b with heq | heq <;> rwa [heq]
  have hinput : ∀ s t, comparisonPinInput s t =
      asBytes "screenlink-pair-v1" ++ (asBytes (ordered s t).1 ++ 0 :: asBytes (ordered s t).2) := by
    intro s t
    simp only [comparisonPinInput, ordered, List.append_assoc, List.singleton_append]
  rw [hinput, hinput] at h
  have hparts := List.append_cancel_left h
  rw [List.append_cons_inj_of_notMem hlo hhi] at hparts
  exact Prod.ext (asBytes_injective hparts.1) (asBytes_injective hparts.2.2)

theorem comparisonPinInput_eq_iff {a b : String} (ha : 0 ∉ asBytes a) (hb : 0 ∉ asBytes b) (c d : String) :
    comparisonPinInput a b = comparisonPinInput c d ↔ s(a, b) = s(c, d) := by
  constructor
  · intro h
    rw [← mk_ordered a b, ← mk_ordered c d, ordered_eq_of_input ha hb h]
  · intro h
    rcases Sym2.eq_iff.mp h with ⟨rfl, rfl⟩ | ⟨rfl, rfl⟩
    · rfl
    · exact comparisonPinInput_comm _ _

/-- The reduction of a digest to six digits. -/
def sixDigits (d : Digest) : String := formatPin (BigEndian.decode (d.toList.take 4) % 1000000)

/-- For all fingerprints the code does not depend on the order. If they have no zero byte, what is hashed is the same
for the same pair only, so if two pairs show one code, they are the same pair, or SHA-256 has a collision, or the
reduction has. -/
theorem comparisonPin_identifies (x : Crates) :
    (∀ a b, comparisonPin x a b = comparisonPin x b a) ∧
      ∀ a b c d, 0 ∉ asBytes a → 0 ∉ asBytes b →
        (comparisonPinInput a b = comparisonPinInput c d ↔ s(a, b) = s(c, d)) ∧
          (comparisonPin x a b = comparisonPin x c d → s(a, b) = s(c, d) ∨
            (comparisonPinInput a b ≠ comparisonPinInput c d ∧
              x.sha256 (comparisonPinInput a b) = x.sha256 (comparisonPinInput c d)) ∨
            (x.sha256 (comparisonPinInput a b) ≠ x.sha256 (comparisonPinInput c d) ∧
              sixDigits (x.sha256 (comparisonPinInput a b)) = sixDigits (x.sha256 (comparisonPinInput c d)))) := by
  constructor
  · intro a b
    rw [comparisonPin, comparisonPin, comparisonPinInput_comm]
  · intro a b c d ha hb
    have hiff := comparisonPinInput_eq_iff ha hb c d
    refine ⟨hiff, fun hpin => ?_⟩
    by_cases hsame : s(a, b) = s(c, d)
    · exact Or.inl hsame
    · have hinput := mt hiff.mp hsame
      by_cases hdigest : x.sha256 (comparisonPinInput a b) = x.sha256 (comparisonPinInput c d)
      · exact Or.inr (Or.inl ⟨hinput, hdigest⟩)
      · exact Or.inr (Or.inr ⟨hdigest, hpin⟩)

/-- One name is the front of another: without the separator the two pairs would hash alike. -/
theorem comparisonPin_identifies_prefix :
    asBytes "a" ++ asBytes "ab" = asBytes "aa" ++ asBytes "b" ∧
      comparisonPinInput "a" "ab" ≠ comparisonPinInput "aa" "b" := by
  refine ⟨by decide, fun h => ?_⟩
  have hpair := (((comparisonPin_identifies demoCrates).2 "a" "ab" "aa" "b" (by decide) (by decide)).1).mp h
  simp at hpair

end ScreenLink

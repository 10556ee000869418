import Mathlib.Algebra.Order.Ring.Int

/-!
# Arithmetic that checks its range

The operations of fixed-width integers where an overflow is an error: `none` exactly when the exact result does not fit.
`unsigned w` and `signed w` are the exact result as an integer of `w` bits; `sub` and `shl` are for bit vectors, and a
shift by the width or more is an error too.
-/

namespace Checked

/-- The range of a signed integer. -/
def Signed (w : ℕ) (v : ℤ) : Prop := -2 ^ (w - 1) ≤ v ∧ v < 2 ^ (w - 1)

instance (w : ℕ) (v : ℤ) : Decidable (Signed w v) := inferInstanceAs (Decidable (_ ∧ _))

/-- A result as a signed integer. -/
def signed (w : ℕ) (v : ℤ) : Option ℤ := if Signed w v then some v else none

/-- A result as an unsigned integer. -/
def unsigned (w v : ℕ) : Option ℕ := if v < 2 ^ w then some v else none

def sub {w : ℕ} (a b : BitVec w) : Option (BitVec w) := if b ≤ a then some (a - b) else none

def shl {w : ℕ} (a n : BitVec w) : Option (BitVec w) := if n.toNat < w then some (a <<< n) else none

variable {w : ℕ}

theorem signed_of_fits {v : ℤ} (h : Signed w v) : signed w v = some v := if_pos h

theorem signed_eq_some_iff {v u : ℤ} : signed w v = some u ↔ Signed w v ∧ v = u := by
  unfold signed
  split_ifs with h
  · simp [h]
  · simp [h]

theorem unsigned_of_lt {v : ℕ} (h : v < 2 ^ w) : unsigned w v = some v := if_pos h

theorem sub_of_le {a b : BitVec w} (h : b ≤ a) : sub a b = some (a - b) := if_pos h

theorem shl_of_lt (a : BitVec w) {n : BitVec w} (h : n.toNat < w) : shl a n = some (a <<< n) := if_pos h

end Checked

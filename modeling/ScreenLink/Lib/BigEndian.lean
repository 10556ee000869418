import Mathlib.Data.List.Induction
import Mathlib.Tactic.Ring

/-!
# Big-endian bytes

`encode n x` is the `n` bytes of `x`, most significant first; what does not fit is cut off. `decode` reads any
number of bytes back. They are inverse in both directions (`decode_encode`, `encode_decode`).
-/

namespace BigEndian

/-- The `n` low bytes of `x`, most significant first. -/
def encode : ℕ → ℕ → List UInt8
  | 0, _ => []
  | n + 1, x => encode n (x / 256) ++ [UInt8.ofNat (x % 256)]

/-- The number whose bytes, most significant first, are `bs`. -/
def decode (bs : List UInt8) : ℕ := bs.foldl (fun acc b => acc * 256 + b.toNat) 0

@[simp] theorem length_encode (n x : ℕ) : (encode n x).length = n := by
  induction n generalizing x with
  | zero => rfl
  | succ n ih => simp [encode, ih]

@[simp] theorem decode_snoc (bs : List UInt8) (b : UInt8) : decode (bs ++ [b]) = decode bs * 256 + b.toNat := by
  simp [decode]

theorem toNat_ofNat_mod (x : ℕ) : (UInt8.ofNat (x % 256)).toNat = x % 256 := by
  simp

theorem decode_encode {n x : ℕ} (hx : x < 256 ^ n) : decode (encode n x) = x := by
  induction n generalizing x with
  | zero =>
    have : x = 0 := by simpa using hx
    subst this
    rfl
  | succ n ih =>
    have hdiv : x / 256 < 256 ^ n := by
      rw [Nat.div_lt_iff_lt_mul (by norm_num), ← pow_succ]
      exact hx
    rw [encode, decode_snoc, ih hdiv, toNat_ofNat_mod]
    omega

theorem decode_lt (bs : List UInt8) : decode bs < 256 ^ bs.length := by
  induction bs using List.reverseRecOn with
  | nil => simp [decode]
  | append_singleton bs b ih =>
    have hb : b.toNat < 256 := b.toNat_lt
    rw [decode_snoc, List.length_append, List.length_singleton, pow_succ]
    omega

theorem encode_decode (bs : List UInt8) : encode bs.length (decode bs) = bs := by
  induction bs using List.reverseRecOn with
  | nil => rfl
  | append_singleton bs b ih =>
    have hb : b.toNat < 256 := b.toNat_lt
    have hdiv : (decode bs * 256 + b.toNat) / 256 = decode bs := by omega
    have hmod : (decode bs * 256 + b.toNat) % 256 = b.toNat := by omega
    rw [List.length_append, List.length_singleton, encode, decode_snoc, hdiv, hmod, ih]
    simp

end BigEndian

import ScreenLink.Lib.BigEndian

/-!
# Length-prefixed frames

A frame is a body behind its length in `w` big-endian bytes. Reading the length and then as many bytes gives the body
back and leaves what follows alone (`readExact_frame`, `readExact_append`). A source may give its bytes in pieces; it
makes no difference how they are cut (`readPieces_of_some`, `readPieces_of_none`).
-/

namespace Frames

/-- The next `n` bytes and the rest, once there are so many. -/
def readExact (n : ℕ) (bytes : List UInt8) : Option (List UInt8 × List UInt8) :=
  if n ≤ bytes.length then some (bytes.take n, bytes.drop n) else none

/-- `body` behind its length. -/
def frame (w : ℕ) (body : List UInt8) : List UInt8 := BigEndian.encode w body.length ++ body

theorem readExact_append (bytes rest : List UInt8) : readExact bytes.length (bytes ++ rest) = some (bytes, rest) := by
  rw [readExact, if_pos (by rw [List.length_append]; exact Nat.le_add_right _ _), List.take_left, List.drop_left]

/-- The length of a frame is read first. -/
theorem readExact_frame (w : ℕ) (body rest : List UInt8) :
    readExact w (frame w body ++ rest) = some (BigEndian.encode w body.length, body ++ rest) := by
  have hread := readExact_append (BigEndian.encode w body.length) (body ++ rest)
  rwa [BigEndian.length_encode, ← List.append_assoc] at hread

/-! ### A source that gives its bytes in pieces -/

/-- Read `n` bytes piece by piece, and leave the rest of the last piece to the next read. A piece without bytes is the
end of the source; what was read before it is lost. -/
def readPieces : ℕ → List (List UInt8) → Option (List UInt8) × List (List UInt8)
  | 0, pieces => (some [], pieces)
  | _ + 1, [] => (none, [])
  | n + 1, piece :: pieces =>
    if piece = [] then (none, pieces)
    else if n + 1 < piece.length then (some (piece.take (n + 1)), piece.drop (n + 1) :: pieces)
    else
      let (bytes, rest) := readPieces (n + 1 - piece.length) pieces
      (bytes.map fun bytes => piece ++ bytes, rest)

theorem readPieces_of_le {n : ℕ} {pieces : List (List UInt8)} (hpieces : [] ∉ pieces)
    (hlen : n ≤ pieces.flatten.length) :
    ∃ rest, readPieces n pieces = (some (pieces.flatten.take n), rest) ∧ rest.flatten = pieces.flatten.drop n ∧
      [] ∉ rest := by
  induction pieces generalizing n with
  | nil =>
    obtain rfl : n = 0 := Nat.le_zero.mp hlen
    exact ⟨[], rfl, rfl, hpieces⟩
  | cons piece pieces ih =>
    obtain ⟨hpiece, hrest⟩ := not_or.mp (List.mem_cons.not.mp hpieces)
    rw [List.flatten_cons] at hlen ⊢
    cases n with
    | zero => exact ⟨piece :: pieces, by simp [readPieces], by simp, hpieces⟩
    | succ n =>
      rw [readPieces, if_neg (Ne.symm hpiece)]
      split_ifs with hlt
      · refine ⟨piece.drop (n + 1) :: pieces, ?_, ?_, List.mem_cons.not.mpr (not_or.mpr ⟨?_, hrest⟩)⟩
        · rw [List.take_append_of_le_length hlt.le]
        · rw [List.flatten_cons, List.drop_append_of_le_length hlt.le]
        · exact fun hnil => absurd (List.drop_eq_nil_iff.mp hnil.symm) hlt.not_ge
      · have hge : piece.length ≤ n + 1 := Nat.not_lt.mp hlt
        rw [List.length_append] at hlen
        obtain ⟨rest, hread, hflat, hne⟩ := ih hrest (n := n + 1 - piece.length) (by omega)
        refine ⟨rest, ?_, ?_, hne⟩
        · rw [hread, List.take_append, List.take_of_length_le hge]
          rfl
        · rw [hflat, List.drop_append, List.drop_of_length_le hge, List.nil_append]

theorem readPieces_of_lt {n : ℕ} {pieces : List (List UInt8)} (hpieces : [] ∉ pieces)
    (hlen : pieces.flatten.length < n) : readPieces n pieces = (none, []) := by
  induction pieces generalizing n with
  | nil =>
    obtain ⟨n, rfl⟩ := Nat.exists_eq_succ_of_ne_zero (Nat.pos_iff_ne_zero.mp hlen)
    rfl
  | cons piece pieces ih =>
    obtain ⟨hpiece, hrest⟩ := not_or.mp (List.mem_cons.not.mp hpieces)
    rw [List.flatten_cons, List.length_append] at hlen
    obtain ⟨n, rfl⟩ : ∃ k, n = k + 1 := ⟨n - 1, by omega⟩
    rw [readPieces, if_neg (Ne.symm hpiece), if_neg (by omega), ih hrest (by omega)]
    rfl

theorem readPieces_of_some {n : ℕ} {pieces : List (List UInt8)} {bytes rest : List UInt8} (hpieces : [] ∉ pieces)
    (hread : readExact n pieces.flatten = some (bytes, rest)) :
    ∃ later, readPieces n pieces = (some bytes, later) ∧ later.flatten = rest ∧ [] ∉ later := by
  rw [readExact, Option.ite_none_right_eq_some, Option.some_inj, Prod.mk.injEq] at hread
  obtain ⟨hlen, rfl, rfl⟩ := hread
  exact readPieces_of_le hpieces hlen

theorem readPieces_of_none {n : ℕ} {pieces : List (List UInt8)} (hpieces : [] ∉ pieces)
    (hread : readExact n pieces.flatten = none) : readPieces n pieces = (none, []) := by
  rw [readExact, ite_eq_right_iff] at hread
  exact readPieces_of_lt hpieces (Nat.not_le.mp fun hlen => Option.some_ne_none _ (hread hlen))

end Frames

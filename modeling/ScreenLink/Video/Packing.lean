import ScreenLink.Lib.Checked
import ScreenLink.Session.Viewing

/-!
# Packing the pixels of a captured frame

`codec.rs`: `JpegEncoder::encode` copies the pixels out of the rows of a BGRA buffer, each of them `stride` bytes long,
into a packed RGB buffer. The size check in front implies every bound: no index, no product and no capacity is out of
range, each pixel is where it belongs, and what is behind the pixels of a row has no influence (`encode_packs`). `none` is
a panic.
-/

namespace ScreenLink

/-- A frame whose buffer is a `Vec`, so of at most `isize::MAX` bytes. -/
structure StoredFrame extends VideoFrame where
  small : bgra.length < 2 ^ 63

structure EncodedFrame where
  keyframe : Bool
  data : Bytes

/-- `&data[start..stop]` -/
def indexRange (data : Bytes) (start stop : ℕ) : Option Bytes :=
  if start ≤ stop ∧ stop ≤ data.length then some ((data.drop start).take (stop - start)) else none

/-- R, G and B of every whole pixel of a row. -/
def packRow : Bytes → Bytes
  | b :: g :: r :: _ :: rest => r :: g :: b :: packRow rest
  | _ => []

namespace JpegEncoder

/-- The size check. -/
def check (frame : VideoFrame) : Option Bool := do
  let rowBytes ← Checked.unsigned 64 (frame.width.toNat * 4)
  let size ← Checked.unsigned 64 (frame.stride.toNat * frame.height.toNat)
  return decide (size ≤ frame.bgra.length ∧ rowBytes ≤ frame.stride.toNat)

/-- The loop body for row `y`. -/
def pushRow (frame : VideoFrame) (rowBytes : ℕ) (rgb : Bytes) (y : ℕ) : Option Bytes := do
  let start ← Checked.unsigned 64 (y * frame.stride.toNat)
  let stop ← Checked.unsigned 64 (start + rowBytes)
  let row ← indexRange frame.bgra start stop
  return rgb ++ packRow row

/-- The RGB buffer. -/
def pack (frame : VideoFrame) : Option Bytes := do
  let rowBytes ← Checked.unsigned 64 (frame.width.toNat * 4)
  let pixels ← Checked.unsigned 64 (frame.width.toNat * frame.height.toNat)
  let capacity ← Checked.unsigned 64 (pixels * 3)
  -- a `Vec` of more than `isize::MAX` bytes panics
  if capacity < 2 ^ 63 then (List.range frame.height.toNat).foldlM (pushRow frame rowBytes) [] else none

/-- `JpegEncoder::encode`; `encodeJpeg` is the encoder of the `image` crate. -/
def encode (encodeJpeg : BitVec 8 → Bytes → BitVec 32 → BitVec 32 → Except String Bytes) (quality : BitVec 8)
    (frame : VideoFrame) : Option (Except String EncodedFrame) := do
  let fits ← check frame
  if fits then
    let rgb ← pack frame
    return (encodeJpeg quality rgb frame.width frame.height).map fun data => ⟨true, data⟩
  else return .error "frame buffer smaller than width*height"

end JpegEncoder

/-! ### One row -/

theorem exists_pixel {n : ℕ} {row : Bytes} (h : row.length = (n + 1) * 4) :
    ∃ b g r a rest, row = b :: g :: r :: a :: rest ∧ rest.length = n * 4 := by
  rcases row with _ | ⟨b, _ | ⟨g, _ | ⟨r, _ | ⟨a, rest⟩⟩⟩⟩
  all_goals simp only [List.length_nil, List.length_cons] at h
  · omega
  · omega
  · omega
  · omega
  · exact ⟨b, g, r, a, rest, rfl, by omega⟩

theorem length_packRow (n : ℕ) (row : Bytes) (hrow : row.length = n * 4) : (packRow row).length = n * 3 := by
  induction n generalizing row with
  | zero =>
    obtain rfl := List.length_eq_zero_iff.mp (by simpa using hrow)
    rfl
  | succ n ih =>
    obtain ⟨b, g, r, a, rest, rfl, hrest⟩ := exists_pixel hrow
    simp only [packRow, List.length_cons, ih rest hrest]
    omega

theorem getElem?_packRow (n : ℕ) (row : Bytes) (hrow : row.length = n * 4) {x c : ℕ} (hx : x < n) (hc : c < 3) :
    (packRow row)[x * 3 + c]? = row[x * 4 + (2 - c)]? := by
  induction n generalizing row x with
  | zero => omega
  | succ n ih =>
    obtain ⟨b, g, r, a, rest, rfl, hrest⟩ := exists_pixel hrow
    cases x with
    | zero =>
      obtain rfl | rfl | rfl : c = 0 ∨ c = 1 ∨ c = 2 := by omega
      · rfl
      · rfl
      · rfl
    | succ x =>
      have htail := ih rest hrest (x := x) (by omega)
      rw [packRow, show (x + 1) * 3 + c = x * 3 + c + 3 by omega,
        show (x + 1) * 4 + (2 - c) = x * 4 + (2 - c) + 4 by omega]
      simpa only [List.getElem?_cons_succ] using htail

/-! ### All rows -/

namespace JpegEncoder

variable {frame : VideoFrame}

/-- What the size check says. -/
structure Fits (frame : VideoFrame) : Prop where
  rows : frame.stride.toNat * frame.height.toNat ≤ frame.bgra.length
  row : frame.width.toNat * 4 ≤ frame.stride.toNat

theorem check_eq_true_iff (frame : VideoFrame) : check frame = some true ↔ Fits frame := by
  have hw := frame.width.isLt
  have hsize : frame.stride.toNat * frame.height.toNat < 2 ^ 32 * 2 ^ 32 :=
    Nat.mul_lt_mul_of_lt_of_lt frame.stride.isLt frame.height.isLt
  unfold check
  rw [Checked.unsigned_of_lt (by omega), Checked.unsigned_of_lt hsize]
  simp only [Option.bind_eq_bind, Option.bind_some, Option.pure_def, Option.some.injEq, decide_eq_true_eq]
  exact ⟨fun h => ⟨h.1, h.2⟩, fun h => ⟨h.rows, h.row⟩⟩

/-- The buffer after the first `n` rows. -/
structure Packed (frame : VideoFrame) (n : ℕ) (rgb : Bytes) : Prop where
  length : rgb.length = n * frame.width.toNat * 3
  pixel : ∀ y < n, ∀ x < frame.width.toNat, ∀ c < 3, rgb[(y * frame.width.toNat + x) * 3 + c]? =
    frame.bgra[y * frame.stride.toNat + x * 4 + (2 - c)]?

theorem Fits.row_le (h : Fits frame) {y : ℕ} (hy : y < frame.height.toNat) :
    y * frame.stride.toNat + frame.width.toNat * 4 ≤ frame.bgra.length := by
  have hlast : (y + 1) * frame.stride.toNat ≤ frame.height.toNat * frame.stride.toNat :=
    Nat.mul_le_mul_right _ hy
  have hrows := h.rows
  have hrow := h.row
  rw [Nat.mul_comm] at hrows
  rw [Nat.succ_mul] at hlast
  omega

theorem Packed.push (h : Fits frame) (hsmall : frame.bgra.length < 2 ^ 63) {y : ℕ} (hy : y < frame.height.toNat)
    {rgb : Bytes} (hrgb : Packed frame y rgb) :
    ∃ rgb', pushRow frame (frame.width.toNat * 4) rgb y = some rgb' ∧ Packed frame (y + 1) rgb' := by
  have hbound := h.row_le hy
  let row := (frame.bgra.drop (y * frame.stride.toNat)).take (frame.width.toNat * 4)
  have hrow : row.length = frame.width.toNat * 4 := by
    rw [List.length_take, List.length_drop]
    omega
  refine ⟨rgb ++ packRow row, ?_, ?_, ?_⟩
  · unfold pushRow
    rw [Checked.unsigned_of_lt (by omega)]
    dsimp only [Option.bind_eq_bind, Option.bind_some]
    rw [Checked.unsigned_of_lt (by omega)]
    dsimp only [Option.bind_some]
    rw [indexRange, if_pos ⟨by omega, hbound⟩, Nat.add_sub_cancel_left]
    rfl
  · rw [List.length_append, hrgb.length, length_packRow _ row hrow]
    ring
  · intro y' hy' x hx c hc
    rcases Nat.lt_succ_iff_lt_or_eq.mp hy' with hold | rfl
    · have hplace : (y' * frame.width.toNat + x) * 3 + c < rgb.length := by
        have hlast : (y' + 1) * frame.width.toNat ≤ y * frame.width.toNat := Nat.mul_le_mul_right _ hold
        rw [Nat.succ_mul] at hlast
        rw [hrgb.length]
        omega
      rw [List.getElem?_append_left hplace]
      exact hrgb.pixel y' hold x hx c hc
    · have hplace : (y' * frame.width.toNat + x) * 3 + c = rgb.length + (x * 3 + c) := by
        rw [hrgb.length]
        ring
      rw [hplace, List.getElem?_append_right (by omega), Nat.add_sub_cancel_left, getElem?_packRow _ row hrow hx hc,
        List.getElem?_take_of_lt (by omega), List.getElem?_drop, Nat.add_assoc]

theorem foldlM_pushRow (h : Fits frame) (hsmall : frame.bgra.length < 2 ^ 63) (n : ℕ) (hn : n ≤ frame.height.toNat) :
    ∃ rgb, (List.range n).foldlM (pushRow frame (frame.width.toNat * 4)) [] = some rgb ∧ Packed frame n rgb := by
  induction n with
  | zero => exact ⟨[], rfl, by simp, nofun⟩
  | succ n ih =>
    obtain ⟨rgb, hloop, hrgb⟩ := ih (by omega)
    obtain ⟨rgb', hpush, hrgb'⟩ := hrgb.push h hsmall (by omega)
    refine ⟨rgb', ?_, hrgb'⟩
    rw [List.range_succ, List.foldlM_append, hloop]
    simpa using hpush

theorem exists_pack (frame : StoredFrame) (h : Fits frame.toVideoFrame) :
    ∃ rgb, pack frame.toVideoFrame = some rgb ∧ Packed frame.toVideoFrame frame.height.toNat rgb := by
  obtain ⟨rgb, hloop, hrgb⟩ := foldlM_pushRow h frame.small frame.height.toNat le_rfl
  have hsmall := frame.small
  have hw := frame.width.isLt
  have hrows := h.rows
  have harea : frame.width.toNat * 4 * frame.height.toNat ≤ frame.stride.toNat * frame.height.toNat :=
    Nat.mul_le_mul_right _ h.row
  rw [Nat.mul_right_comm] at harea
  refine ⟨rgb, ?_, hrgb⟩
  unfold pack
  rw [Checked.unsigned_of_lt (by omega), Checked.unsigned_of_lt (by omega)]
  dsimp only [Option.bind_eq_bind, Option.bind_some]
  rw [Checked.unsigned_of_lt (by omega)]
  dsimp only [Option.bind_some]
  rw [if_pos (by omega), hloop]

theorem Packed.ext {frame frame' : VideoFrame} {rgb rgb' : Bytes} (h : Packed frame frame.height.toNat rgb)
    (h' : Packed frame' frame'.height.toNat rgb') (hwidth : frame'.width = frame.width)
    (hheight : frame'.height = frame.height)
    (hpixels : ∀ y < frame.height.toNat, ∀ x < frame.width.toNat, ∀ i < 3,
      frame'.bgra[y * frame'.stride.toNat + x * 4 + i]? = frame.bgra[y * frame.stride.toNat + x * 4 + i]?) :
    rgb' = rgb := by
  have hlength := h.length
  have hlength' := h'.length
  rw [hwidth, hheight] at hlength'
  apply List.ext_getElem?
  intro i
  by_cases hi : i < rgb.length
  · -- the channel, the column and the row of byte `i`
    have hwpos : 0 < frame.width.toNat := by
      apply Nat.pos_of_ne_zero
      intro hzero
      simp [hlength, hzero] at hi
    have hy : i / 3 / frame.width.toNat < frame.height.toNat := by
      rw [Nat.div_lt_iff_lt_mul hwpos]
      omega
    have hx : i / 3 % frame.width.toNat < frame.width.toNat := Nat.mod_lt _ hwpos
    have hplace : i = (i / 3 / frame.width.toNat * frame.width.toNat + i / 3 % frame.width.toNat) * 3 + i % 3 := by
      rw [Nat.div_add_mod', Nat.div_add_mod']
    have hold := h.pixel _ hy _ hx (i % 3) (Nat.mod_lt _ (by omega))
    have hnew := h'.pixel (i / 3 / frame.width.toNat) (hheight ▸ hy) (i / 3 % frame.width.toNat) (hwidth ▸ hx) (i % 3)
      (Nat.mod_lt _ (by omega))
    rw [hwidth] at hnew
    rw [hplace, hold, hnew, hpixels _ hy _ hx _ (by omega)]
  · rw [List.getElem?_eq_none (by omega), List.getElem?_eq_none (by omega)]

/-- A frame that passes the size check: no index is out of range and nothing overflows, the RGB buffer has three bytes
for each pixel, they are the R, G and B of the pixel at `y * stride + 4 * x`, and the bytes behind the pixels of a row
have no influence. -/
theorem encode_packs (encodeJpeg : BitVec 8 → Bytes → BitVec 32 → BitVec 32 → Except String Bytes)
    (quality : BitVec 8) (frame : StoredFrame) (hcheck : check frame.toVideoFrame = some true) :
    ∃ rgb, pack frame.toVideoFrame = some rgb ∧
      encode encodeJpeg quality frame.toVideoFrame =
        some ((encodeJpeg quality rgb frame.width frame.height).map fun data => ⟨true, data⟩) ∧
      rgb.length = frame.width.toNat * frame.height.toNat * 3 ∧
      (∀ y < frame.height.toNat, ∀ x < frame.width.toNat, ∀ c < 3, ∃ v,
        rgb[(y * frame.width.toNat + x) * 3 + c]? = some v ∧
          frame.bgra[y * frame.stride.toNat + 4 * x + (2 - c)]? = some v) ∧
      ∀ frame' : StoredFrame, check frame'.toVideoFrame = some true → frame'.width = frame.width →
        frame'.height = frame.height →
        (∀ y < frame.height.toNat, ∀ x < frame.width.toNat, ∀ i < 3,
          frame'.bgra[y * frame'.stride.toNat + 4 * x + i]? = frame.bgra[y * frame.stride.toNat + 4 * x + i]?) →
        pack frame'.toVideoFrame = some rgb := by
  have hfits := (check_eq_true_iff _).mp hcheck
  obtain ⟨rgb, hpack, hrgb⟩ := exists_pack frame hfits
  refine ⟨rgb, hpack, ?_, ?_, fun y hy x hx c hc => ?_, fun frame' hcheck' hwidth hheight hpixels => ?_⟩
  · simp [encode, hcheck, hpack]
  · rw [hrgb.length, Nat.mul_comm frame.height.toNat]
  · have hpixel := hrgb.pixel y hy x hx c hc
    have hbound := hfits.row_le hy
    have hinside : y * frame.stride.toNat + 4 * x + (2 - c) < frame.bgra.length := by omega
    rw [Nat.mul_comm x 4, List.getElem?_eq_getElem hinside] at hpixel
    exact ⟨_, hpixel, List.getElem?_eq_getElem hinside⟩
  · obtain ⟨rgb', hpack', hrgb'⟩ := exists_pack frame' ((check_eq_true_iff _).mp hcheck')
    rw [hpack']
    simp only [Nat.mul_comm 4] at hpixels
    rw [hrgb.ext hrgb' hwidth hheight hpixels]

/-- Two rows of one pixel, with four bytes of padding each. -/
def paddedFrame : StoredFrame where
  width := 1
  height := 2
  stride := 8
  bgra := [1, 2, 3, 255, 9, 9, 9, 9, 4, 5, 6, 255, 9, 9, 9, 9]
  small := by decide

theorem encode_packs_padded :
    ∃ rgb, pack paddedFrame.toVideoFrame = some rgb ∧ rgb.length = 6 ∧ rgb[3]? = some 6 ∧
      paddedFrame.bgra[10]? = some 6 := by
  obtain ⟨rgb, hpack, -, hlength, hpixel, -⟩ :=
    encode_packs (fun _ rgb _ _ => .ok rgb) 70 paddedFrame (by decide)
  obtain ⟨v, hv, hsource⟩ := hpixel 1 (by decide) 0 (by decide) 0 (by decide)
  obtain rfl : v = 6 := Option.some.inj (hsource.symm.trans rfl)
  exact ⟨rgb, hpack, hlength, hv, rfl⟩

end JpegEncoder

end ScreenLink

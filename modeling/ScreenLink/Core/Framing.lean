import ScreenLink.Core.Security
import ScreenLink.Lib.Frames

/-!
# Framing

`framing.rs`: `writeMsg` gives the bytes of one frame, or refuses the message; `readMsg` takes one frame off the bytes
that have arrived. What is written can be read (`readMsg_frame`). The serializer is a parameter.
-/

namespace ScreenLink

/-- `postcard::to_stdvec` and `postcard::from_bytes` of a type, with the texts of their errors. -/
structure Postcard (α : Type) where
  toStdvec : α → Except String Bytes
  fromBytes : Bytes → Except String α

/-- Hard cap on a single control frame (8 MiB). -/
def MAX_FRAME_LEN : ℕ := 8 * 1024 * 1024

namespace Postcard

variable {α : Type}

/-- What is encoded can be decoded. -/
def Lossless (c : Postcard α) : Prop := ∀ msg body, c.toStdvec msg = .ok body → c.fromBytes body = .ok msg

/-- The encoding of the message is short enough for a frame. -/
def fits (c : Postcard α) (msg : α) : Bool :=
  match c.toStdvec msg with
  | .ok body => decide (body.length ≤ MAX_FRAME_LEN)
  | .error _ => false

/-- The bytes `write_msg` writes: one frame, or none at all and an error. -/
def writeMsg (c : Postcard α) (msg : α) : Except Error Bytes :=
  match c.toStdvec msg with
  | .error text => .error (.serde text)
  | .ok body => if MAX_FRAME_LEN < body.length then .error (.frameTooLarge body.length MAX_FRAME_LEN)
    else .ok (Frames.frame 4 body)

/-- What `read_msg` returns on these bytes and what it leaves of them; `none` while it waits for more. -/
def readMsg (c : Postcard α) (bytes : Bytes) : Option (Except Error α × Bytes) :=
  match Frames.readExact 4 bytes with
  | none => none
  | some (lenBuf, bytes) =>
    let len := BigEndian.decode lenBuf
    if MAX_FRAME_LEN < len then some (.error (.frameTooLarge len MAX_FRAME_LEN), bytes)
    else match Frames.readExact len bytes with
      | none => none
      | some (body, bytes) => some ((c.fromBytes body).mapError .serde, bytes)

/-- The bytes of the frame of a message, if it has one. -/
def frame (c : Postcard α) (msg : α) : Bytes :=
  match c.writeMsg msg with
  | .ok bytes => bytes
  | .error _ => []

variable {c : Postcard α} {msg : α}

theorem fits_iff : c.fits msg = true ↔ ∃ body, c.toStdvec msg = .ok body ∧ body.length ≤ MAX_FRAME_LEN := by
  unfold fits
  cases c.toStdvec msg with
  | ok body => simp
  | error text => simp

theorem not_fits_of_long {body : Bytes} (hbody : c.toStdvec msg = .ok body) (hlong : MAX_FRAME_LEN < body.length) :
    c.fits msg = false := by
  rw [fits, hbody]
  exact decide_eq_false hlong.not_ge

theorem writeMsg_of_fits (hfits : c.fits msg = true) : c.writeMsg msg = .ok (c.frame msg) := by
  obtain ⟨body, hbody, hlen⟩ := fits_iff.mp hfits
  simp only [frame, writeMsg, hbody, if_neg hlen.not_gt]

theorem writeMsg_of_not_fits (hfits : c.fits msg = false) : ∃ err, c.writeMsg msg = .error err := by
  unfold fits at hfits
  unfold writeMsg
  split
  · exact ⟨_, rfl⟩
  · rename_i body hbody
    rw [hbody] at hfits
    rw [if_pos (Nat.not_le.mp (of_decide_eq_false hfits))]
    exact ⟨_, rfl⟩

theorem frame_of_not_fits (hfits : c.fits msg = false) : c.frame msg = [] := by
  obtain ⟨err, herr⟩ := writeMsg_of_not_fits hfits
  rw [frame, herr]

/-- What is written can be read, whatever follows it. -/
theorem readMsg_frame (hc : c.Lossless) (hfits : c.fits msg = true) (rest : Bytes) :
    c.readMsg (c.frame msg ++ rest) = some (.ok msg, rest) := by
  obtain ⟨body, hbody, hlen⟩ := fits_iff.mp hfits
  have hframe : c.frame msg = Frames.frame 4 body := by
    simp only [frame, writeMsg, hbody, if_neg hlen.not_gt]
  have hdecode : BigEndian.decode (BigEndian.encode 4 body.length) = body.length :=
    BigEndian.decode_encode (hlen.trans_lt (by decide))
  rw [readMsg, hframe, Frames.readExact_frame]
  dsimp only
  rw [hdecode, if_neg hlen.not_gt, Frames.readExact_append]
  dsimp only
  rw [hc msg body hbody]
  rfl

theorem flatMap_frame_filter (c : Postcard α) (msgs : List α) :
    (msgs.filter c.fits).flatMap c.frame = msgs.flatMap c.frame := by
  induction msgs with
  | nil => rfl
  | cons msg msgs ih =>
    cases hfits : c.fits msg with
    | true => rw [List.filter_cons_of_pos hfits, List.flatMap_cons, List.flatMap_cons, ih]
    | false =>
      rw [List.filter_cons_of_neg (by rw [hfits]; exact Bool.false_ne_true), List.flatMap_cons,
        frame_of_not_fits hfits, ih, List.nil_append]

end Postcard

end ScreenLink

import ScreenLink.Core.Framing

/-!
# A stream of frames

`write_msg` over and over on one stream, and `read_msg` on what has come through, in whatever pieces it arrives. The
reads return the messages whose writes succeeded; of a stream that is cut, those whose frames are complete; and then
the end of the stream (`readMsgs_eq`).
-/

namespace ScreenLink

/-- The error of a `read_exact` that meets the end of the stream. -/
def unexpectedEof : Error := .io "early eof"

namespace Postcard

variable {α : Type}

/-- `read_msg` on a stream that arrives in pieces, and what it leaves. -/
def readMsgFrom (c : Postcard α) (pieces : List Bytes) : Except Error α × List Bytes :=
  match Frames.readPieces 4 pieces with
  | (none, pieces) => (.error unexpectedEof, pieces)
  | (some lenBuf, pieces) =>
    let len := BigEndian.decode lenBuf
    if MAX_FRAME_LEN < len then (.error (.frameTooLarge len MAX_FRAME_LEN), pieces)
    else match Frames.readPieces len pieces with
      | (none, pieces) => (.error unexpectedEof, pieces)
      | (some body, pieces) => ((c.fromBytes body).mapError .serde, pieces)

/-- The results of `n` calls of `read_msg`. -/
def readMsgs (c : Postcard α) : ℕ → List Bytes → List (Except Error α)
  | 0, _ => []
  | n + 1, pieces => (c.readMsgFrom pieces).1 :: readMsgs c n (c.readMsgFrom pieces).2

/-- What is on the stream after `write_msg` of each message. -/
def written (c : Postcard α) (msgs : List α) : Bytes := msgs.flatMap c.frame

/-- The messages whose writes succeed. -/
def succeeded (c : Postcard α) (msgs : List α) : List α := msgs.filter fun msg => (c.writeMsg msg).isOk

/-- Those of them whose frames lie in the first `cut` bytes of the stream. -/
def complete (c : Postcard α) (cut : ℕ) : List α → List α
  | [] => []
  | msg :: msgs => match c.writeMsg msg with
    | .error _ => c.complete cut msgs
    | .ok bytes => if bytes.length ≤ cut then msg :: c.complete (cut - bytes.length) msgs else []

/-- The results of `n` reads: these messages, and then the end of the stream each time. -/
def thenEof (n : ℕ) (msgs : List α) : List (Except Error α) :=
  (msgs.map .ok).take n ++ List.replicate (n - msgs.length) (.error unexpectedEof)

variable {c : Postcard α} {msg : α}

/-! ### The pieces make no difference -/

theorem readMsgFrom_of_some {pieces : List Bytes} {res : Except Error α} {rest : Bytes} (hpieces : [] ∉ pieces)
    (hread : c.readMsg pieces.flatten = some (res, rest)) :
    ∃ later, c.readMsgFrom pieces = (res, later) ∧ later.flatten = rest ∧ [] ∉ later := by
  unfold readMsg at hread
  cases hlen : Frames.readExact 4 pieces.flatten with
  | none =>
    rw [hlen] at hread
    cases hread
  | some p =>
    obtain ⟨body, hfirst, hflat, hbody⟩ := Frames.readPieces_of_some hpieces hlen
    rw [hlen] at hread
    rw [readMsgFrom, hfirst]
    dsimp only at hread ⊢
    split_ifs at hread ⊢ with hmax
    · obtain ⟨rfl, rfl⟩ := Prod.mk.inj (Option.some.inj hread)
      exact ⟨body, rfl, hflat, hbody⟩
    · cases hmsg : Frames.readExact (BigEndian.decode p.1) p.2 with
      | none =>
        rw [hmsg] at hread
        cases hread
      | some q =>
        rw [← hflat] at hmsg
        obtain ⟨later, hsecond, hlater, hne⟩ := Frames.readPieces_of_some hbody hmsg
        rw [← hflat, hmsg] at hread
        obtain ⟨rfl, rfl⟩ := Prod.mk.inj (Option.some.inj hread)
        exact ⟨later, by rw [hsecond], hlater, hne⟩

theorem readMsgFrom_of_none {pieces : List Bytes} (hpieces : [] ∉ pieces) (hread : c.readMsg pieces.flatten = none) :
    c.readMsgFrom pieces = (.error unexpectedEof, []) := by
  unfold readMsg at hread
  cases hlen : Frames.readExact 4 pieces.flatten with
  | none => rw [readMsgFrom, Frames.readPieces_of_none hpieces hlen]
  | some p =>
    obtain ⟨body, hfirst, hflat, hbody⟩ := Frames.readPieces_of_some hpieces hlen
    rw [hlen] at hread
    rw [readMsgFrom, hfirst]
    dsimp only at hread ⊢
    split_ifs at hread ⊢ with hmax
    cases hmsg : Frames.readExact (BigEndian.decode p.1) p.2 with
    | none =>
      rw [← hflat] at hmsg
      rw [Frames.readPieces_of_none hbody hmsg]
    | some q =>
      rw [hmsg] at hread
      cases hread

/-! ### Frames, whole and cut -/

theorem isOk_writeMsg (c : Postcard α) (msg : α) : (c.writeMsg msg).isOk = c.fits msg := by
  cases hfits : c.fits msg with
  | true =>
    rw [writeMsg_of_fits hfits]
    rfl
  | false =>
    obtain ⟨err, herr⟩ := writeMsg_of_not_fits hfits
    rw [herr]
    rfl

theorem readMsg_cut (hfits : c.fits msg = true) {cut : ℕ} (hcut : cut < (c.frame msg).length) :
    c.readMsg ((c.frame msg).take cut) = none := by
  obtain ⟨body, hbody, hlen⟩ := fits_iff.mp hfits
  have hframe : c.frame msg = BigEndian.encode 4 body.length ++ body := by
    simp only [frame, writeMsg, hbody, if_neg hlen.not_gt, Frames.frame]
  have hdecode : BigEndian.decode (BigEndian.encode 4 body.length) = body.length :=
    BigEndian.decode_encode (hlen.trans_lt (by decide))
  have hfour : (BigEndian.encode 4 body.length).length = 4 := BigEndian.length_encode 4 body.length
  rw [hframe, List.length_append, hfour] at hcut
  unfold readMsg Frames.readExact
  by_cases hshort : cut < 4
  · rw [if_neg (by rw [List.length_take]; omega)]
  · rw [if_pos (by rw [hframe, List.length_take, List.length_append, hfour]; omega)]
    have htake : ((c.frame msg).take cut).take 4 = BigEndian.encode 4 body.length := by
      rw [List.take_take, min_eq_left (Nat.not_lt.mp hshort), hframe, List.take_append_of_le_length hfour.ge,
        List.take_of_length_le hfour.le]
    rw [htake]
    dsimp only
    rw [hdecode, if_neg hlen.not_gt, if_neg]
    rw [List.length_drop, List.length_take]
    omega

theorem readMsgs_nil (c : Postcard α) (n : ℕ) : c.readMsgs n [] = List.replicate n (.error unexpectedEof) := by
  induction n with
  | zero => rfl
  | succ n ih => rw [readMsgs, List.replicate_succ, ← ih, readMsgFrom, Frames.readPieces]

theorem readMsgs_of_none {pieces : List Bytes} (hpieces : [] ∉ pieces) (hread : c.readMsg pieces.flatten = none)
    (n : ℕ) : c.readMsgs n pieces = List.replicate n (.error unexpectedEof) := by
  cases n with
  | zero => rfl
  | succ n => rw [readMsgs, readMsgFrom_of_none hpieces hread, readMsgs_nil, List.replicate_succ]

theorem thenEof_nil (n : ℕ) : thenEof n ([] : List α) = List.replicate n (.error unexpectedEof) := by
  simp [thenEof]

theorem thenEof_cons (n : ℕ) (msg : α) (msgs : List α) :
    thenEof (n + 1) (msg :: msgs) = .ok msg :: thenEof n msgs := by
  simp [thenEof]

theorem readMsgs_cut (hc : c.Lossless) (msgs : List α) (cut n : ℕ) (pieces : List Bytes) (hpieces : [] ∉ pieces)
    (hbytes : pieces.flatten = (c.written msgs).take cut) : c.readMsgs n pieces = thenEof n (c.complete cut msgs) := by
  induction msgs generalizing cut n pieces with
  | nil =>
    rw [written, List.flatMap_nil, List.take_nil] at hbytes
    rw [complete, thenEof_nil]
    exact readMsgs_of_none hpieces (by rw [hbytes]; rfl) n
  | cons msg msgs ih =>
    rw [written, List.flatMap_cons, ← written] at hbytes
    rw [complete]
    cases hfits : c.fits msg with
    | false =>
      obtain ⟨err, herr⟩ := writeMsg_of_not_fits hfits
      rw [frame_of_not_fits hfits, List.nil_append] at hbytes
      rw [herr]
      exact ih cut n pieces hpieces hbytes
    | true =>
      rw [writeMsg_of_fits hfits]
      dsimp only
      split_ifs with hcut
      · cases n with
        | zero => simp [readMsgs, thenEof]
        | succ n =>
          rw [List.take_append, List.take_of_length_le hcut] at hbytes
          have hread := readMsg_frame hc hfits ((c.written msgs).take (cut - (c.frame msg).length))
          rw [← hbytes] at hread
          obtain ⟨later, hfirst, hflat, hlater⟩ := readMsgFrom_of_some hpieces hread
          rw [readMsgs, hfirst, thenEof_cons]
          congr 1
          exact ih (cut - (c.frame msg).length) n later hlater hflat
      · rw [Nat.not_le] at hcut
        rw [List.take_append_of_le_length hcut.le] at hbytes
        rw [thenEof_nil]
        exact readMsgs_of_none hpieces (by rw [hbytes]; exact readMsg_cut hfits hcut) n

theorem complete_of_le (c : Postcard α) (msgs : List α) (cut : ℕ) (hcut : (c.written msgs).length ≤ cut) :
    c.complete cut msgs = c.succeeded msgs := by
  induction msgs generalizing cut with
  | nil => rfl
  | cons msg msgs ih =>
    rw [written, List.flatMap_cons, ← written, List.length_append] at hcut
    rw [complete, succeeded, List.filter_cons, isOk_writeMsg, ← succeeded]
    cases hfits : c.fits msg with
    | false =>
      obtain ⟨err, herr⟩ := writeMsg_of_not_fits hfits
      rw [herr, if_neg Bool.false_ne_true]
      exact ih cut (by omega)
    | true =>
      rw [writeMsg_of_fits hfits, if_pos rfl]
      dsimp only
      rw [if_pos (by omega), ih _ (by omega)]

/-- For all messages written to one stream: however the bytes arrive, `read_msg` returns the messages whose writes
succeeded, in order, and then the end of the stream; and if the stream is cut at any byte, the messages whose frames are
complete, and then the end. -/
theorem readMsgs_eq (hc : c.Lossless) (msgs : List α) (n : ℕ) (pieces : List Bytes) (hpieces : [] ∉ pieces) :
    (pieces.flatten = c.written msgs → c.readMsgs n pieces = thenEof n (c.succeeded msgs)) ∧
      ∀ cut, pieces.flatten = (c.written msgs).take cut → c.readMsgs n pieces = thenEof n (c.complete cut msgs) := by
  refine ⟨fun hbytes => ?_, fun cut hbytes => readMsgs_cut hc msgs cut n pieces hpieces hbytes⟩
  have hwhole : pieces.flatten = (c.written msgs).take (c.written msgs).length := by rw [hbytes, List.take_length]
  rw [readMsgs_cut hc msgs _ n pieces hpieces hwhole, complete_of_le c msgs _ le_rfl]

/-- `postcard` on one byte. -/
def bytePostcard : Postcard UInt8 where
  toStdvec byte := .ok [byte]
  fromBytes
    | [] => .error "Hit the end of buffer, expected more data"
    | byte :: _ => .ok byte

theorem bytePostcard_lossless : bytePostcard.Lossless := by
  rintro byte body ⟨⟩
  rfl

/-- Two messages in four pieces, and the same cut in the middle of the second length. -/
theorem readMsgs_eq_twoBytes :
    bytePostcard.readMsgs 3 [[0, 0], [0, 1, 7, 0, 0], [0], [1, 9]] = [.ok 7, .ok 9, .error unexpectedEof] ∧
      bytePostcard.readMsgs 2 [[0, 0], [0, 1, 7, 0, 0]] = [.ok 7, .error unexpectedEof] := by
  have hwhole := (readMsgs_eq bytePostcard_lossless [7, 9] 3 [[0, 0], [0, 1, 7, 0, 0], [0], [1, 9]] (by decide)).1 rfl
  have hcut := (readMsgs_eq bytePostcard_lossless [7, 9] 2 [[0, 0], [0, 1, 7, 0, 0]] (by decide)).2 7 rfl
  exact ⟨hwhole, hcut⟩

end Postcard

end ScreenLink

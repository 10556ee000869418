import Mathlib.Data.List.Induction
import Mathlib.Order.Bounds.Basic
import ScreenLink.Core.Realtime
import ScreenLink.Lib.Checked
import ScreenLink.Lib.SlidingWindow

/-!
# The replay window as a set

`ReplayWindow.Tracks w A`: the window's three fields represent the set `A` of numbers accepted so far, exactly
down to 63 below the highest. `accept` answers `Fresh 64 A` and tracks the enlarged set (`accept_cases`); an
answer of `false` leaves the window as it was. Over any sequence of numbers the answers are those of the specification
that keeps the set itself, and no operation overflows (`accept_spec`).
-/

namespace ScreenLink.ReplayWindow

open SlidingWindow

/-- The window represents the set `A` of accepted sequence numbers. -/
def Tracks (w : ReplayWindow) (A : Set ℕ) : Prop :=
  (w.seenAny = false ∧ A = ∅) ∨
    (w.seenAny = true ∧ w.highest.toNat ∈ A ∧ (∀ a ∈ A, a ≤ w.highest.toNat) ∧
      Marks w.bitmap w.highest.toNat A)

theorem tracks_default : Tracks {} ∅ := Or.inl ⟨rfl, rfl⟩

theorem accept_first {w : ReplayWindow} (hseen : w.seenAny = false) (seq : BitVec 64) :
    w.accept seq = ({ highest := seq, bitmap := 1, seenAny := true }, true) := by
  simp [accept, hseen]

theorem accept_above {w : ReplayWindow} (hseen : w.seenAny = true) {seq : BitVec 64}
    (hlt : w.highest.toNat < seq.toNat) :
    w.accept seq = ({ w with
      bitmap := if 64 ≤ seq.toNat - w.highest.toNat then 1#64
        else (w.bitmap <<< (seq.toNat - w.highest.toNat)) ||| 1#64
      highest := seq }, true) := by
  have hbv : w.highest < seq := hlt
  have hsub : (seq - w.highest).toNat = seq.toNat - w.highest.toNat := by bv_omega
  have hwidth : WIDTH ≤ seq - w.highest ↔ 64 ≤ seq.toNat - w.highest.toNat := by
    rw [← hsub]
    exact Iff.rfl
  simp only [accept, hseen, Bool.not_true, Bool.false_eq_true, if_false, hbv, if_true, hwidth]
  rw [← hsub]
  rfl

theorem accept_below {w : ReplayWindow} (hseen : w.seenAny = true) {seq : BitVec 64}
    (hle : seq.toNat ≤ w.highest.toNat) :
    w.accept seq =
      if 64 ≤ w.highest.toNat - seq.toNat then (w, false)
      else if w.bitmap &&& (1#64 <<< (w.highest.toNat - seq.toNat)) ≠ 0#64 then (w, false)
      else ({ w with bitmap := w.bitmap ||| (1#64 <<< (w.highest.toNat - seq.toNat)) }, true) := by
  have hbv : ¬ w.highest < seq := Nat.not_lt.mpr hle
  have hsub : (w.highest - seq).toNat = w.highest.toNat - seq.toNat := by bv_omega
  have hwidth : WIDTH ≤ w.highest - seq ↔ 64 ≤ w.highest.toNat - seq.toNat := by
    rw [← hsub]
    exact Iff.rfl
  simp only [accept, hseen, Bool.not_true, Bool.false_eq_true, if_false, hbv, hwidth]
  rw [← hsub]
  rfl

theorem accept_false {w : ReplayWindow} {seq : BitVec 64} (h : (w.accept seq).2 = false) :
    (w.accept seq).1 = w := by
  cases hseen : w.seenAny with
  | false =>
    rw [accept_first hseen] at h
    cases h
  | true =>
    by_cases hlt : w.highest.toNat < seq.toNat
    · rw [accept_above hseen hlt] at h
      cases h
    · rw [accept_below hseen (Nat.not_lt.mp hlt)] at h ⊢
      split_ifs at h ⊢ <;> rfl

/-- One call of `accept` against the set the window tracks. -/
theorem accept_cases {w : ReplayWindow} {A : Set ℕ} (h : w.Tracks A) (seq : BitVec 64) :
    (Fresh 64 A seq.toNat ∧ (w.accept seq).2 = true ∧ (w.accept seq).1.Tracks (insert seq.toNat A)) ∨
      (¬ Fresh 64 A seq.toNat ∧ w.accept seq = (w, false)) := by
  rcases h with ⟨hseen, rfl⟩ | ⟨hseen, hmem, htop, hmarks⟩
  · left
    rw [accept_first hseen]
    refine ⟨⟨Set.notMem_empty _, fun a ha => absurd ha (Set.notMem_empty a)⟩, rfl, Or.inr ⟨rfl, ?_⟩⟩
    rw [LawfulSingleton.insert_empty_eq]
    exact ⟨rfl, fun a ha => le_of_eq ha, Marks.first _⟩
  · by_cases hlt : w.highest.toNat < seq.toNat
    · -- a new highest number: it is above everything accepted so far
      left
      rw [accept_above hseen hlt]
      have hnew : seq.toNat ∉ A := fun hin => by
        have := htop _ hin
        omega
      refine ⟨⟨hnew, fun a ha => by have := htop a ha; omega⟩, rfl, Or.inr ⟨hseen, Or.inl rfl, ?_, ?_⟩⟩
      · rintro a (rfl | ha)
        · exact le_refl _
        · exact (htop a ha).trans hlt.le
      · by_cases hjump : 64 ≤ seq.toNat - w.highest.toNat
        · simp only [hjump, if_true]
          exact Marks.jump htop (by omega)
        · simp only [hjump, if_false]
          exact hmarks.advance htop hlt
    · have hle : seq.toNat ≤ w.highest.toNat := by omega
      rw [accept_below hseen hle]
      by_cases hold : 64 ≤ w.highest.toNat - seq.toNat
      · right
        rw [if_pos hold]
        exact ⟨fun hfresh => by have := hfresh.2 _ hmem; omega, rfl⟩
      · rw [if_neg hold]
        by_cases hseqA : seq.toNat ∈ A
        · right
          rw [if_pos ((hmarks.test_iff hle (by omega)).mpr hseqA)]
          exact ⟨fun hfresh => hfresh.1 hseqA, rfl⟩
        · left
          have hzero := mt (hmarks.test_iff hle (by omega)).mp hseqA
          rw [if_neg hzero]
          refine ⟨⟨hseqA, fun a ha => by have := htop a ha; omega⟩, rfl, Or.inr ⟨hseen, Or.inr hmem, ?_, ?_⟩⟩
          · rintro a (rfl | ha)
            · exact hle
            · exact htop a ha
          · exact hmarks.record hle

/-! ### Checked arithmetic -/

/-- `accept` where a subtraction below zero and a shift by 64 or more are errors. -/
def acceptChecked (w : ReplayWindow) (seq : BitVec 64) : Option (ReplayWindow × Bool) :=
  if !w.seenAny then
    some ({ highest := seq, bitmap := 1, seenAny := true }, true)
  else if w.highest < seq then do
    let shift ← Checked.sub seq w.highest
    let bitmap ← if WIDTH ≤ shift then some 1 else (Checked.shl w.bitmap shift).map (· ||| 1)
    return ({ w with bitmap := bitmap, highest := seq }, true)
  else do
    let diff ← Checked.sub w.highest seq
    if WIDTH ≤ diff then return (w, false)
    else
      let mask ← Checked.shl 1 diff
      if w.bitmap &&& mask ≠ 0 then return (w, false)
      else return ({ w with bitmap := w.bitmap ||| mask }, true)

theorem acceptChecked_eq (w : ReplayWindow) (seq : BitVec 64) : w.acceptChecked seq = some (w.accept seq) := by
  unfold acceptChecked accept
  by_cases hseen : (!w.seenAny) = true
  · rw [if_pos hseen, if_pos hseen]
  rw [if_neg hseen, if_neg hseen]
  by_cases hlt : w.highest < seq
  · rw [if_pos hlt, if_pos hlt, Checked.sub_of_le (BitVec.le_of_lt hlt)]
    dsimp only [Option.bind_eq_bind, Option.bind_some]
    by_cases hjump : WIDTH ≤ seq - w.highest
    · rw [if_pos hjump, if_pos hjump]
      rfl
    · have hshift : (seq - w.highest).toNat < 64 := Nat.not_le.mp hjump
      rw [if_neg hjump, if_neg hjump, Checked.shl_of_lt _ hshift]
      rfl
  · rw [if_neg hlt, if_neg hlt, Checked.sub_of_le (BitVec.not_lt.mp hlt)]
    dsimp only [Option.bind_eq_bind, Option.bind_some]
    by_cases hold : WIDTH ≤ w.highest - seq
    · rw [if_pos hold, if_pos hold]
      rfl
    · have hshift : (w.highest - seq).toNat < 64 := Nat.not_le.mp hold
      rw [if_neg hold, if_neg hold, Checked.shl_of_lt _ hshift]
      dsimp only [Option.bind_some]
      split_ifs <;> rfl

/-! ### Against the specification -/

/-- The window after a sequence of numbers. -/
def feed (w : ReplayWindow) (seqs : List (BitVec 64)) : ReplayWindow := seqs.foldl (fun w seq => (w.accept seq).1) w

/-- The numbers that a fresh window has accepted. -/
def acceptedIn (seqs : List (BitVec 64)) : Set ℕ :=
  {n | ∃ front seq back, seqs = front ++ seq :: back ∧ ((feed {} front).accept seq).2 = true ∧ seq.toNat = n}

/-- The specification: a number is accepted if it has not been, and is less than 64 behind the highest that was. -/
def Admits (A : Set ℕ) (seq : ℕ) : Prop := seq ∉ A ∧ (A = ∅ ∨ ∃ highest, IsGreatest A highest ∧ highest < seq + 64)

theorem feed_snoc (w : ReplayWindow) (seqs : List (BitVec 64)) (seq : BitVec 64) :
    w.feed (seqs ++ [seq]) = ((w.feed seqs).accept seq).1 := by
  simp [feed]

theorem acceptedIn_nil : acceptedIn [] = ∅ := by
  ext n
  simp [acceptedIn]

theorem acceptedIn_snoc (seqs : List (BitVec 64)) (seq : BitVec 64) :
    acceptedIn (seqs ++ [seq]) =
      {n | n ∈ acceptedIn seqs ∨ ((feed {} seqs).accept seq).2 = true ∧ seq.toNat = n} := by
  ext n
  constructor
  · rintro ⟨front, s, back, hsplit, hok, rfl⟩
    rcases List.eq_nil_or_concat back with rfl | ⟨back, last, rfl⟩
    · obtain ⟨rfl, hlast⟩ := List.append_inj' hsplit rfl
      obtain rfl := List.singleton_inj.mp hlast
      exact Or.inr ⟨hok, rfl⟩
    · rw [List.concat_eq_append, ← List.cons_append, ← List.append_assoc] at hsplit
      obtain ⟨rfl, -⟩ := List.append_inj' hsplit rfl
      exact Or.inl ⟨front, s, back, rfl, hok, rfl⟩
  · rintro (⟨front, s, back, rfl, hok, rfl⟩ | ⟨hok, rfl⟩)
    · exact ⟨front, s, back ++ [seq], by simp, hok, rfl⟩
    · exact ⟨seqs, seq, [], rfl, hok, rfl⟩

theorem tracks_feed (seqs : List (BitVec 64)) : (feed {} seqs).Tracks (acceptedIn seqs) := by
  induction seqs using List.reverseRecOn with
  | nil =>
    rw [acceptedIn_nil]
    exact tracks_default
  | append_singleton seqs seq ih =>
    rw [feed_snoc, acceptedIn_snoc]
    rcases accept_cases ih seq with ⟨-, hok, htracks⟩ | ⟨-, hrefused⟩
    · rw [hok]
      have hset : {n | n ∈ acceptedIn seqs ∨ true = true ∧ seq.toNat = n} = insert seq.toNat (acceptedIn seqs) := by
        ext n
        simp only [true_and, Set.mem_ofPred_eq, Set.mem_insert_iff]
        constructor
        · rintro (hold | rfl)
          · exact Or.inr hold
          · exact Or.inl rfl
        · rintro (rfl | hold)
          · exact Or.inr rfl
          · exact Or.inl hold
      rwa [hset]
    · rw [hrefused]
      simpa using ih

theorem Tracks.fresh_iff {w : ReplayWindow} {A : Set ℕ} (h : w.Tracks A) (seq : ℕ) : Fresh 64 A seq ↔ Admits A seq := by
  unfold Fresh Admits
  refine and_congr_right fun _ => ?_
  rcases h with ⟨-, rfl⟩ | ⟨-, hmem, htop, -⟩
  · simp
  · constructor
    · intro hall
      exact Or.inr ⟨_, ⟨hmem, htop⟩, hall _ hmem⟩
    · rintro (rfl | ⟨highest, hgreatest, hlt⟩) a ha
      · cases ha
      · exact (hgreatest.2 ha).trans_lt hlt

/-- A fresh window fed with any numbers answers as the specification, and no operation overflows. -/
theorem accept_spec (seqs : List (BitVec 64)) (seq : BitVec 64) :
    (((feed {} seqs).accept seq).2 = true ↔ Admits (acceptedIn seqs) seq.toNat) ∧
      (feed {} seqs).acceptChecked seq = some ((feed {} seqs).accept seq) := by
  refine ⟨?_, acceptChecked_eq _ _⟩
  rw [← (tracks_feed seqs).fresh_iff]
  rcases accept_cases (tracks_feed seqs) seq with ⟨hfresh, hok, -⟩ | ⟨hnot, hrefused⟩
  · exact iff_of_true hok hfresh
  · rw [hrefused]
    exact iff_of_false Bool.false_ne_true hnot

end ScreenLink.ReplayWindow

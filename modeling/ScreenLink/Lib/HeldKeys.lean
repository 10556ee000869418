import Mathlib.Data.List.Induction
import Mathlib.Data.List.Nodup

/-!
# Held keys

A log of key events `(key, pressed)`, and the list a program keeps of the keys that are down. A key is down when
the last event about it is a press (`Down`); the list is right when it has no duplicates and its members are the
keys that are down (`Tracks`). Pressing, releasing and releasing everything keep it right, also when each event is
logged several times in a row, as a sender over a lossy channel does.
-/

namespace HeldKeys

variable {α : Type*} [DecidableEq α]

/-- The last event about `k` is a press. -/
def Down (log : List (α × Bool)) (k : α) : Prop := (log.filter fun e => e.1 = k).getLast? = some (k, true)

instance (log : List (α × Bool)) (k : α) : Decidable (Down log k) := inferInstanceAs (Decidable (_ = _))

@[simp] theorem not_down_nil (k : α) : ¬ Down [] k := by simp [Down]

theorem down_snoc (log : List (α × Bool)) (j k : α) (b : Bool) :
    Down (log ++ [(j, b)]) k ↔ if j = k then b = true else Down log k := by
  unfold Down
  by_cases h : j = k
  · subst h
    simp
  · simp [h]

/-- The last event about `k` is a release. -/
def Up (log : List (α × Bool)) (k : α) : Prop := (log.filter fun e => e.1 = k).getLast? = some (k, false)

instance (log : List (α × Bool)) (k : α) : Decidable (Up log k) := inferInstanceAs (Decidable (_ = _))

@[simp] theorem not_up_nil (k : α) : ¬ Up [] k := by simp [Up]

theorem up_snoc (log : List (α × Bool)) (j k : α) (b : Bool) :
    Up (log ++ [(j, b)]) k ↔ if j = k then b = false else Up log k := by
  unfold Up
  by_cases h : j = k
  · subst h
    simp
  · simp [h]

/-- What the last event about any of the keys in `p` was. -/
def lastOf (p : α → Bool) (log : List (α × Bool)) : Option Bool := (log.filter fun e => p e.1).getLast?.map Prod.snd

omit [DecidableEq α] in
theorem lastOf_snoc (p : α → Bool) (log : List (α × Bool)) (k : α) (b : Bool) :
    lastOf p (log ++ [(k, b)]) = if p k then some b else lastOf p log := by
  unfold lastOf
  cases h : p k <;> simp [h]

theorem exists_down_of_lastOf {p : α → Bool} {log : List (α × Bool)} (h : lastOf p log = some true) :
    ∃ k, p k = true ∧ Down log k := by
  induction log using List.reverseRecOn with
  | nil => cases h
  | append_singleton log e ih =>
    obtain ⟨j, b⟩ := e
    rw [lastOf_snoc] at h
    by_cases hj : p j = true
    · rw [if_pos hj] at h
      exact ⟨j, hj, (down_snoc log j j b).mpr (by rw [if_pos rfl]; exact Option.some.inj h)⟩
    · rw [if_neg hj] at h
      obtain ⟨k, hk, hdown⟩ := ih h
      have hne : j ≠ k := fun heq => hj (heq ▸ hk)
      exact ⟨k, hk, (down_snoc log j k b).mpr (by rwa [if_neg hne])⟩

theorem down_append_replicate {n : ℕ} (hn : 0 < n) (log : List (α × Bool)) (j k : α) (b : Bool) :
    Down (log ++ List.replicate n (j, b)) k ↔ if j = k then b = true else Down log k := by
  induction n with
  | zero => omega
  | succ n ih =>
    rw [List.replicate_succ', ← List.append_assoc, down_snoc]
    rcases Nat.eq_zero_or_pos n with rfl | hpos
    · simp
    · split_ifs with hjk
      · exact Iff.rfl
      · rw [ih hpos, if_neg hjk]

theorem down_append_releases {n : ℕ} (hn : 0 < n) (log : List (α × Bool)) (ks : List α) (k : α) :
    Down (log ++ ks.flatMap fun j => List.replicate n (j, false)) k ↔ Down log k ∧ k ∉ ks := by
  induction ks generalizing log with
  | nil => simp
  | cons j ks ih =>
    rw [List.flatMap_cons, ← List.append_assoc, ih, down_append_replicate hn, List.mem_cons, not_or]
    by_cases h : j = k
    · simp [h]
    · simp [h, Ne.symm h]

theorem down_append (log later : List (α × Bool)) (k : α) :
    Down (log ++ later) k ↔ Down later k ∨ (Down log k ∧ ∀ b, (k, b) ∉ later) := by
  unfold Down
  rw [List.filter_append, List.getLast?_append]
  by_cases h : ∀ b, (k, b) ∉ later
  · have hempty : (later.filter fun e => e.1 = k) = [] := by
      rw [List.filter_eq_nil_iff]
      rintro ⟨j, b⟩ he
      simp only [decide_eq_true_eq]
      rintro rfl
      exact h b he
    rw [hempty, List.getLast?_nil, Option.none_or]
    constructor
    · intro hlog
      exact Or.inr ⟨hlog, h⟩
    · rintro (hlater | ⟨hlog, -⟩)
      · cases hlater
      · exact hlog
  · obtain ⟨b, hb⟩ := not_forall_not.mp h
    have hne : (later.filter fun e => e.1 = k) ≠ [] := List.ne_nil_of_mem (List.mem_filter.mpr ⟨hb, by simp⟩)
    rw [List.getLast?_eq_some_getLast hne, Option.some_or]
    constructor
    · exact Or.inl
    · rintro (hlater | ⟨-, hnone⟩)
      · exact hlater
      · exact absurd hnone h

theorem down_append_congr {log log' : List (α × Bool)} (h : ∀ k, Down log k ↔ Down log' k) (later : List (α × Bool))
    (k : α) : Down (log ++ later) k ↔ Down (log' ++ later) k := by
  rw [down_append, down_append, h k]

theorem down_filter (p : α → Bool) (log : List (α × Bool)) (k : α) :
    Down (log.filter fun e => p e.1) k ↔ p k = true ∧ Down log k := by
  induction log using List.reverseRecOn with
  | nil => simp
  | append_singleton log e ih =>
    obtain ⟨j, b⟩ := e
    rw [List.filter_append, down_snoc]
    by_cases hj : p j = true
    · have hkept : [(j, b)].filter (fun e => p e.1) = [(j, b)] := by simp [hj]
      rw [hkept, down_snoc]
      by_cases hjk : j = k
      · subst hjk
        simp [hj]
      · rw [if_neg hjk, if_neg hjk, ih]
    · have hdropped : [(j, b)].filter (fun e => p e.1) = [] := by simp [hj]
      rw [hdropped, List.append_nil, ih]
      by_cases hjk : j = k
      · subst hjk
        simp [hj]
      · rw [if_neg hjk]


/-- A key that was up and is down when one event is left out: that event was the last one about it, its release. -/
theorem down_of_loss {log later : List (α × Bool)} {e : α × Bool} {k : α} (hup : ¬ Down (log ++ e :: later) k)
    (hdown : Down (log ++ later) k) : e = (k, false) ∧ Down log k ∧ ∀ b, (k, b) ∉ later := by
  rw [← List.singleton_append, ← List.append_assoc, down_append, not_or] at hup
  rcases (down_append log later k).mp hdown with hlater | ⟨hlog, hnone⟩
  · exact absurd hlater hup.1
  · obtain ⟨j, b⟩ := e
    have hsnoc : ¬ Down (log ++ [(j, b)]) k := fun hd => hup.2 ⟨hd, hnone⟩
    rw [down_snoc] at hsnoc
    by_cases hjk : j = k
    · rw [if_pos hjk, Bool.not_eq_true] at hsnoc
      exact ⟨by rw [hjk, hsnoc], hlog, hnone⟩
    · rw [if_neg hjk] at hsnoc
      exact absurd hlog hsnoc

theorem not_down_of_releases {log : List (α × Bool)} {k : α} (h : (k, true) ∉ log) : ¬ Down log k := fun hdown =>
  h (List.mem_of_mem_filter (List.mem_of_getLast? hdown))

/-! ### The list of held keys -/

/-- Add a key, once. -/
def press (held : List α) (k : α) : List α := if k ∈ held then held else held ++ [k]

/-- Remove a key. -/
def release (held : List α) (k : α) : List α := held.filter fun j => j ≠ k

@[simp] theorem mem_press (held : List α) (j k : α) : j ∈ press held k ↔ j = k ∨ j ∈ held := by
  unfold press
  split_ifs with h
  · exact ⟨Or.inr, fun hj => hj.elim (fun heq => heq ▸ h) id⟩
  · simp [or_comm]

@[simp] theorem mem_release (held : List α) (j k : α) : j ∈ release held k ↔ j ≠ k ∧ j ∈ held := by
  simp [release, and_comm]

theorem nodup_press {held : List α} (h : held.Nodup) (k : α) : (press held k).Nodup := by
  unfold press
  split_ifs with hk
  · exact h
  · exact List.nodup_append.mpr ⟨h, List.nodup_singleton k, fun a ha b hb => by
      rw [List.mem_singleton] at hb
      rintro rfl
      exact hk (hb ▸ ha)⟩

theorem nodup_release {held : List α} (h : held.Nodup) (k : α) : (release held k).Nodup := h.filter _

/-- The list holds exactly the keys that are down, each once. -/
structure Tracks (held : List α) (log : List (α × Bool)) : Prop where
  nodup : held.Nodup
  mem_iff : ∀ k, k ∈ held ↔ Down log k

namespace Tracks

variable {held : List α} {log : List (α × Bool)}

theorem nil : Tracks ([] : List α) [] := ⟨List.nodup_nil, by simp⟩

theorem press (h : Tracks held log) {n : ℕ} (hn : 0 < n) (k : α) :
    Tracks (press held k) (log ++ List.replicate n (k, true)) where
  nodup := nodup_press h.nodup k
  mem_iff j := by
    rw [mem_press, down_append_replicate hn, h.mem_iff]
    by_cases hjk : k = j
    · simp [hjk]
    · simp [hjk, Ne.symm hjk]

theorem release (h : Tracks held log) {n : ℕ} (hn : 0 < n) (k : α) :
    Tracks (release held k) (log ++ List.replicate n (k, false)) where
  nodup := nodup_release h.nodup k
  mem_iff j := by
    rw [mem_release, down_append_replicate hn, h.mem_iff]
    by_cases hjk : k = j
    · simp [hjk]
    · simp [hjk, Ne.symm hjk]

theorem releaseAll (h : Tracks held log) {n : ℕ} (hn : 0 < n) :
    Tracks [] (log ++ held.flatMap fun k => List.replicate n (k, false)) where
  nodup := List.nodup_nil
  mem_iff k := by
    rw [down_append_releases hn, h.mem_iff]
    simp

end Tracks

end HeldKeys

import Mathlib.Data.List.Induction

/-!
# A bounded channel and its waiting senders

A line holds, in order, the messages in the channel and behind them those of the senders that wait for room, each
with the task that sends it. With capacity `cap` the first `cap` places are in the channel, and a task waits iff a
message of its own is behind them. The receiver takes from the front, so places become free in the order of the
sends. `upTo` counts the messages up to a task's last one: it goes on when that many less `cap` have been taken.
-/

namespace BoundedChannel

variable {τ : Type*} [DecidableEq τ]

/-- Some message of the task is not in the channel yet. -/
def Waits (cap : ℕ) (line : List τ) (task : τ) : Prop := task ∈ line.drop cap

instance (cap : ℕ) (line : List τ) (task : τ) : Decidable (Waits cap line task) :=
  inferInstanceAs (Decidable (_ ∈ _))

/-- The number of messages up to the last one of the task. -/
def upTo (task : τ) : List τ → ℕ
  | [] => 0
  | t :: line => if t = task ∨ 0 < upTo task line then upTo task line + 1 else 0

variable {cap : ℕ} {line : List τ} {task t : τ}

theorem upTo_le_length (task : τ) (line : List τ) : upTo task line ≤ line.length := by
  induction line with
  | nil => exact Nat.le_refl 0
  | cons t line ih =>
    rw [upTo, List.length_cons]
    split_ifs <;> omega

theorem upTo_tail (task : τ) (line : List τ) : upTo task line.tail = upTo task line - 1 := by
  cases line with
  | nil => rfl
  | cons t line =>
    rw [List.tail_cons, upTo]
    split_ifs with h
    · omega
    · omega

theorem upTo_drop (task : τ) (line : List τ) (k : ℕ) : upTo task (line.drop k) = upTo task line - k := by
  induction k with
  | zero => rfl
  | succ k ih => rw [← List.tail_drop, upTo_tail, ih, Nat.sub_sub]

theorem upTo_concat_self (task : τ) (line : List τ) : upTo task (line ++ [task]) = line.length + 1 := by
  induction line with
  | nil => simp [upTo]
  | cons t line ih => simp [upTo, ih]

theorem upTo_concat_of_ne (line : List τ) (h : t ≠ task) : upTo task (line ++ [t]) = upTo task line := by
  induction line with
  | nil => simp [upTo, h]
  | cons u line ih => simp only [List.cons_append, upTo, ih]

theorem upTo_append_of_notMem {more : List τ} (h : task ∉ more) : upTo task (line ++ more) = upTo task line := by
  induction more using List.reverseRecOn with
  | nil => rw [List.append_nil]
  | append_singleton more t ih =>
    simp only [List.mem_append, List.mem_singleton, not_or] at h
    rw [← List.append_assoc, upTo_concat_of_ne _ (Ne.symm h.2), ih h.1]

theorem upTo_append_replicate {n : ℕ} (h : 0 < n) (task : τ) (line : List τ) :
    upTo task (line ++ List.replicate n task) = line.length + n := by
  obtain ⟨k, rfl⟩ := Nat.exists_eq_add_one.mpr h
  rw [List.replicate_succ', ← List.append_assoc, upTo_concat_self]
  simp
  omega

theorem mem_iff_upTo_pos : task ∈ line ↔ 0 < upTo task line := by
  induction line with
  | nil => simp [upTo]
  | cons t line ih =>
    rw [upTo, List.mem_cons, ih, eq_comm]
    split_ifs with h
    · simp [h]
    · simp [h]

omit [DecidableEq τ] in
theorem waits_of_tail (h : Waits cap line.tail task) : Waits cap line task := by
  rw [Waits, List.drop_tail, ← List.drop_drop] at h
  exact List.mem_of_mem_drop h

omit [DecidableEq τ] in
theorem Waits.append (h : Waits cap line task) (more : List τ) : Waits cap (line ++ more) task := by
  rw [Waits, List.drop_append]
  exact List.mem_append_left _ h

theorem waits_iff : Waits cap line task ↔ cap < upTo task line := by
  rw [Waits, mem_iff_upTo_pos, upTo_drop]
  omega

end BoundedChannel

import Mathlib.Data.List.Basic
import Mathlib.Tactic.Common

/-!
# Filling slots

A list of `n` slots, filled from numbered pieces that arrive in any order and any number of times: the first piece
with the slot's number is kept (`put_slots`). All slots are full exactly when every number has arrived (`filled_iff`),
and then they can be read out in order (`mapM_of_countP`).
-/

namespace Slots

variable {α : Type*}

/-- Fill slot `i`, unless there is no such slot or it is full. -/
def put (parts : List (Option α)) (i : ℕ) (a : α) : List (Option α) :=
  match parts[i]? with
  | some none => parts.set i (some a)
  | _ => parts

/-- The `n` slots after the pieces `xs`. -/
def slots (n : ℕ) (xs : List (ℕ × α)) : List (Option α) := (List.range n).map fun i => xs.lookup i

@[simp] theorem length_slots (n : ℕ) (xs : List (ℕ × α)) : (slots n xs).length = n := by simp [slots]

theorem slots_nil (n : ℕ) : slots n ([] : List (ℕ × α)) = List.replicate n none := by
  simp [slots, List.map_const']

theorem getElem?_slots (n : ℕ) (xs : List (ℕ × α)) (i : ℕ) :
    (slots n xs)[i]? = if i < n then some (xs.lookup i) else none := by
  by_cases h : i < n
  · simp [slots, h]
  · simp [slots, h]

theorem lookup_snoc (xs : List (ℕ × α)) (i j : ℕ) (a : α) :
    (xs ++ [(i, a)]).lookup j = (xs.lookup j).or (if j = i then some a else none) := by
  rw [List.lookup_append]
  by_cases h : j = i
  · simp [h]
  · have hne : (j == i) = false := beq_false_of_ne h
    simp [List.lookup_cons, hne, h]

/-- One more piece: it fills its slot if it is the first with its number. -/
theorem put_slots (n : ℕ) (xs : List (ℕ × α)) (i : ℕ) (a : α) :
    put (slots n xs) i a = slots n (xs ++ [(i, a)]) := by
  have hget := getElem?_slots n xs i
  have hsame : ∀ j, (j = i → j < n → (xs.lookup j).isSome) → j < n →
      (xs ++ [(i, a)]).lookup j = xs.lookup j := by
    intro j hfull hj
    rw [lookup_snoc]
    by_cases hji : j = i
    · obtain ⟨b, hb⟩ := Option.isSome_iff_exists.mp (hfull hji hj)
      simp [hb]
    · simp [hji]
  apply List.ext_getElem?
  intro j
  unfold put
  by_cases hi : i < n
  · rw [if_pos hi] at hget
    cases hlook : xs.lookup i with
    | none =>
      rw [hget, hlook]
      dsimp only
      rw [List.getElem?_set, getElem?_slots, getElem?_slots, lookup_snoc]
      by_cases hij : i = j
      · subst hij
        simp [hi, hlook]
      · simp [hij, Ne.symm hij]
    | some b =>
      rw [hget, hlook]
      dsimp only
      rw [getElem?_slots, getElem?_slots]
      by_cases hj : j < n
      · rw [if_pos hj, if_pos hj, hsame j (fun hji _ => by simp [hji, hlook]) hj]
      · rw [if_neg hj, if_neg hj]
  · rw [if_neg hi] at hget
    rw [hget]
    dsimp only
    rw [getElem?_slots, getElem?_slots]
    by_cases hj : j < n
    · rw [if_pos hj, if_pos hj, hsame j (fun hji _ => by omega) hj]
    · rw [if_neg hj, if_neg hj]

theorem countP_set_some {parts : List (Option α)} {i : ℕ} (h : parts[i]? = some none) (a : α) :
    (parts.set i (some a)).countP Option.isSome = parts.countP Option.isSome + 1 := by
  obtain ⟨hi, hget⟩ := List.getElem?_eq_some_iff.mp h
  simp [List.countP_set, hi, hget]

theorem lookup_isSome (xs : List (ℕ × α)) (i : ℕ) : (xs.lookup i).isSome ↔ ∃ a, (i, a) ∈ xs := by
  simp [List.lookup_isSome_iff]

/-- Every slot is full when every number has arrived. -/
theorem filled_iff (n : ℕ) (xs : List (ℕ × α)) :
    (slots n xs).countP Option.isSome = n ↔ ∀ i < n, ∃ a, (i, a) ∈ xs := by
  have hlen := length_slots n xs
  constructor
  · intro hcount i hi
    have hall := List.countP_eq_length.mp (hcount.trans hlen.symm)
    rw [← lookup_isSome]
    apply hall
    exact List.mem_map.mpr ⟨i, List.mem_range.mpr hi, rfl⟩
  · intro hall
    refine (List.countP_eq_length.mpr ?_).trans hlen
    intro p hp
    obtain ⟨i, hi, rfl⟩ := List.mem_map.mp hp
    exact (lookup_isSome xs i).mpr (hall i (List.mem_range.mp hi))

/-- Reading full slots in order. -/
theorem mapM_of_countP (parts : List (Option α)) (h : parts.countP Option.isSome = parts.length) :
    ∃ as, parts.mapM id = some as ∧ parts = as.map some := by
  induction parts with
  | nil => exact ⟨[], rfl, rfl⟩
  | cons p parts ih =>
    have hall := List.countP_eq_length.mp h
    obtain ⟨a, rfl⟩ := Option.isSome_iff_exists.mp (hall p (List.mem_cons_self ..))
    obtain ⟨as, hread, heq⟩ := ih (List.countP_eq_length.mpr fun q hq => hall q (List.mem_cons_of_mem _ hq))
    exact ⟨a :: as, by simp [hread], by simp [heq]⟩

/-- Pieces that all come from the list `as`, each under its place in it, fill the slots with `as`. -/
theorem slots_eq_of_pieces {as : List α} {xs : List (ℕ × α)} (hxs : ∀ i a, (i, a) ∈ xs → as[i]? = some a)
    (hall : ∀ i < as.length, ∃ a, (i, a) ∈ xs) : slots as.length xs = as.map some := by
  apply List.ext_getElem?
  intro i
  rw [getElem?_slots, List.getElem?_map]
  by_cases hi : i < as.length
  · obtain ⟨a, ha⟩ := Option.isSome_iff_exists.mp ((lookup_isSome xs i).mpr (hall i hi))
    have hmem : (i, a) ∈ xs := by
      obtain ⟨front, back, rfl, -⟩ := List.lookup_eq_some_iff.mp ha
      simp
    rw [if_pos hi, ha, hxs i a hmem]
    rfl
  · rw [if_neg hi, List.getElem?_eq_none (Nat.not_lt.mp hi)]
    rfl

end Slots

import Mathlib.Data.List.Basic

/-!
# Requests and their answers

A party sends requests to its peer, the peer answers each as it reads it, and the party takes the answer as settling the
request it names. Both ways are queues. Whatever is lost on the way, what is on its way is asked for, in the order in
which it was asked (`Moves.bounded`), so an answer that arrives settles a request; and as long as nothing is lost, and no
longer, what is on its way is exactly what waits (`Moves.matched_iff`).
-/

structure RoundTrip (τ : Type*) where
  /-- The requests that wait for their answers. -/
  waiting : List τ
  /-- The requests that the peer has not read. -/
  there : List τ
  /-- The answers that have not been read. -/
  back : List τ

namespace RoundTrip

variable {τ : Type*}

/-- What is on its way, the next to arrive first. -/
def underway (r : RoundTrip τ) : List τ := r.back ++ r.there

/-- What is on its way is asked for. -/
def Bounded (r : RoundTrip τ) : Prop := r.underway.Sublist r.waiting

/-- What is asked for is on its way. -/
def Matched (r : RoundTrip τ) : Prop := r.waiting = r.underway

theorem Matched.bounded {r : RoundTrip τ} (h : r.Matched) : r.Bounded := by
  rw [Bounded, ← h]

theorem Bounded.asked {r : RoundTrip τ} (h : r.Bounded) {t : τ} (ht : t ∈ r.back) : t ∈ r.waiting :=
  h.subset (List.mem_append_left _ ht)

variable [DecidableEq τ]

/-- What can happen; with `true`, something is lost. -/
inductive Moves : RoundTrip τ → Bool → RoundTrip τ → Prop
  | stay (r : RoundTrip τ) : Moves r false r
  | ask (t : τ) (w q b : List τ) : Moves ⟨w, q, b⟩ false ⟨w ++ [t], q ++ [t], b⟩
  /-- A request that is not sent. -/
  | mute (t : τ) (w q b : List τ) : Moves ⟨w, q, b⟩ true ⟨w ++ [t], q, b⟩
  | answer (t : τ) (w q b : List τ) : Moves ⟨w, t :: q, b⟩ false ⟨w, q, b ++ [t]⟩
  /-- A request that is read and not answered. -/
  | ignore (t : τ) (w q b : List τ) : Moves ⟨w, t :: q, b⟩ true ⟨w, q, b⟩
  | settle (t : τ) (w q b : List τ) : Moves ⟨w, q, t :: b⟩ false ⟨w.erase t, q, b⟩
  /-- An answer that is read and not taken. -/
  | miss (t : τ) (w q b : List τ) : Moves ⟨w, q, t :: b⟩ true ⟨w, q, b⟩
  | dropThere (t : τ) (w q b : List τ) : Moves ⟨w, t :: q, b⟩ true ⟨w, [], b⟩
  | dropBack (t : τ) (w q b : List τ) : Moves ⟨w, q, t :: b⟩ true ⟨w, q, []⟩

theorem Moves.bounded {r r' : RoundTrip τ} {lost : Bool} (h : Moves r lost r') (hr : r.Bounded) : r'.Bounded := by
  unfold Bounded underway at hr ⊢
  cases h with
  | stay r => exact hr
  | ask t w q b =>
    rw [← List.append_assoc]
    exact hr.append (List.Sublist.refl [t])
  | mute t w q b => exact hr.trans (List.sublist_append_left w [t])
  | answer t w q b =>
    rw [List.append_assoc]
    exact hr
  | ignore t w q b => exact ((List.sublist_cons_self t q).append_left b).trans hr
  | settle t w q b =>
    have herase := hr.erase t
    rwa [List.cons_append, List.erase_cons_head] at herase
  | miss t w q b => exact (List.sublist_cons_self t (b ++ q)).trans hr
  | dropThere t w q b => exact ((List.nil_sublist (t :: q)).append_left b).trans hr
  | dropBack t w q b => exact ((List.nil_sublist (t :: b)).append_right q).trans hr

/-- What is asked for stays on its way if and only if nothing is lost. -/
theorem Moves.matched_iff {r r' : RoundTrip τ} {lost : Bool} (h : Moves r lost r') (hr : r.Matched) :
    r'.Matched ↔ lost = false := by
  unfold Matched underway at hr ⊢
  cases h with
  | stay r => exact iff_of_true hr rfl
  | ask t w q b =>
    have hw : w = b ++ q := hr
    exact iff_of_true (by simp [hw]) rfl
  | answer t w q b =>
    have hw : w = b ++ t :: q := hr
    exact iff_of_true (by simp [hw]) rfl
  | settle t w q b =>
    have hw : w = t :: b ++ q := hr
    exact iff_of_true (by simp [hw]) rfl
  -- the loss shortens one side of the equation only
  | mute t w q b =>
    have hlen := congrArg List.length hr
    refine iff_of_false (fun heq => ?_) Bool.noConfusion
    have hlen' := congrArg List.length heq
    simp only [List.length_append, List.length_singleton] at hlen hlen'
    omega
  | ignore t w q b | miss t w q b | dropThere t w q b | dropBack t w q b =>
    have hlen := congrArg List.length hr
    refine iff_of_false (fun heq => ?_) Bool.noConfusion
    have hlen' := congrArg List.length heq
    simp only [List.length_append, List.length_cons, List.length_nil] at hlen hlen'
    omega

end RoundTrip

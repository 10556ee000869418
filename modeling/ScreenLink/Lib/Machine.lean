import Mathlib.Data.List.Induction

/-!
# Runs of a partial step function

A system is a partial step function `step : σ → ε → Option σ`: in state `s` the event `e` is enabled when
`step s e` is some state. `run step s es` is the state after the events `es`; every quantification over "all
interleavings" is a quantification over the event lists a run accepts.

`run_induction` is the one induction over runs. A claim about the past of a run is about `Seen` (some event
happened in a state with a given property), which the step function cannot read.
-/

namespace Machine

variable {σ ε : Type*} (step : σ → ε → Option σ)

/-- The state after the events `es`, if each of them is enabled in turn. -/
def run (s : σ) : List ε → Option σ
  | [] => some s
  | e :: es => (step s e).bind fun t => run t es

theorem run_append (s : σ) (es fs : List ε) :
    run step s (es ++ fs) = (run step s es).bind fun t => run step t fs := by
  induction es generalizing s with
  | nil => rfl
  | cons e es ih =>
    simp only [List.cons_append, run]
    cases step s e with
    | none => rfl
    | some t => exact ih t

theorem run_snoc_eq_some {s u : σ} {es : List ε} {e : ε} :
    run step s (es ++ [e]) = some u ↔ ∃ t, run step s es = some t ∧ step t e = some u := by
  simp only [run_append, run, Option.bind_eq_some_iff, Option.some.injEq]
  constructor
  · rintro ⟨t, ht, v, hv, rfl⟩
    exact ⟨t, ht, hv⟩
  · rintro ⟨t, ht, hu⟩
    exact ⟨t, ht, u, hu, rfl⟩

/-- A run through `es ++ fs` stops somewhere after `es`. -/
theorem run_append_eq_some {s u : σ} {es fs : List ε} :
    run step s (es ++ fs) = some u ↔ ∃ t, run step s es = some t ∧ run step t fs = some u := by
  rw [run_append, Option.bind_eq_some_iff]

theorem exists_run_of_total (htotal : ∀ t e, ∃ u, step t e = some u) (s : σ) (es : List ε) :
    ∃ t, run step s es = some t := by
  induction es generalizing s with
  | nil => exact ⟨s, rfl⟩
  | cons e es ih =>
    obtain ⟨u, hu⟩ := htotal s e
    obtain ⟨t, ht⟩ := ih u
    exact ⟨t, Option.bind_eq_some_iff.mpr ⟨u, hu, ht⟩⟩

variable {step}

/-- A run of a closed system is evaluated once for all that is said of its last state. -/
theorem exists_run {s : σ} {es : List ε} {P : σ → Prop} [DecidablePred P]
    (h : (run step s es).any (fun t => decide (P t)) = true) : ∃ t, run step s es = some t ∧ P t := by
  obtain ⟨t, ht, hP⟩ := (Option.any_eq_true _ _).mp h
  exact ⟨t, ht, of_decide_eq_true hP⟩

/-- Induction over the runs from `s`: what holds of the empty run and is kept by one more step, with the
events so far in view, holds of every run. -/
theorem run_induction {s : σ} {P : List ε → σ → Prop} (hnil : P [] s)
    (hstep : ∀ es t e u, run step s es = some t → P es t → step t e = some u → P (es ++ [e]) u)
    (es : List ε) (t : σ) (hrun : run step s es = some t) : P es t := by
  induction es using List.reverseRecOn generalizing t with
  | nil =>
    cases hrun
    exact hnil
  | append_singleton es e ih =>
    obtain ⟨u, hu, hlast⟩ := (run_snoc_eq_some step).mp hrun
    exact hstep es u e t hu (ih u hu) hlast

/-- An invariant: kept by every step, so true after every run from a state where it holds. -/
theorem run_invariant {s : σ} {P : σ → Prop} (hinit : P s)
    (hstep : ∀ t e u, P t → step t e = some u → P u) (es : List ε) (t : σ)
    (hrun : run step s es = some t) : P t :=
  run_induction (P := fun _ t => P t) hinit (fun _ t e u _ h => hstep t e u h) es t hrun

/-- A run of `n` rounds, each of which leads from `P k` to `P (k + 1)`. -/
theorem exists_run_of_rounds {P : ℕ → σ → Prop} {n : ℕ}
    (hround : ∀ k s, k < n → P k s → ∃ es t, run step s es = some t ∧ P (k + 1) t) {s : σ} (hs : P 0 s) :
    ∃ es t, run step s es = some t ∧ P n t := by
  induction n with
  | zero => exact ⟨[], s, rfl, hs⟩
  | succ n ih =>
    obtain ⟨es, t, ht, hP⟩ := ih fun k s hk => hround k s (Nat.lt_succ_of_lt hk)
    obtain ⟨fs, u, hu, hlast⟩ := hround n t (Nat.lt_succ_self n) hP
    exact ⟨es ++ fs, u, (run_append_eq_some step).mpr ⟨t, ht, hu⟩, hlast⟩

/-! ### What a run has seen -/

variable (step) in
/-- Some event of the run from `s` happened in a state where `P` held of the two. -/
def Seen (P : σ → ε → Prop) (s : σ) (es : List ε) : Prop :=
  ∃ es₁ e es₂ t, es = es₁ ++ e :: es₂ ∧ run step s es₁ = some t ∧ P t e

theorem not_seen_nil (P : σ → ε → Prop) (s : σ) : ¬ Seen step P s [] := by
  rintro ⟨es₁, e, es₂, t, h, -⟩
  simp at h

theorem seen_snoc {P : σ → ε → Prop} {s t : σ} {es : List ε} {e : ε} (hrun : run step s es = some t) :
    Seen step P s (es ++ [e]) ↔ Seen step P s es ∨ P t e := by
  constructor
  · rintro ⟨es₁, d, es₂, u, heq, hu, hP⟩
    rcases List.eq_nil_or_concat es₂ with rfl | ⟨front, last, rfl⟩
    · obtain ⟨rfl, hde⟩ := List.append_inj' heq rfl
      cases hde
      rw [hrun] at hu
      cases hu
      exact Or.inr hP
    · rw [List.concat_eq_append, ← List.cons_append, ← List.append_assoc] at heq
      obtain ⟨rfl, -⟩ := List.append_inj' heq rfl
      exact Or.inl ⟨es₁, d, front, u, rfl, hu, hP⟩
  · rintro (⟨es₁, d, es₂, u, rfl, hu, hP⟩ | hP)
    · exact ⟨es₁, d, es₂ ++ [e], u, by simp, hu, hP⟩
    · exact ⟨es, e, [], t, rfl, hrun, hP⟩

theorem seen_cons {P : σ → ε → Prop} {s : σ} {e : ε} {es : List ε} :
    Seen step P s (e :: es) ↔ P s e ∨ ∃ t, step s e = some t ∧ Seen step P t es := by
  constructor
  · rintro ⟨es₁, d, es₂, u, heq, hu, hP⟩
    cases es₁ with
    | nil =>
      obtain ⟨rfl, rfl⟩ := List.cons.inj heq
      cases hu
      exact Or.inl hP
    | cons c es₁ =>
      obtain ⟨rfl, rfl⟩ := List.cons.inj heq
      obtain ⟨t, ht, hrest⟩ := Option.bind_eq_some_iff.mp hu
      exact Or.inr ⟨t, ht, es₁, d, es₂, u, rfl, hrest, hP⟩
  · rintro (hP | ⟨t, ht, es₁, d, es₂, u, rfl, hu, hP⟩)
    · exact ⟨[], e, es, s, rfl, rfl, hP⟩
    · exact ⟨e :: es₁, d, es₂, u, rfl, Option.bind_eq_some_iff.mpr ⟨t, ht, hu⟩, hP⟩

instance decidableSeen (P : σ → ε → Prop) [∀ s e, Decidable (P s e)] (s : σ) (es : List ε) :
    Decidable (Seen step P s es) :=
  match es with
  | [] => isFalse (not_seen_nil P s)
  | e :: es => match h : step s e with
    | none => decidable_of_iff (P s e) (by simp [seen_cons, h])
    | some t =>
      have := decidableSeen P t es
      decidable_of_iff (P s e ∨ Seen step P t es) (by simp [seen_cons, h])

theorem Seen.append {P : σ → ε → Prop} {s : σ} {es : List ε} (h : Seen step P s es) (fs : List ε) :
    Seen step P s (es ++ fs) := by
  obtain ⟨es₁, e, es₂, t, rfl, ht, hP⟩ := h
  exact ⟨es₁, e, es₂ ++ fs, t, by simp, ht, hP⟩

theorem seen_or {P Q : σ → ε → Prop} {s : σ} {es : List ε} :
    Seen step (fun t e => P t e ∨ Q t e) s es ↔ Seen step P s es ∨ Seen step Q s es := by
  constructor
  · rintro ⟨es₁, e, es₂, t, hes, ht, hP | hQ⟩
    · exact Or.inl ⟨es₁, e, es₂, t, hes, ht, hP⟩
    · exact Or.inr ⟨es₁, e, es₂, t, hes, ht, hQ⟩
  · rintro (⟨es₁, e, es₂, t, hes, ht, hP⟩ | ⟨es₁, e, es₂, t, hes, ht, hQ⟩)
    · exact ⟨es₁, e, es₂, t, hes, ht, Or.inl hP⟩
    · exact ⟨es₁, e, es₂, t, hes, ht, Or.inr hQ⟩

theorem Seen.mono {P Q : σ → ε → Prop} {s : σ} {es : List ε} (h : Seen step P s es) (himp : ∀ t e, P t e → Q t e) :
    Seen step Q s es := by
  obtain ⟨es₁, e, es₂, t, hes, ht, hP⟩ := h
  exact ⟨es₁, e, es₂, t, hes, ht, himp t e hP⟩

theorem Seen.prepend {P : σ → ε → Prop} {s t : σ} {es fs : List ε} (hrun : run step s es = some t)
    (h : Seen step P t fs) : Seen step P s (es ++ fs) := by
  obtain ⟨fs₁, e, fs₂, u, rfl, hu, hP⟩ := h
  exact ⟨es ++ fs₁, e, fs₂, u, by simp, (run_append_eq_some step).mpr ⟨t, hrun, hu⟩, hP⟩

variable (step) in
/-- How many events of the run from `s` happened in a state where `P` held of the two. -/
def tally (P : σ → ε → Bool) (s : σ) : List ε → ℕ
  | [] => 0
  | e :: es => (if P s e then 1 else 0) + (step s e).elim 0 fun t => tally P t es

theorem tally_snoc {P : σ → ε → Bool} {s t : σ} {es : List ε} {e : ε} (hrun : run step s es = some t) :
    tally step P s (es ++ [e]) = tally step P s es + if P t e then 1 else 0 := by
  induction es generalizing s with
  | nil =>
    cases hrun
    cases hstep : step t e <;> simp [tally, hstep]
  | cons d es ih =>
    obtain ⟨u, hu, hrest⟩ := Option.bind_eq_some_iff.mp hrun
    simp only [List.cons_append, tally, hu, Option.elim_some, ih hrest, Nat.add_assoc]

/-- A run goes through iff it meets no bad step, when the bad steps are those that are not enabled. `A` is what else is
known of the states. -/
theorem run_isSome_iff {A : σ → Prop} {Bad : σ → ε → Prop} {s : σ} (haux : A s)
    (hkeep : ∀ t e u, A t → step t e = some u → A u) (hstep : ∀ t e, A t → ((step t e).isSome ↔ ¬ Bad t e))
    (es : List ε) : (run step s es).isSome ↔ ¬ Seen step Bad s es := by
  induction es generalizing s with
  | nil => exact iff_of_true rfl (not_seen_nil _ _)
  | cons e es ih =>
    have hfirst := hstep s e haux
    rw [seen_cons, not_or, ← hfirst]
    cases ht : step s e with
    | none => simp [run, ht]
    | some t => simpa [run, ht] using ih (hkeep s e t haux ht)

/-- `Good` holds throughout a run iff the run makes no bad step, when a step from a good state reaches a good state
iff it is not bad. `A` is what else is known of the good states. -/
theorem always_good_iff {Good A : σ → Prop} {Bad : σ → ε → Prop} {s : σ} (hgood : Good s) (haux : A s)
    (hstep : ∀ t e u, Good t → A t → step t e = some u → (Good u ↔ ¬ Bad t e) ∧ (Good u → A u))
    {es : List ε} {u : σ} (hrun : run step s es = some u) :
    (∀ front back t, es = front ++ back → run step s front = some t → Good t) ↔ ¬ Seen step Bad s es := by
  constructor
  · rintro hall ⟨es₁, e, es₂, t, rfl, ht, hbad⟩
    obtain ⟨t', ht', hrest⟩ := (run_append_eq_some step).mp hrun
    obtain rfl : t = t' := Option.some.inj (ht.symm.trans ht')
    obtain ⟨v, hv, -⟩ := Option.bind_eq_some_iff.mp hrest
    -- every state up to `t` is good, so what else is known has been kept
    have hknown : ∀ front w, run step s front = some w → (∃ back, es₁ = front ++ back) → A w := by
      intro front w hw
      refine run_induction (P := fun front w => (∃ back, es₁ = front ++ back) → A w) (fun _ => haux) ?_ front w hw
      rintro front t₁ d w ht₁ ih hd ⟨back, rfl⟩
      have hw : run step s (front ++ [d]) = some w := (run_snoc_eq_some step).mpr ⟨t₁, ht₁, hd⟩
      exact (hstep t₁ d w (hall front (d :: back ++ e :: es₂) t₁ (by simp) ht₁) (ih ⟨d :: back, by simp⟩) hd).2
        (hall (front ++ [d]) (back ++ e :: es₂) w (by simp) hw)
    have hlast := hall (es₁ ++ [e]) es₂ v (by simp) ((run_snoc_eq_some step).mpr ⟨t, ht, hv⟩)
    exact (hstep t e v (hall es₁ (e :: es₂) t rfl ht) (hknown es₁ t ht ⟨[], by simp⟩) hv).1.mp hlast hbad
  · intro hnot front back t hsplit ht
    subst hsplit
    refine (run_induction (P := fun es t => ¬ Seen step Bad s es → Good t ∧ A t) (fun _ => ⟨hgood, haux⟩) ?_ front t ht
      fun hseen => hnot (hseen.append back)).1
    intro es t e w ht ih hw hnone
    rw [seen_snoc ht, not_or] at hnone
    obtain ⟨hgood', haux'⟩ := ih hnone.1
    have hnext := hstep t e w hgood' haux' hw
    exact ⟨hnext.1.mpr hnone.2, hnext.2 (hnext.1.mpr hnone.2)⟩

end Machine

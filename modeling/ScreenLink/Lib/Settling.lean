import Mathlib.Logic.Relation
import ScreenLink.Lib.Machine

/-!
# Moves that commute and use up a budget

Some events of a system are its own moves, which need nothing from outside. If each of them uses one unit of `work`, and
two that are possible in one state can follow each other in either order to one state, then left to itself the system
comes to rest, in one state whatever the order, and after the same number of moves (`settles`).
-/

namespace Machine

variable {σ ε : Type*} {step : σ → ε → Option σ} {Own : ε → Prop} {Inv : σ → Prop} {work : σ → ℕ}
  {s t u : σ} {es fs : List ε} {e : ε}

/-- No move of the system's own is possible. -/
def Rests (step : σ → ε → Option σ) (Own : ε → Prop) (s : σ) : Prop := ∀ e, Own e → step s e = none

/-- The system gets from `s` to `t` by `es`, all of them its own moves. -/
def Drifts (step : σ → ε → Option σ) (Own : ε → Prop) (s : σ) (es : List ε) (t : σ) : Prop :=
  (∀ e ∈ es, Own e) ∧ run step s es = some t

/-- In the states with `Inv` the own moves commute, and each takes one unit of work. -/
structure Settling (step : σ → ε → Option σ) (Own : ε → Prop) (Inv : σ → Prop) (work : σ → ℕ) : Prop where
  keeps : ∀ s e t, Inv s → Own e → step s e = some t → Inv t
  uses : ∀ s e t, Inv s → Own e → step s e = some t → work t + 1 = work s
  commutes : ∀ s e f t u, Inv s → Own e → Own f → step s e = some t → step s f = some u →
    t = u ∨ ∃ v, step t f = some v ∧ step u e = some v

theorem drifts_nil (step : σ → ε → Option σ) (Own : ε → Prop) (s : σ) : Drifts step Own s [] s :=
  ⟨fun _ h => absurd h List.not_mem_nil, rfl⟩

theorem drifts_cons : Drifts step Own s (e :: es) u ↔ Own e ∧ ∃ t, step s e = some t ∧ Drifts step Own t es u := by
  constructor
  · rintro ⟨hown, hrun⟩
    obtain ⟨t, ht, hrest⟩ := Option.bind_eq_some_iff.mp hrun
    exact ⟨hown e List.mem_cons_self, t, ht, fun f hf => hown f (List.mem_cons_of_mem e hf), hrest⟩
  · rintro ⟨he, t, ht, hown, hrest⟩
    refine ⟨?_, Option.bind_eq_some_iff.mpr ⟨t, ht, hrest⟩⟩
    rintro f (_ | ⟨_, hf⟩)
    · exact he
    · exact hown f hf

theorem Drifts.append (h : Drifts step Own s es t) (h' : Drifts step Own t fs u) : Drifts step Own s (es ++ fs) u := by
  refine ⟨fun e he => ?_, (run_append_eq_some step).mpr ⟨t, h.2, h'.2⟩⟩
  rcases List.mem_append.mp he with he | he
  · exact h.1 e he
  · exact h'.1 e he

theorem Rests.eq (h : Rests step Own s) (hdrifts : Drifts step Own s es t) : t = s := by
  cases es with
  | nil => exact (Option.some.inj hdrifts.2).symm
  | cons e es =>
    obtain ⟨he, u, hu, -⟩ := drifts_cons.mp hdrifts
    rw [h e he] at hu
    cases hu

namespace Settling

theorem drifts (h : Settling step Own Inv work) (hs : Inv s) (hdrifts : Drifts step Own s es t) :
    Inv t ∧ work t + es.length = work s := by
  induction es generalizing s with
  | nil =>
    obtain rfl := Option.some.inj hdrifts.2
    exact ⟨hs, rfl⟩
  | cons e es ih =>
    obtain ⟨he, u, hu, hrest⟩ := drifts_cons.mp hdrifts
    obtain ⟨ht, hwork⟩ := ih (h.keeps s e u hs he hu) hrest
    have huses := h.uses s e u hs he hu
    exact ⟨ht, by rw [List.length_cons]; omega⟩

/-- One own move, from a state with the invariant. -/
private def Moves (step : σ → ε → Option σ) (Own : ε → Prop) (Inv : σ → Prop) (s t : σ) : Prop :=
  Inv s ∧ ∃ e, Own e ∧ step s e = some t

private theorem moves_of_drifts (h : Settling step Own Inv work) (hs : Inv s) (hdrifts : Drifts step Own s es t) :
    Relation.ReflTransGen (Moves step Own Inv) s t := by
  induction es generalizing s with
  | nil =>
    obtain rfl := Option.some.inj hdrifts.2
    exact .refl
  | cons e es ih =>
    obtain ⟨he, u, hu, hrest⟩ := drifts_cons.mp hdrifts
    exact .head ⟨hs, e, he, hu⟩ (ih (h.keeps s e u hs he hu) hrest)

private theorem Moves.eq_of_rests (hmoves : Relation.ReflTransGen (Moves step Own Inv) s t) (hrests : Rests step Own s) :
    t = s := by
  induction hmoves with
  | refl => rfl
  | tail _ hstep ih =>
    obtain ⟨-, e, he, hu⟩ := hstep
    rw [ih, hrests e he] at hu
    cases hu

/-- All orders of moves that end at rest end in the same state. -/
theorem rests_unique (h : Settling step Own Inv work) (hs : Inv s) (ht : Drifts step Own s es t)
    (hu : Drifts step Own s fs u) (hrests : Rests step Own t) (hrests' : Rests step Own u) : t = u := by
  have hdiamond : ∀ a b c, Moves step Own Inv a b → Moves step Own Inv a c →
      ∃ d, Relation.ReflGen (Moves step Own Inv) b d ∧ Relation.ReflTransGen (Moves step Own Inv) c d := by
    rintro a b c ⟨ha, e, he, hb⟩ ⟨-, f, hf, hc⟩
    rcases h.commutes a e f b c ha he hf hb hc with rfl | ⟨d, hbd, hcd⟩
    · exact ⟨b, .refl, .refl⟩
    · exact ⟨d, .single ⟨h.keeps a e b ha he hb, f, hf, hbd⟩, .single ⟨h.keeps a f c ha hf hc, e, he, hcd⟩⟩
  obtain ⟨d, htd, hud⟩ := Relation.church_rosser hdiamond (moves_of_drifts h hs ht) (moves_of_drifts h hs hu)
  rw [← Moves.eq_of_rests htd hrests, Moves.eq_of_rests hud hrests']

/-- Moves can be made until none is left. -/
theorem exists_rests (h : Settling step Own Inv work) (hs : Inv s) :
    ∃ es t, Drifts step Own s es t ∧ Rests step Own t := by
  generalize hn : work s = n
  induction n generalizing s with
  | zero =>
    refine ⟨[], s, drifts_nil step Own s, fun e he => ?_⟩
    cases ht : step s e with
    | none => rfl
    | some t => exact absurd (h.uses s e t hs he ht) (by omega)
  | succ n ih =>
    by_cases hrests : Rests step Own s
    · exact ⟨[], s, drifts_nil step Own s, hrests⟩
    · simp only [Rests, not_forall] at hrests
      obtain ⟨e, he, hmoves⟩ := hrests
      obtain ⟨t, ht⟩ := Option.ne_none_iff_exists'.mp hmoves
      have huses := h.uses s e t hs he ht
      obtain ⟨es, u, hu, hlast⟩ := ih (h.keeps s e t hs he ht) (by omega)
      exact ⟨e :: es, u, drifts_cons.mpr ⟨he, t, ht, hu⟩, hlast⟩

/-- Left to itself the system comes to rest in one state: whatever moves have been made, others lead on to it, so many
as there is work left. -/
theorem settles (h : Settling step Own Inv work) (hs : Inv s) :
    ∃ u, Inv u ∧ Rests step Own u ∧ ∀ es t, Drifts step Own s es t →
      (Rests step Own t → t = u) ∧ ∃ fs, Drifts step Own t fs u ∧ es.length + fs.length + work u = work s := by
  obtain ⟨gs, u, hu, hrests⟩ := h.exists_rests hs
  refine ⟨u, (h.drifts hs hu).1, hrests, fun es t ht => ?_⟩
  obtain ⟨hinv, hwork⟩ := h.drifts hs ht
  obtain ⟨fs, v, hv, hlast⟩ := h.exists_rests hinv
  obtain rfl : v = u := h.rests_unique hs (ht.append hv) hu hlast hrests
  refine ⟨fun hstill => hstill.eq hv |>.symm, fs, hv, ?_⟩
  have hrest := (h.drifts hinv hv).2
  omega

end Settling

end Machine

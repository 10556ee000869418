import Mathlib.Data.List.MinMax

/-!
# A register written by messages

Messages are ordered by when they were sent, and may be delivered in any order or not at all. A delivered message is
written at once, refused, or held and written later. The latest one wins (`Latest`) if no message is written after a
newer one, and whenever none is held, what the register holds is the newest message delivered. A step from such a
history leads to such a history iff it does not write a message after a newer one or refuse the newest so far
(`latest_step_iff`).
-/

namespace Register

variable {α : Type*}

structure History (α : Type*) where
  delivered : List α
  held : Option α
  written : List α

/-- What becomes of a message that is delivered, or held. -/
inductive Op (α : Type*)
  | write (a : α)
  | refuse (a : α)
  | hold (a : α)
  | release

namespace History

/-- One step; only one message is held at a time, and none is refused or held meanwhile. -/
def step (h : History α) (op : Op α) : Option (History α) :=
  match op, h.held with
  | .write a, held => some ⟨h.delivered ++ [a], held, h.written ++ [a]⟩
  | .refuse a, none => some ⟨h.delivered ++ [a], none, h.written⟩
  | .hold a, none => some ⟨h.delivered ++ [a], some a, h.written⟩
  | .release, some a => some ⟨h.delivered, none, h.written ++ [a]⟩
  | _, _ => none

variable [LinearOrder α]

structure Latest (h : History α) : Prop where
  /-- No message overrides a newer one. -/
  inOrder : h.written.Pairwise (· ≤ ·)
  newest : h.held = none → h.written.getLast? = h.delivered.max?

/-- The message is written after a newer one, or refused although it is the newest. -/
def Overtaken (h : History α) : Op α → Prop
  | .write a => ∃ b ∈ h.written, a < b
  | .refuse a => ∀ b ∈ h.delivered, b < a
  | .hold _ => False
  | .release => ∃ a ∈ h.held, ∃ b ∈ h.written, a < b

/-- What is written or held has been delivered, and the newest message delivered is written or held. -/
structure Accounted (h : History α) : Prop where
  written : ∀ a ∈ h.written, a ∈ h.delivered
  held : ∀ a ∈ h.held, a ∈ h.delivered
  newest : ∀ a ∈ h.delivered, ∃ b, (b ∈ h.written ∨ b ∈ h.held) ∧ a ≤ b

end History

variable [LinearOrder α]

theorem le_getLast {l : List α} (hl : l.Pairwise (· ≤ ·)) {a b : α} (ha : a ∈ l) (hb : l.getLast? = some b) :
    a ≤ b := by
  obtain ⟨front, rfl⟩ := List.getLast?_eq_some_iff.mp hb
  rcases List.mem_append.mp ha with hfront | hlast
  · exact (List.pairwise_append.mp hl).2.2 a hfront b (List.mem_singleton_self b)
  · exact le_of_eq (List.mem_singleton.mp hlast)

theorem inOrder_snoc {l : List α} (hl : l.Pairwise (· ≤ ·)) (a : α) :
    (l ++ [a]).Pairwise (· ≤ ·) ↔ ¬ ∃ b ∈ l, a < b := by
  rw [List.pairwise_append]
  constructor
  · rintro ⟨-, -, hle⟩ ⟨b, hb, hlt⟩
    exact absurd (hle b hb a (List.mem_singleton_self a)) (not_le.mpr hlt)
  · intro hnone
    refine ⟨hl, List.pairwise_singleton _ _, fun b hb c hc => ?_⟩
    rw [List.mem_singleton.mp hc]
    exact not_lt.mp fun hlt => hnone ⟨b, hb, hlt⟩

/-- In order, the register holds the newest message delivered iff each one delivered is no newer than one written. -/
theorem getLast?_eq_max?_iff {written delivered : List α} (horder : written.Pairwise (· ≤ ·))
    (hsub : ∀ a ∈ written, a ∈ delivered) :
    written.getLast? = delivered.max? ↔ ∀ a ∈ delivered, ∃ b ∈ written, a ≤ b := by
  constructor
  · intro hlast a ha
    cases hmax : delivered.max? with
    | none =>
      rw [List.max?_eq_none_iff.mp hmax] at ha
      cases ha
    | some b => exact ⟨b, List.mem_of_getLast? (hlast.trans hmax), (List.max?_eq_some_iff.mp hmax).2 a ha⟩
  · intro hcovered
    cases hlast : written.getLast? with
    | none =>
      obtain rfl : delivered = [] := by
        rw [List.eq_nil_iff_forall_not_mem]
        intro a ha
        obtain ⟨b, hb, -⟩ := hcovered a ha
        rw [List.getLast?_eq_none_iff.mp hlast] at hb
        cases hb
      rfl
    | some b =>
      symm
      refine List.max?_eq_some_iff.mpr ⟨hsub b (List.mem_of_getLast? hlast), fun a ha => ?_⟩
      obtain ⟨c, hc, hle⟩ := hcovered a ha
      exact hle.trans (le_getLast horder hc hlast)

namespace History

variable {h : History α}

theorem latest_of_covered (hacc : Accounted h) (horder : h.written.Pairwise (· ≤ ·)) : Latest h := by
  refine ⟨horder, fun hheld => (getLast?_eq_max?_iff horder hacc.written).mpr fun a ha => ?_⟩
  obtain ⟨b, hb, hle⟩ := hacc.newest a ha
  rw [hheld] at hb
  exact ⟨b, hb.resolve_right nofun, hle⟩

theorem write_iff (hlatest : Latest h) (hacc : Accounted h) (a : α) :
    let h' : History α := ⟨h.delivered ++ [a], h.held, h.written ++ [a]⟩
    (Latest h' ↔ ¬ ∃ b ∈ h.written, a < b) ∧ Accounted h' := by
  intro h'
  have hacc' : Accounted h' := by
    refine ⟨fun b hb => ?_, fun b hb => List.mem_append_left _ (hacc.held b hb), fun b hb => ?_⟩
    · exact (List.mem_append.mp hb).elim (fun h => List.mem_append_left _ (hacc.written b h))
        (List.mem_append_right _)
    · rcases List.mem_append.mp hb with hold | hnew
      · obtain ⟨c, hc, hle⟩ := hacc.newest b hold
        exact ⟨c, hc.imp_left (List.mem_append_left _), hle⟩
      · exact ⟨b, Or.inl (List.mem_append_right _ hnew), le_refl b⟩
  refine ⟨?_, hacc'⟩
  rw [← inOrder_snoc hlatest.inOrder a]
  exact ⟨Latest.inOrder, latest_of_covered hacc'⟩

theorem release_iff (hlatest : Latest h) (hacc : Accounted h) {a : α} (hheld : h.held = some a) :
    let h' : History α := ⟨h.delivered, none, h.written ++ [a]⟩
    (Latest h' ↔ ¬ ∃ b ∈ h.written, a < b) ∧ Accounted h' := by
  intro h'
  have hacc' : Accounted h' := by
    refine ⟨fun b hb => ?_, nofun, fun b hb => ?_⟩
    · rcases List.mem_append.mp hb with hold | hnew
      · exact hacc.written b hold
      · rw [List.mem_singleton.mp hnew]
        exact hacc.held a hheld
    · obtain ⟨c, hc, hle⟩ := hacc.newest b hb
      refine ⟨c, Or.inl (List.mem_append.mpr (hc.imp_right fun hc => ?_)), hle⟩
      rw [hheld] at hc
      exact List.mem_singleton.mpr (Option.some.inj hc).symm
  refine ⟨?_, hacc'⟩
  rw [← inOrder_snoc hlatest.inOrder a]
  exact ⟨Latest.inOrder, latest_of_covered hacc'⟩

theorem hold_accounted (hacc : Accounted h) (hheld : h.held = none) (a : α) :
    Accounted ⟨h.delivered ++ [a], some a, h.written⟩ := by
  refine ⟨fun b hb => List.mem_append_left _ (hacc.written b hb), fun b hb => ?_, fun b hb => ?_⟩
  · rw [← Option.some.inj hb]
    exact List.mem_append_right _ (List.mem_singleton_self a)
  · rcases List.mem_append.mp hb with hold | hnew
    · obtain ⟨c, hc, hle⟩ := hacc.newest b hold
      rw [hheld] at hc
      exact ⟨c, Or.inl (hc.resolve_right nofun), hle⟩
    · exact ⟨a, Or.inr rfl, le_of_eq (List.mem_singleton.mp hnew)⟩

theorem refuse_iff (hlatest : Latest h) (hacc : Accounted h) (hheld : h.held = none) (a : α) :
    let h' : History α := ⟨h.delivered ++ [a], none, h.written⟩
    (Latest h' ↔ ¬ ∀ b ∈ h.delivered, b < a) ∧ (Latest h' → Accounted h') := by
  intro h'
  have hsub : ∀ b ∈ h'.written, b ∈ h'.delivered := fun b hb => List.mem_append_left _ (hacc.written b hb)
  have hcovered : Latest h' → ∀ b ∈ h'.delivered, ∃ c ∈ h'.written, b ≤ c := fun hlatest' =>
    (getLast?_eq_max?_iff hlatest'.inOrder hsub).mp (hlatest'.newest rfl)
  constructor
  · constructor
    · intro hlatest' hnewest
      obtain ⟨c, hc, hle⟩ := hcovered hlatest' a (List.mem_append_right _ (List.mem_singleton_self a))
      exact absurd (hnewest c (hacc.written c hc)) (not_lt.mpr hle)
    · intro hnot
      refine ⟨hlatest.inOrder, fun _ => (getLast?_eq_max?_iff hlatest.inOrder hsub).mpr fun b hb => ?_⟩
      have hold : ∀ b ∈ h.delivered, ∃ c ∈ h.written, b ≤ c :=
        (getLast?_eq_max?_iff hlatest.inOrder hacc.written).mp (hlatest.newest hheld)
      rcases List.mem_append.mp hb with hb | hb
      · exact hold b hb
      · -- the refused message is no newer than some `c` delivered before, which is no newer than one written
        rw [List.mem_singleton.mp hb]
        obtain ⟨c, hc, hac⟩ : ∃ c ∈ h.delivered, a ≤ c := by
          simpa only [not_forall, not_lt, exists_prop] using hnot
        obtain ⟨d, hd, hcd⟩ := hold c hc
        exact ⟨d, hd, hac.trans hcd⟩
  · intro hlatest'
    refine ⟨hsub, nofun, fun b hb => ?_⟩
    obtain ⟨c, hc, hle⟩ := hcovered hlatest' b hb
    exact ⟨c, Or.inl hc, hle⟩

/-- The latest message still wins after a step iff the step overtakes nothing. -/
theorem latest_step_iff {op : Op α} {h' : History α} (hlatest : Latest h) (hacc : Accounted h)
    (hstep : h.step op = some h') : (Latest h' ↔ ¬ h.Overtaken op) ∧ (Latest h' → Accounted h') := by
  unfold step at hstep
  split at hstep
  case h_1 held a =>
    obtain rfl := Option.some.inj hstep
    obtain ⟨hiff, hacc'⟩ := write_iff hlatest hacc a
    exact ⟨hiff, fun _ => hacc'⟩
  case h_2 a hheld =>
    obtain rfl := Option.some.inj hstep
    exact refuse_iff hlatest hacc hheld a
  case h_3 a hheld =>
    obtain rfl := Option.some.inj hstep
    exact ⟨iff_of_true ⟨hlatest.inOrder, nofun⟩ id, fun _ => hold_accounted hacc hheld a⟩
  case h_4 a hheld =>
    obtain rfl := Option.some.inj hstep
    obtain ⟨hiff, hacc'⟩ := release_iff hlatest hacc hheld
    refine ⟨hiff.trans (not_congr ?_), fun _ => hacc'⟩
    constructor
    · rintro ⟨b, hb, hlt⟩
      exact ⟨a, hheld, b, hb, hlt⟩
    · rintro ⟨a', ha', b, hb, hlt⟩
      obtain rfl : a = a' := Option.some.inj (hheld.symm.trans ha')
      exact ⟨b, hb, hlt⟩
  case h_5 => cases hstep

end History

end Register

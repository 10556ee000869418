import ScreenLink.Lib.HeldKeys

/-!
# Held keys under a map of the keys

A log of key events, each passed on as the events of the keys in `f k`. Two keys with a target in common are one key at the
other end, which is what the last event about any of them says. So nothing is down there without a key that is down here
(`exists_down_of_image`), but a key may be up there that is down here. What is down there is what the keys that are down
here stand for as long as no key is released while another with a target in common is down (`mirrors_snoc_iff`), so always
where no two keys in use have a target in common (`mirrors_of_injOn`).
-/

namespace HeldKeys

variable {α β : Type*} [DecidableEq α] [DecidableEq β] {f : α → List β}

/-- The log at the other end. -/
def image (f : α → List β) (log : List (α × Bool)) : List (β × Bool) :=
  log.flatMap fun e => (f e.1).map fun c => (c, e.2)

omit [DecidableEq α] [DecidableEq β] in
@[simp] theorem image_nil (f : α → List β) : image f [] = [] := rfl

omit [DecidableEq α] [DecidableEq β] in
theorem image_append (f : α → List β) (log log' : List (α × Bool)) :
    image f (log ++ log') = image f log ++ image f log' := List.flatMap_append

theorem down_append_map (log : List (β × Bool)) (cs : List β) (b : Bool) (c : β) :
    Down (log ++ cs.map fun c => (c, b)) c ↔ if c ∈ cs then b = true else Down log c := by
  induction cs using List.reverseRecOn with
  | nil => simp
  | append_singleton cs d ih =>
    rw [List.map_append, List.map_singleton, ← List.append_assoc, down_snoc, ih]
    by_cases hdc : d = c
    · simp [hdc]
    · simp [hdc, Ne.symm hdc]

omit [DecidableEq α] in
theorem down_image_snoc (f : α → List β) (log : List (α × Bool)) (k : α) (b : Bool) (c : β) :
    Down (image f (log ++ [(k, b)])) c ↔ if c ∈ f k then b = true else Down (image f log) c := by
  rw [image_append, ← down_append_map]
  simp [image]

/-- What is down at the other end is down for a key that is down here. -/
theorem exists_down_of_image {log : List (α × Bool)} {c : β} (h : Down (image f log) c) :
    ∃ k, c ∈ f k ∧ Down log k := by
  induction log using List.reverseRecOn with
  | nil => exact absurd h (not_down_nil c)
  | append_singleton log e ih =>
    obtain ⟨j, b⟩ := e
    rw [down_image_snoc] at h
    by_cases hj : c ∈ f j
    · rw [if_pos hj] at h
      exact ⟨j, hj, (down_snoc log j j b).mpr (by rw [if_pos rfl]; exact h)⟩
    · rw [if_neg hj] at h
      obtain ⟨k, hk, hdown⟩ := ih h
      have hne : j ≠ k := fun heq => hj (heq ▸ hk)
      exact ⟨k, hk, (down_snoc log j k b).mpr (by rwa [if_neg hne])⟩

/-- What is down at the other end is what the keys that are down stand for. -/
def Mirrors (f : α → List β) (log : List (α × Bool)) : Prop :=
  ∀ c, Down (image f log) c ↔ ∃ k, c ∈ f k ∧ Down log k

/-- The release of `k` takes a target from another key that is down. -/
def Clobbers (f : α → List β) (log : List (α × Bool)) (k : α) : Prop :=
  ∃ c ∈ f k, ∃ j ≠ k, c ∈ f j ∧ Down log j

theorem mirrors_nil (f : α → List β) : Mirrors f [] := fun c => by simp

theorem Mirrors.press {log : List (α × Bool)} (h : Mirrors f log) (k : α) : Mirrors f (log ++ [(k, true)]) := by
  refine fun c => ⟨exists_down_of_image, ?_⟩
  rintro ⟨j, hj, hdown⟩
  rw [down_image_snoc]
  split_ifs with hk
  · rfl
  · have hne : k ≠ j := fun heq => hk (heq ▸ hj)
    rw [down_snoc, if_neg hne] at hdown
    exact (h c).mpr ⟨j, hj, hdown⟩

theorem Mirrors.release {log : List (α × Bool)} (h : Mirrors f log) {k : α} (hk : ¬ Clobbers f log k) :
    Mirrors f (log ++ [(k, false)]) := by
  refine fun c => ⟨exists_down_of_image, ?_⟩
  rintro ⟨j, hj, hdown⟩
  have hne : k ≠ j := by
    rintro rfl
    simp [down_snoc] at hdown
  rw [down_snoc, if_neg hne] at hdown
  rw [down_image_snoc, if_neg fun hmem => hk ⟨c, hmem, j, Ne.symm hne, hj, hdown⟩]
  exact (h c).mpr ⟨j, hj, hdown⟩

theorem Clobbers.not_mirrors {log : List (α × Bool)} {k : α} (h : Clobbers f log k) :
    ¬ Mirrors f (log ++ [(k, false)]) := by
  obtain ⟨c, hc, j, hne, hj, hdown⟩ := h
  intro hmirrors
  have htarget : Down (image f (log ++ [(k, false)])) c :=
    (hmirrors c).mpr ⟨j, hj, (down_snoc log k j false).mpr (by rwa [if_neg (Ne.symm hne)])⟩
  rw [down_image_snoc, if_pos hc] at htarget
  cases htarget

/-- One more event: the other end stays a mirror, unless a release takes a target from another key that is down. -/
theorem mirrors_snoc_iff {log : List (α × Bool)} (h : Mirrors f log) (k : α) (b : Bool) :
    Mirrors f (log ++ [(k, b)]) ↔ ¬ (b = false ∧ Clobbers f log k) := by
  cases b with
  | true => exact iff_of_true (h.press k) (by simp)
  | false =>
    refine ⟨fun hmirrors hclobbers => hclobbers.2.not_mirrors hmirrors, fun hnot => h.release fun hclobbers => ?_⟩
    exact hnot ⟨rfl, hclobbers⟩

/-- Where no two keys in use have a target in common, the other end is a mirror. -/
theorem mirrors_of_injOn {s : Set α} (hf : ∀ j ∈ s, ∀ k ∈ s, ∀ c ∈ f k, c ∈ f j → j = k) {log : List (α × Bool)}
    (hlog : ∀ e ∈ log, e.1 ∈ s) : Mirrors f log := by
  induction log using List.reverseRecOn with
  | nil => exact mirrors_nil f
  | append_singleton log e ih =>
    have hbefore : ∀ d ∈ log, d.1 ∈ s := fun d hd => hlog d (List.mem_append_left [e] hd)
    refine (mirrors_snoc_iff (ih hbefore) e.1 e.2).mpr ?_
    rintro ⟨-, c, hc, j, hne, hj, hdown⟩
    have hmem : (j, true) ∈ log := by
      by_contra hnot
      exact not_down_of_releases hnot hdown
    exact hne (hf j (hbefore _ hmem) e.1 (hlog e (by simp)) c hc hj)

end HeldKeys

import ScreenLink.Clipboard.Manager

/-!
# No echo

What a side has pushed, plus one if its clipboard holds a change not yet pushed, grows by a user's copy on that side
and by nothing else (`step_pushes`). Applying the peer's text leaves no change, so it cannot cause a push.
-/

namespace ScreenLink

/-- A user's copy on this side. -/
def ClipboardEvent.copies (side : Side) : ClipboardEvent → Bool
  | .copy side' _ => decide (side' = side)
  | _ => false

/-- `set_text` fails. -/
def ClipboardEvent.fails : ClipboardEvent → Bool
  | .apply _ (some _) => true
  | _ => false

namespace Clipboards

open Machine

/-- The messages pushed by a side, and the one it is about to push. -/
def pushes (t : Clipboards) (side : Side) : ℕ :=
  (t.sent side).length + if (t.mgr side).Changed then 1 else 0

variable {t t' : Clipboards} {e : ClipboardEvent} {side : Side}

theorem pushes_congr (hmgr : t'.mgr side = t.mgr side) (hsent : t'.sent side = t.sent side) :
    t'.pushes side = t.pushes side := by
  rw [pushes, pushes, hmgr, hsent]

theorem poll_self (t : Clipboards) (side : Side) (readable : Bool) :
    (t.poll side readable).pushes side ≤ t.pushes side ∧
      t.sent side <+: (t.poll side readable).sent side := by
  rcases (t.mgr side).pollLocalChange_cases readable with ⟨hchanged, text, hcb, hpoll⟩ | hpoll
  · have hquiet : ¬ ({ t.mgr side with lastSeen := some text } : ClipboardManager).Changed :=
      (ClipboardManager.not_changed_iff _).mpr (Or.inr hcb.symm)
    simp [poll, hpoll, push, setMgr, pushes, hchanged, hquiet]
  · simp [poll, hpoll, setMgr, pushes]

theorem poll_other (t : Clipboards) {side side' : Side} (h : side ≠ side') (readable : Bool) :
    (t.poll side' readable).mgr side = t.mgr side ∧ (t.poll side' readable).sent side = t.sent side := by
  rcases (t.mgr side').pollLocalChange_cases readable with ⟨-, text, -, hpoll⟩ | hpoll
  · simp [poll, hpoll, push, setMgr, h]
  · simp [poll, hpoll, setMgr]

theorem pushes_of_apply (hstep : step t (.apply side none) = some t') : t'.pushes side = (t'.sent side).length := by
  obtain ⟨text, rest, -, rfl⟩ := apply_eq_some hstep
  have hquiet : ¬ ((t.receive side text rest none).mgr side).Changed := by
    have hself := ClipboardManager.not_changed_applyRemote (t.mgr side) text
    simpa [receive, setMgr] using hself
  rw [pushes, if_neg hquiet, Nat.add_zero]

/-- A step adds a push to a side, made or due, only if it is a copy there. -/
theorem step_pushes (hstep : step t e = some t') (hset : e.fails = false) (side : Side) :
    t'.pushes side ≤ t.pushes side + (if e.copies side then 1 else 0) ∧ t.sent side <+: t'.sent side := by
  cases e with
  | copy side' content =>
    cases hstep
    refine ⟨?_, List.prefix_rfl⟩
    by_cases h : side' = side
    · subst h
      have hle : ∀ p : Prop, [Decidable p] → (if p then 1 else 0) ≤ 1 := by
        intro p _
        split_ifs <;> simp
      have := hle (((t.setMgr side' ((t.mgr side').copy content)).mgr side').Changed)
      simp only [pushes, ClipboardEvent.copies, decide_true, if_true]
      simp only [setMgr] at this ⊢
      omega
    · have hmgr : (t.setMgr side' ((t.mgr side').copy content)).mgr side = t.mgr side := by
        simp [setMgr, Ne.symm h]
      rw [pushes_congr hmgr rfl]
      exact Nat.le_add_right _ _
  | poll side' readable =>
    cases hstep
    by_cases h : side = side'
    · subst h
      exact poll_self t side readable
    · obtain ⟨hmgr, hsent⟩ := poll_other t h readable
      rw [pushes_congr hmgr hsent, hsent]
      exact ⟨Nat.le_add_right _ _, List.prefix_rfl⟩
  | apply side' error =>
    obtain ⟨text, rest, -, rfl⟩ := apply_eq_some hstep
    cases error with
    | some error => cases hset
    | none =>
      refine ⟨?_, List.prefix_rfl⟩
      by_cases h : side = side'
      · subst h
        rw [pushes_of_apply hstep, pushes]
        exact Nat.le_add_right _ _ |>.trans (Nat.le_add_right _ _)
      · have hmgr : (t.receive side' text rest none).mgr side = t.mgr side := by
          simp [receive, setMgr, h]
        rw [pushes_congr hmgr rfl]
        exact Nat.le_add_right _ _

theorem pushes_initial (cb : Side → Option String) (side : Side) :
    (initial cb).pushes side = if ClipboardManager.Ignored (cb side) then 0 else 1 := by
  simp [pushes, initial, ClipboardManager.changed_new, ite_not]

theorem run_pushes {u v : Clipboards} {es : List ClipboardEvent} (hrun : run step u es = some v)
    (hset : ∀ e ∈ es, e.fails = false) (side : Side) :
    v.pushes side ≤ u.pushes side + es.countP (·.copies side) ∧ u.sent side <+: v.sent side := by
  refine run_induction (P := fun es v => (∀ e ∈ es, e.fails = false) →
    v.pushes side ≤ u.pushes side + es.countP (·.copies side) ∧ u.sent side <+: v.sent side)
    (fun _ => ⟨Nat.le_refl _, List.prefix_rfl⟩) ?_ es v hrun hset
  intro es t e w _ ih hstep hset
  obtain ⟨hle, hgrows⟩ := ih fun d hd => hset d (List.mem_append_left _ hd)
  obtain ⟨hle', hgrows'⟩ := step_pushes hstep (hset e (by simp)) side
  refine ⟨?_, hgrows.trans hgrows'⟩
  rw [List.countP_append, List.countP_singleton]
  omega

/-- A side pushes at most one message for each copy of its user, and one for the text it held at the start; and after
it has applied a text of the peer it pushes nothing until its user copies again. -/
theorem no_clipboard_echo (cb : Side → Option String) (es : List ClipboardEvent) (t : Clipboards)
    (hrun : run step (initial cb) es = some t) (hset : ∀ e ∈ es, e.fails = false) :
    (∀ side, (t.sent side).length ≤
        es.countP (·.copies side) + if ClipboardManager.Ignored (cb side) then 0 else 1) ∧
      ∀ side front mid back u v, es = front ++ [.apply side none] ++ mid ++ back →
        run step (initial cb) (front ++ [.apply side none]) = some u → run step u mid = some v →
        mid.countP (·.copies side) = 0 → v.sent side = u.sent side := by
  constructor
  · intro side
    have hpushes := (run_pushes hrun hset side).1
    rw [pushes_initial, pushes] at hpushes
    omega
  · intro side front mid back u v hes hu hv hnone
    have hmid : ∀ e ∈ mid, e.fails = false := fun e he => hset e (by simp [hes, he])
    obtain ⟨hle, hgrows⟩ := run_pushes hv hmid side
    obtain ⟨w, -, happly⟩ := (run_snoc_eq_some step).mp hu
    rw [pushes_of_apply happly, hnone, pushes] at hle
    exact (hgrows.eq_of_length (Nat.le_antisymm hgrows.length_le (by omega))).symm

/-- Alice copies a text, Bob applies it, and both poll. -/
def copyOnce : List ClipboardEvent :=
  [.poll .a true, .copy .a (some "hello"), .poll .a true, .apply .b none, .poll .b true, .poll .a true]

theorem no_clipboard_echo_copyOnce : ∃ t, run step (initial fun _ => none) copyOnce = some t ∧
    t.sent .b = [] ∧ (t.sent .a).length ≤ 1 ∧ (t.mgr .b).cb = some "hello" := by
  obtain ⟨t, hrun, hsent, hcb⟩ : ∃ t, run step (initial fun _ => none) copyOnce = some t ∧
      t.sent .b = [] ∧ (t.mgr .b).cb = some "hello" := exists_run (by decide)
  exact ⟨t, hrun, hsent, (no_clipboard_echo _ copyOnce t hrun (by decide)).1 .a, hcb⟩

end Clipboards

end ScreenLink

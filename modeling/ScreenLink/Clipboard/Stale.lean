import ScreenLink.Clipboard.Manager

/-!
# A clipboard write that fails

One manager, and any order of user copies, polls and applied texts. `last_seen` is set before `set_text` is tried, so
after a failure it is a text that was never on the clipboard, and the next poll takes the old text for a new one. A poll
pushes for no other reason than a user's change, and pushes what it would push had the failed calls not been made, iff
it does not find the text last polled or applied behind a failed call with another text (`poll_pushes_iff`).
-/

namespace ScreenLink

inductive ClipboardCall
  | copy (content : Option String)
  | poll (readable : Bool)
  | applyRemote (text : String) (error : Option String)
  deriving DecidableEq

/-- The call is not a failed `set_text`. -/
def ClipboardCall.succeeds : ClipboardCall → Bool
  | .applyRemote _ error => error.isNone
  | _ => true

namespace ClipboardManager

def call (m : ClipboardManager) : ClipboardCall → ClipboardManager
  | .copy content => m.copy content
  | .poll readable => (m.pollLocalChange readable).1
  | .applyRemote text error => (m.applyRemote text error).1

def after (m : ClipboardManager) (calls : List ClipboardCall) : ClipboardManager := calls.foldl call m

theorem after_snoc (m : ClipboardManager) (calls : List ClipboardCall) (c : ClipboardCall) :
    m.after (calls ++ [c]) = (m.after calls).call c := by
  simp [after]

end ClipboardManager

/-- What has happened to a clipboard, whatever the manager makes of it. -/
structure ClipboardLog where
  cb : Option String
  /-- The text last polled, or applied without a failure. -/
  settled : Option String
  /-- The text of the last failed `set_text` since then. -/
  failed : Option String
  /-- The user has changed the clipboard since it was last polled, or last written by an applied text. -/
  changed : Bool
  /-- There has been a poll of a text that is not empty. -/
  polled : Bool
  deriving DecidableEq

namespace ClipboardLog

open ClipboardManager

def new (cb : Option String) : ClipboardLog := ⟨cb, none, none, false, false⟩

/-- A poll that reads `text`. -/
def reads (t : ClipboardLog) (text : String) : ClipboardLog :=
  if text = "" then { t with changed := false }
  else { t with settled := some text, failed := none, changed := false, polled := true }

def call (t : ClipboardLog) : ClipboardCall → ClipboardLog
  | .copy content => { t with cb := content, changed := t.changed || decide (content ≠ t.cb) }
  | .poll readable => match if readable then t.cb else none with
    | none => t
    | some text => t.reads text
  | .applyRemote text none => { t with cb := some text, settled := some text, failed := none, changed := false }
  | .applyRemote text (some _) => { t with failed := some text }

def after (cb : Option String) (calls : List ClipboardCall) : ClipboardLog := calls.foldl call (new cb)

/-- The clipboard holds what was last polled or applied, and a later `set_text` of another text has failed. -/
def Stale (t : ClipboardLog) : Prop := ¬ Ignored t.cb ∧ t.settled = t.cb ∧ t.failed.isSome = true ∧ t.failed ≠ t.cb

instance (t : ClipboardLog) : Decidable t.Stale := inferInstanceAs (Decidable (_ ∧ _))

theorem after_snoc (cb : Option String) (calls : List ClipboardCall) (c : ClipboardCall) :
    after cb (calls ++ [c]) = (after cb calls).call c := by
  simp [after]

/-- The manager of the log. -/
def manager (t : ClipboardLog) : ClipboardManager := ⟨t.cb, t.failed.or t.settled⟩

/-- The manager of the log, had the failed calls not been made. -/
def clean (t : ClipboardLog) : ClipboardManager := ⟨t.cb, t.settled⟩

theorem poll_reads (cb lastSeen : Option String) (text : String) (hcb : cb = some text) :
    (ClipboardManager.mk cb lastSeen).pollLocalChange true =
      (⟨cb, if text = "" then lastSeen else some text⟩,
        if text = "" ∨ lastSeen = some text then none else some text) := by
  subst hcb
  unfold pollLocalChange
  simp only [if_true]
  by_cases hempty : text = ""
  · simp [hempty]
  · by_cases hseen : lastSeen = some text
    · simp [hempty, hseen]
    · simp [hempty, hseen]

theorem poll_unread (m : ClipboardManager) (readable : Bool) (hread : (if readable then m.cb else none) = none) :
    m.pollLocalChange readable = (m, none) := by
  rw [pollLocalChange, hread]

theorem call_poll_cases (t : ClipboardLog) (readable : Bool) :
    ((if readable then t.cb else none) = none ∧ t.call (.poll readable) = t) ∨
      ∃ text, readable = true ∧ t.cb = some text ∧ t.call (.poll readable) = t.reads text := by
  cases readable with
  | false => exact Or.inl ⟨rfl, rfl⟩
  | true =>
    cases hcb : t.cb with
    | none => exact Or.inl ⟨rfl, by simp [call, hcb]⟩
    | some text => exact Or.inr ⟨text, rfl, rfl, by simp [call, hcb]⟩

theorem manager_call (t : ClipboardLog) (c : ClipboardCall) : (t.call c).manager = t.manager.call c := by
  rcases c with content | readable | ⟨text, _ | error⟩
  · rfl
  · rcases t.call_poll_cases readable with ⟨hread, hcall⟩ | ⟨text, rfl, hcb, hcall⟩
    · rw [hcall, ClipboardManager.call, poll_unread t.manager readable hread]
    · rw [hcall, ClipboardManager.call, manager, manager, poll_reads _ _ text hcb, reads]
      split_ifs <;> rfl
  · rfl
  · rfl

theorem clean_call (t : ClipboardLog) (c : ClipboardCall) :
    (t.call c).clean = if c.succeeds then t.clean.call c else t.clean := by
  rcases c with content | readable | ⟨text, _ | error⟩
  · rfl
  · show (t.call (.poll readable)).clean = t.clean.call (.poll readable)
    rcases t.call_poll_cases readable with ⟨hread, hcall⟩ | ⟨text, rfl, hcb, hcall⟩
    · rw [hcall, ClipboardManager.call, poll_unread t.clean readable hread]
    · rw [hcall, ClipboardManager.call, clean, clean, poll_reads _ _ text hcb, reads]
      split_ifs <;> rfl
  · rfl
  · rfl

theorem after_eq_manager (cb : Option String) (calls : List ClipboardCall) :
    (ClipboardManager.new cb).after calls = (after cb calls).manager := by
  induction calls using List.reverseRecOn with
  | nil => rfl
  | append_singleton calls c ih => rw [after_snoc, manager_call, ← ih, ClipboardManager.after_snoc]

theorem after_succeeds_eq_clean (cb : Option String) (calls : List ClipboardCall) :
    (ClipboardManager.new cb).after (calls.filter ClipboardCall.succeeds) = (after cb calls).clean := by
  induction calls using List.reverseRecOn with
  | nil => rfl
  | append_singleton calls c ih =>
    rw [after_snoc, clean_call, ← ih, List.filter_append]
    by_cases hc : c.succeeds = true
    · rw [if_pos hc, List.filter_cons_of_pos hc, List.filter_nil, ClipboardManager.after_snoc]
    · rw [if_neg hc, List.filter_cons_of_neg hc, List.filter_nil, List.append_nil]

/-- What the user has not changed is what was last polled or applied, once there has been a poll. -/
structure Explained (t : ClipboardLog) : Prop where
  unchanged : t.changed = false → ¬ Ignored t.cb → t.settled = none ∨ t.settled = t.cb
  unpolled : t.settled = none → t.polled = false

theorem explained_call {t : ClipboardLog} (h : t.Explained) (c : ClipboardCall) : (t.call c).Explained := by
  rcases c with content | readable | ⟨text, _ | error⟩
  · refine ⟨fun hsame hcb => ?_, h.unpolled⟩
    obtain ⟨hchanged, rfl⟩ : t.changed = false ∧ content = t.cb := by simpa [call] using hsame
    exact h.unchanged hchanged hcb
  · rcases t.call_poll_cases readable with ⟨-, hcall⟩ | ⟨text, -, hcb, hcall⟩
    · rwa [hcall]
    · rw [hcall, reads]
      split_ifs with hempty
      · exact ⟨fun _ hnot => absurd (Or.inr (hempty ▸ hcb)) hnot, h.unpolled⟩
      · exact ⟨fun _ _ => Or.inr hcb.symm, fun hnone => absurd hnone (by simp)⟩
  · exact ⟨fun _ _ => Or.inr rfl, fun hnone => absurd hnone (by simp [call])⟩
  · exact ⟨h.unchanged, h.unpolled⟩

theorem explained_after (cb : Option String) (calls : List ClipboardCall) : (after cb calls).Explained := by
  induction calls using List.reverseRecOn with
  | nil => exact ⟨fun _ _ => Or.inl rfl, fun _ => rfl⟩
  | append_singleton calls c ih =>
    rw [after_snoc]
    exact explained_call ih c

theorem poll_clean_iff (t : ClipboardLog) : (t.manager.Changed → t.clean.Changed) ↔ ¬ t.Stale := by
  cases hfailed : t.failed with
  | none => simp [Stale, Changed, manager, clean, hfailed]
  | some text =>
    simp only [Stale, Changed, manager, clean, hfailed, Option.some_or, Option.isSome_some, true_and]
    tauto

/-- For every order of calls on a manager that starts with `cb` on the clipboard: a poll returns a text only if the user
has changed the clipboard since the last successful poll or applied text, or as the first poll of a text, and it returns
it without the failed calls as well, iff no poll finds the log stale. -/
theorem poll_pushes_iff (cb : Option String) (calls : List ClipboardCall) :
    (∀ front readable back text, calls = front ++ .poll readable :: back →
        (((ClipboardManager.new cb).after front).pollLocalChange readable).2 = some text →
        ((after cb front).changed = true ∨ (after cb front).polled = false) ∧
          (((ClipboardManager.new cb).after (front.filter ClipboardCall.succeeds)).pollLocalChange readable).2 =
            some text) ↔
      ∀ front back, calls = front ++ .poll true :: back → ¬ (after cb front).Stale := by
  simp only [after_succeeds_eq_clean, pollLocalChange_eq_some_iff]
  simp only [after_eq_manager]
  constructor
  · intro hall front back hsplit
    rw [← poll_clean_iff]
    intro hchanged
    obtain ⟨text, hcb⟩ : ∃ text, (after cb front).cb = some text :=
      Option.ne_none_iff_exists'.mp fun hnone => hchanged.1 (Or.inl hnone)
    exact (hall front true back text hsplit ⟨rfl, hchanged, hcb⟩).2.2.1
  · rintro hfresh front readable back text hsplit ⟨rfl, hchanged, hcb⟩
    have hclean := (poll_clean_iff _).mpr (hfresh front back hsplit) hchanged
    refine ⟨?_, rfl, hclean, hcb⟩
    have hexplained := explained_after cb front
    by_contra hnot
    simp only [not_or, Bool.not_eq_true, Bool.not_eq_false] at hnot
    rcases hexplained.unchanged hnot.1 hclean.1 with hfirst | hsame
    · rw [hexplained.unpolled hfirst] at hnot
      cases hnot.2
    · exact hclean.2 hsame

/-- The user copies a draft, and the peer's text cannot be put on the clipboard. -/
def draftStays : List ClipboardCall :=
  [.copy (some "draft"), .poll true, .applyRemote "final" (some "clipboard is occupied"), .poll true]

/-- The second poll pushes the draft once more, though the user has changed nothing since the first. -/
theorem draft_pushed_again :
    (((ClipboardManager.new none).after (draftStays.take 3)).pollLocalChange true).2 = some "draft" ∧
      (ClipboardLog.after none (draftStays.take 3)).changed = false ∧
      (ClipboardLog.after none (draftStays.take 3)).polled = true ∧
      (((ClipboardManager.new none).after ((draftStays.take 3).filter ClipboardCall.succeeds)).pollLocalChange true).2 =
        none := by
  decide

end ClipboardLog

end ScreenLink

import ScreenLink.Lib.Exchange
import ScreenLink.Session.Types

/-!
# Clipboard sync

`ClipboardManager`, and two connected devices that poll and apply: the thread of `clipboardsync.rs` applies what has
arrived and polls, over and over, and a poll pushes what it returns to the peer. The steps of `Clipboards` are any
interleaving of the two threads with their users and with the (reliable, ordered) delivery.
-/

namespace ScreenLink

structure ClipboardManager where
  /-- What the OS clipboard holds, if it holds text. -/
  cb : Option String
  lastSeen : Option String
  deriving DecidableEq

namespace ClipboardManager

def new (cb : Option String) : ClipboardManager := ⟨cb, none⟩

/-- The text, if it has changed since it was last seen or applied. `get_text` fails when the clipboard is not readable
or holds no text. -/
def pollLocalChange (m : ClipboardManager) (readable : Bool) : ClipboardManager × Option String :=
  match if readable then m.cb else none with
  | none => (m, none)
  | some text =>
    if text = "" then (m, none)
    else if m.lastSeen = some text then (m, none)
    else ({ m with lastSeen := some text }, some text)

/-- Apply text received from the peer; `error` is what `set_text` failed with. -/
def applyRemote (m : ClipboardManager) (text : String) (error : Option String) :
    ClipboardManager × Except String Unit :=
  let m := { m with lastSeen := some text }
  match error with
  | some error => (m, .error error)
  | none => ({ m with cb := some text }, .ok ())

/-- A user (or another application) puts something on the clipboard. -/
def copy (m : ClipboardManager) (content : Option String) : ClipboardManager := { m with cb := content }

/-- Content that a poll ignores. -/
def Ignored (content : Option String) : Prop := content = none ∨ content = some ""

instance (content : Option String) : Decidable (Ignored content) := inferInstanceAs (Decidable (_ ∨ _))

/-- The next poll pushes. -/
def Changed (m : ClipboardManager) : Prop := ¬ Ignored m.cb ∧ m.lastSeen ≠ m.cb

instance (m : ClipboardManager) : Decidable m.Changed := inferInstanceAs (Decidable (_ ∧ _))

theorem not_changed_iff (m : ClipboardManager) : ¬ m.Changed ↔ Ignored m.cb ∨ m.lastSeen = m.cb := by
  simp [Changed, ← not_or]

theorem changed_new (cb : Option String) : (new cb).Changed ↔ ¬ Ignored cb :=
  ⟨And.left, fun h => ⟨h, fun hnone => h (Or.inl hnone.symm)⟩⟩

theorem not_changed_applyRemote (m : ClipboardManager) (text : String) : ¬ (m.applyRemote text none).1.Changed :=
  (not_changed_iff _).mpr (Or.inr rfl)

theorem pollLocalChange_cases (m : ClipboardManager) (readable : Bool) :
    (m.Changed ∧ ∃ text, m.cb = some text ∧
        m.pollLocalChange readable = ({ m with lastSeen := some text }, some text)) ∨
      m.pollLocalChange readable = (m, none) := by
  unfold pollLocalChange
  cases readable with
  | false => exact Or.inr rfl
  | true =>
    cases hcb : m.cb with
    | none => exact Or.inr rfl
    | some text =>
      simp only [if_true]
      split_ifs with hempty hseen
      · exact Or.inr rfl
      · exact Or.inr rfl
      · refine Or.inl ⟨⟨?_, hcb ▸ hseen⟩, text, rfl, rfl⟩
        rintro (hnone | htext)
        · rw [hcb] at hnone
          cases hnone
        · rw [hcb] at htext
          exact hempty (Option.some.inj htext)

theorem pollLocalChange_eq_none_iff (m : ClipboardManager) : (m.pollLocalChange true).2 = none ↔ ¬ m.Changed := by
  rw [not_changed_iff]
  unfold pollLocalChange Ignored
  cases hcb : m.cb with
  | none => simp
  | some text =>
    simp only [if_true]
    split_ifs with hempty hseen <;> simp [*]

theorem pollLocalChange_eq_some_iff (m : ClipboardManager) (readable : Bool) (text : String) :
    (m.pollLocalChange readable).2 = some text ↔ readable = true ∧ m.Changed ∧ m.cb = some text := by
  cases readable with
  | false => simp [pollLocalChange]
  | true =>
    rcases m.pollLocalChange_cases true with ⟨hchanged, text', hcb, hpoll⟩ | hpoll
    · simp [hpoll, hchanged, hcb]
    · have hquiet := (pollLocalChange_eq_none_iff m).mp (congrArg Prod.snd hpoll)
      simp [hpoll, hquiet]

end ClipboardManager

/-- Two devices whose clipboards are kept in sync. -/
structure Clipboards where
  mgr : Side → ClipboardManager
  /-- The texts a side has pushed and the other has not applied, in order. -/
  flight : Side → List String
  /-- History: all texts a side has pushed. -/
  sent : Side → List String
  /-- History: where the text in `last_seen` is from. -/
  origin : Side → Origin

inductive ClipboardEvent
  | copy (side : Side) (content : Option String)
  | poll (side : Side) (readable : Bool)
  /-- The next text of the peer is applied; `set_text` may fail. -/
  | apply (side : Side) (error : Option String)
  deriving DecidableEq

namespace Clipboards

/-- Both sides have just started, with these clipboards. -/
def initial (cb : Side → Option String) : Clipboards where
  mgr side := .new (cb side)
  flight _ := []
  sent _ := []
  origin _ := .start

def setMgr (t : Clipboards) (side : Side) (m : ClipboardManager) : Clipboards :=
  { t with mgr := Function.update t.mgr side m }

/-- The message with `text` is on its way. -/
def push (t : Clipboards) (side : Side) (text : String) : Clipboards :=
  { t with
    flight := Function.update t.flight side (t.flight side ++ [text])
    sent := Function.update t.sent side (t.sent side ++ [text])
    origin := Function.update t.origin side .pushed }

def poll (t : Clipboards) (side : Side) (readable : Bool) : Clipboards :=
  let (m, change) := (t.mgr side).pollLocalChange readable
  let t := t.setMgr side m
  match change with
  | some text => t.push side text
  | none => t

/-- `side` applies `text`, and `rest` stays on its way. -/
def receive (t : Clipboards) (side : Side) (text : String) (rest : List String) (error : Option String) : Clipboards :=
  { t.setMgr side ((t.mgr side).applyRemote text error).1 with
    flight := Function.update t.flight side.other rest
    origin := Function.update t.origin side .applied }

def step (t : Clipboards) (e : ClipboardEvent) : Option Clipboards :=
  match e with
  | .copy side content => some (t.setMgr side ((t.mgr side).copy content))
  | .poll side readable => some (t.poll side readable)
  | .apply side error => match t.flight side.other with
    | [] => none
    | text :: rest => some (t.receive side text rest error)

theorem apply_eq_some {t t' : Clipboards} {side : Side} {error : Option String}
    (h : step t (.apply side error) = some t') :
    ∃ text rest, t.flight side.other = text :: rest ∧ t' = t.receive side text rest error := by
  simp only [step] at h
  split at h
  · cases h
  · rename_i text rest hflight
    exact ⟨text, rest, hflight, (Option.some.inj h).symm⟩

end Clipboards

end ScreenLink

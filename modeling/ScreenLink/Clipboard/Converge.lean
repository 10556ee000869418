import ScreenLink.Clipboard.Manager

/-!
# When the clipboards converge

Two devices in sync are an exchange of values (`step_refines`): a poll that finds a change pushes it, and applying the
peer's text takes it over. So once nothing is on its way and nothing is left to push, the clipboards hold one text
unless the last messages of the two sides have crossed, or a user has put something on a clipboard that polling ignores
and nothing of the peer has been written over it (`clipboards_converge_iff`). What a user has left on a clipboard is read
off the events (`ownContent`).
-/

namespace ScreenLink

namespace Clipboards

open Machine

/-- A side as a party of an exchange; what it holds is what it has seen last. -/
def party (t : Clipboards) (side : Side) : ExchangeParty String :=
  ⟨t.flight side, (t.mgr side).lastSeen, t.origin side, (t.sent side).getLast?⟩

variable {t t' : Clipboards} {e : ClipboardEvent}

theorem party_poll (t : Clipboards) (side : Side) (readable : Bool) :
    (t.poll side readable).party = t.party ∨ ∃ text, text ≠ "" ∧
      (t.poll side readable).party = Function.update t.party side ((t.party side).push text) := by
  rcases (t.mgr side).pollLocalChange_cases readable with ⟨⟨hshared, -⟩, text, hcb, hpoll⟩ | hpoll
  · refine Or.inr ⟨text, fun hempty => hshared (Or.inr (hempty ▸ hcb)), funext fun side' => ?_⟩
    rcases eq_or_ne side' side with rfl | hne
    · simp [party, poll, hpoll, push, setMgr, ExchangeParty.push]
    · simp [party, poll, hpoll, push, setMgr, hne]
  · refine Or.inl (funext fun side' => ?_)
    simp [party, poll, hpoll, setMgr]

theorem party_receive (t : Clipboards) (side : Side) (text : String) (rest : List String) (error : Option String) :
    (t.receive side text rest error).party = Function.update (Function.update t.party side.other
      { t.party side.other with queue := rest }) side ((t.party side).take text) := by
  have hseen : ((t.mgr side).applyRemote text error).1.lastSeen = some text := by cases error <;> rfl
  funext side'
  rcases Side.eq_or_eq_other side side' with rfl | rfl
  · simp [party, receive, setMgr, hseen, ExchangeParty.take, Function.update_of_ne (Side.other_ne side').symm]
  · simp [party, receive, setMgr, ExchangeParty.take]

/-- A step is a step of the exchange, or changes a clipboard only. -/
theorem step_refines (hstep : step t e = some t') :
    t'.party = t.party ∨ ∃ ev, Exchange.step Side.other t.party ev = some t'.party := by
  cases e with
  | copy side content =>
    cases hstep
    refine Or.inl (funext fun side' => ?_)
    rcases eq_or_ne side' side with rfl | hne
    · simp [party, setMgr, ClipboardManager.copy]
    · simp [party, setMgr, hne]
  | poll side readable =>
    cases hstep
    refine (party_poll t side readable).imp_right ?_
    rintro ⟨text, -, heq⟩
    exact ⟨.push side text, by rw [heq]; rfl⟩
  | apply side error =>
    obtain ⟨text, rest, hflight, rfl⟩ := apply_eq_some hstep
    refine Or.inr ⟨.apply side, ?_⟩
    simp only [Exchange.step]
    rw [show (t.party side.other).queue = text :: rest from hflight, party_receive]

theorem run_exchange {cb : Side → Option String} {es : List ClipboardEvent}
    (hrun : run step (initial cb) es = some t) : Exchange.Inv Side.other t.party := by
  refine run_invariant (P := fun t => Exchange.Inv Side.other t.party) (Exchange.inv_start _) ?_ es t hrun
  intro t e u h hstep
  rcases step_refines hstep with heq | ⟨ev, hev⟩
  · rw [heq]
    exact h
  · exact Exchange.step_inv Side.other_other (fun side => Side.other_ne side) h hev

/-- Both sides have polled since their clipboards changed, and nothing is on its way. -/
structure Settled (t : Clipboards) : Prop where
  polled : ∀ side, ((t.mgr side).pollLocalChange true).2 = none
  arrived : ∀ side, t.flight side = []

instance (t : Clipboards) : Decidable t.Settled :=
  decidable_of_iff ((∀ side ∈ [Side.a, .b], ((t.mgr side).pollLocalChange true).2 = none) ∧
      ∀ side ∈ [Side.a, .b], t.flight side = [])
    ⟨fun h => ⟨fun side => h.1 side (by cases side <;> simp), fun side => h.2 side (by cases side <;> simp)⟩,
      fun h => ⟨fun side _ => h.polled side, fun side _ => h.arrived side⟩⟩

/-- What the user of a side has left on the clipboard: what they copied last, or had there at the start, unless text of
the peer has been written over it. -/
def ownContent (cb : Side → Option String) (side : Side) (es : List ClipboardEvent) : Option (Option String) :=
  es.foldl (fun own e => match e with
    | .copy by_ content => if by_ = side then some content else own
    | .apply by_ none => if by_ = side then none else own
    | _ => own) (some (cb side))

/-- The user has left content on the clipboard that polling ignores. -/
def Textless (cb : Side → Option String) (es : List ClipboardEvent) (side : Side) (content : Option String) : Prop :=
  ownContent cb side es = some content ∧ ClipboardManager.Ignored content

/-- The last messages of the two sides have crossed: each has taken over the text of the other since it pushed its own. -/
def Crossed (cb : Side → Option String) (es : List ClipboardEvent) (t : Clipboards) : Prop :=
  ∀ side, t.origin side = .applied ∧ ∀ content, ¬ Textless cb es side content

theorem run_flight {cb : Side → Option String} {es : List ClipboardEvent} (hrun : run step (initial cb) es = some t) :
    ∀ side, "" ∉ t.flight side := by
  refine run_invariant (P := fun t => ∀ side, "" ∉ t.flight side) (by simp [initial]) ?_ es t hrun
  intro t e u h hstep side
  have hqueue : u.party side = t.party side → "" ∉ u.flight side := by
    intro heq
    rw [show u.flight side = t.flight side from congrArg ExchangeParty.queue heq]
    exact h side
  cases e with
  | copy by_ content =>
    cases hstep
    exact h side
  | poll by_ readable =>
    cases hstep
    rcases party_poll t by_ readable with heq | ⟨text, htext, heq⟩
    · exact hqueue (congrFun heq side)
    · have hside := congrFun heq side
      rcases eq_or_ne side by_ with rfl | hne
      · rw [Function.update_self] at hside
        rw [show (t.poll side readable).flight side = t.flight side ++ [text] from congrArg ExchangeParty.queue hside]
        intro hmem
        rcases List.mem_append.mp hmem with hold | hnew
        · exact h side hold
        · exact htext (List.mem_singleton.mp hnew).symm
      · rw [Function.update_of_ne hne] at hside
        exact hqueue hside
  | apply by_ error =>
    obtain ⟨text, rest, hflight, rfl⟩ := apply_eq_some hstep
    intro hmem
    simp only [receive, setMgr] at hmem
    rcases eq_or_ne side by_.other with rfl | hne
    · rw [Function.update_self] at hmem
      exact h _ (hflight ▸ List.mem_cons_of_mem text hmem)
    · rw [Function.update_of_ne hne] at hmem
      exact h side hmem

/-- A clipboard holds what its user has left there, and text of the peer if there is no such thing. -/
structure LeftBy (own : Option (Option String)) (content : Option String) : Prop where
  mine : ∀ c, own = some c → content = c
  theirs : own = none → ¬ ClipboardManager.Ignored content

theorem leftBy_some (content : Option String) : LeftBy (some content) content where
  mine _ h := Option.some.inj h
  theirs h := by cases h

theorem leftBy_none {text : String} (htext : text ≠ "") : LeftBy none (some text) where
  mine _ h := by cases h
  theirs _ := by
    rintro (h | h)
    · cases h
    · exact htext (Option.some.inj h)

theorem poll_cb (t : Clipboards) (by_ side : Side) (readable : Bool) :
    ((t.poll by_ readable).mgr side).cb = (t.mgr side).cb := by
  rcases (t.mgr by_).pollLocalChange_cases readable with ⟨-, text, -, hpoll⟩ | hpoll <;>
    rcases eq_or_ne side by_ with rfl | hne <;> simp [poll, push, setMgr, *]

theorem run_leftBy {cb : Side → Option String} {es : List ClipboardEvent} (hrun : run step (initial cb) es = some t)
    (side : Side) : LeftBy (ownContent cb side es) (t.mgr side).cb := by
  refine run_induction (P := fun es t => LeftBy (ownContent cb side es) (t.mgr side).cb) ?_ ?_ es t hrun
  · exact leftBy_some (cb side)
  intro es t e u ht h hstep
  simp only [ownContent, List.foldl_append, List.foldl_cons, List.foldl_nil] at h ⊢
  cases e with
  | copy by_ content =>
    cases hstep
    rcases eq_or_ne by_ side with rfl | hne
    · simpa [setMgr, ClipboardManager.copy] using leftBy_some content
    · simpa [setMgr, hne, hne.symm] using h
  | poll by_ readable =>
    cases hstep
    rw [poll_cb]
    exact h
  | apply by_ error =>
    obtain ⟨text, rest, hflight, rfl⟩ := apply_eq_some hstep
    have htext : text ≠ "" := fun hempty => run_flight ht by_.other (hflight ▸ hempty ▸ List.mem_cons_self)
    rcases eq_or_ne by_ side with rfl | hne
    · cases error with
      | none => simpa [receive, setMgr, ClipboardManager.applyRemote] using leftBy_none htext
      | some error => simpa [receive, setMgr, ClipboardManager.applyRemote] using h
    · cases error <;> simpa [receive, setMgr, hne, hne.symm] using h

theorem ignored_iff {cb : Side → Option String} {es : List ClipboardEvent} (hrun : run step (initial cb) es = some t)
    {side : Side} {content : Option String} (hignored : ClipboardManager.Ignored content) :
    (t.mgr side).cb = content ↔ Textless cb es side content := by
  have h := run_leftBy hrun side
  constructor
  · rintro rfl
    cases hown : ownContent cb side es with
    | none => exact absurd hignored (h.theirs hown)
    | some content => exact ⟨hown.trans (congrArg some (h.mine content hown).symm), hignored⟩
  · exact fun htextless => h.mine content htextless.1

/-- Once all is settled, the clipboards hold the same iff the last texts have not crossed (or are one text), and what
a user has left there that is not synced, the other has left there too. -/
theorem clipboards_converge_iff (cb : Side → Option String) (es : List ClipboardEvent) (t : Clipboards)
    (hrun : run step (initial cb) es = some t) (hsettled : t.Settled) :
    (t.mgr .a).cb = (t.mgr .b).cb ↔
      (Crossed cb es t → (t.sent .a).getLast? = (t.sent .b).getLast?) ∧
        ∀ side content, Textless cb es side content → Textless cb es side.other content := by
  by_cases hignored : ∃ side, ClipboardManager.Ignored (t.mgr side).cb
  · obtain ⟨side, hside⟩ := hignored
    have htextless := (ignored_iff hrun hside).mp rfl
    have hcrossed : ¬ Crossed cb es t := fun h => (h side).2 _ htextless
    constructor
    · intro heq
      refine ⟨fun h => absurd h hcrossed, fun side' content h => (ignored_iff hrun h.2).mp ?_⟩
      have hcontent := (ignored_iff hrun h.2).mpr h
      cases side'
      · exact heq.symm.trans hcontent
      · exact heq.trans hcontent
    · rintro ⟨-, hmatch⟩
      have hother := (ignored_iff hrun hside).mpr (hmatch side _ htextless)
      cases side
      · exact hother.symm
      · exact hother
  · have hshared : ∀ side content, ¬ Textless cb es side content := fun side content h =>
      hignored ⟨side, (ignored_iff hrun h.2).mpr h ▸ h.2⟩
    have hseen : ∀ side, (t.party side).value = (t.mgr side).cb := fun side =>
      ((ClipboardManager.not_changed_iff _).mp ((ClipboardManager.pollLocalChange_eq_none_iff _).mp
        (hsettled.polled side))).resolve_left fun h => hignored ⟨side, h⟩
    have hagree := Exchange.agree_iff Side.other_other (run_exchange hrun) .a (hsettled.arrived .a) (hsettled.arrived .b)
    rw [← hseen .a, ← hseen .b, show Side.b = Side.a.other from rfl, hagree,
      and_iff_left fun side content h => absurd h (hshared side content)]
    constructor
    · exact fun h hcrossed => h (hcrossed .a).1 (hcrossed .b).1
    · refine fun h ha hb => h fun side => ⟨?_, hshared side⟩
      cases side
      · exact ha
      · exact hb

/-- Each user has a text of their own when the session starts. -/
def ownTexts : Side → Option String
  | .a => some "alice"
  | .b => some "bob"

/-- Both sides push at the start of the session, apply what arrives and poll again. -/
def bothPush : List ClipboardEvent :=
  [.poll .a true, .poll .b true, .apply .a none, .apply .b none, .poll .a true, .poll .b true]

/-- The clipboards are swapped. -/
theorem clipboards_swapped : ∃ t, run step (initial ownTexts) bothPush = some t ∧ t.Settled ∧
    (t.mgr .a).cb = some "bob" ∧ (t.mgr .b).cb = some "alice" :=
  exists_run (by decide)

/-- Alice's text reaches Bob before he polls, and what Bob copies then reaches Alice. -/
def inTurn : List ClipboardEvent :=
  [.poll .a true, .apply .b none, .copy .b (some "bob"), .poll .b true, .apply .a none, .poll .a true]

theorem clipboards_converge_iff_inTurn :
    ∃ t, run step (initial ownTexts) inTurn = some t ∧ t.Settled ∧ (t.mgr .a).cb = (t.mgr .b).cb := by
  obtain ⟨t, hrun, hsettled, horigin⟩ : ∃ t, run step (initial ownTexts) inTurn = some t ∧ t.Settled ∧
      t.origin .b = .pushed :=
    exists_run (by decide)
  refine ⟨t, hrun, hsettled, (clipboards_converge_iff _ _ t hrun hsettled).mpr ⟨?_, ?_⟩⟩
  · intro hcrossed
    have happlied := (hcrossed .b).1
    rw [horigin] at happlied
    cases happlied
  · rintro side content ⟨hown, hignored⟩
    cases side with
    | a => cases hown
    | b =>
      cases hown
      exact absurd hignored (by decide)

end Clipboards

end ScreenLink

import ScreenLink.Input.HeldKeys
import ScreenLink.Lib.Machine

/-!
# The edge setting is read twice

An iteration of the loop reads the shared edge at its head, for the detector, and again after its poll, for the entry
point and for the pinned test. The session task may write it at any time. The two reads agree in every decision unless
the setting changes between them, and the poll takes a move for which it matters (`one_edge_iff`).
-/

namespace ScreenLink

open Machine

/-- What the loop decides on a captured move, and for which edges. -/
inductive EdgeDecision
  /-- The detector crosses on `edge`; `points` are those of the `EdgeEnter` messages sent. -/
  | crossed (edge : ScreenEdge) (entryNorm : F32) (points : List (F32 × F32))
  /-- `update_remote` is evaluated for `edge`, with a flag computed for `flagEdge`. -/
  | pressed (edge flagEdge : ScreenEdge)
  deriving DecidableEq

def EdgeDecision.OneEdge : EdgeDecision → Prop
  | .crossed edge entryNorm points => points = [entryPoint edge entryNorm]
  | .pressed edge flagEdge => flagEdge = edge

instance (d : EdgeDecision) : Decidable d.OneEdge :=
  match d with
  | .crossed edge entryNorm points => inferInstanceAs (Decidable (points = [entryPoint edge entryNorm]))
  | .pressed edge flagEdge => inferInstanceAs (Decidable (flagEdge = edge))

def Deed.enterPoint : Deed → Option (F32 × F32)
  | .ctrl (.edgeEnter x y) => some (x, y)
  | _ => none

/-- The loop, and the setting it shares with the session task. -/
structure EdgeRace where
  host : HostInput
  /-- The head of an iteration has run, and its poll has not. -/
  polling : Bool
  shared : ScreenEdge
  /-- History. -/
  decisions : List EdgeDecision

inductive EdgeRaceEvent
  /-- The session task gets `SetEdge`. -/
  | setEdge (edge : ScreenEdge)
  | head (snapUi : Bool)
  | poll (captured : Option CapturedEvent)
  deriving DecidableEq

namespace EdgeRace

def start (edge : ScreenEdge) (hysteresis : Int) (rt : RealtimeCrypto) : EdgeRace where
  host := .start edge hysteresis rt
  polling := false
  shared := edge
  decisions := []

/-- The decision of a poll that takes the loop from `t.host` to `host`. -/
def decision (ar : Arith) (desktop : Rect) (t : EdgeRace) (captured : Option CapturedEvent) (host : HostInput) :
    Option EdgeDecision :=
  match captured, t.host.det.site with
  | some (.move _ _ absX absY), .local => match (t.host.det.updateLocal ar absX absY desktop).2 with
    | some (.toRemote entryNorm) => some (.crossed t.host.det.edge entryNorm
        ((host.deeds.drop t.host.deeds.length).filterMap Deed.enterPoint))
    | _ => none
  | some (.move ..), .remote => some (.pressed t.host.det.edge t.shared)
  | _, _ => none

def step (x : Crates) (ar : Arith) (desktop : Rect) (t : EdgeRace) : EdgeRaceEvent → Option EdgeRace
  | .setEdge edge => some { t with shared := edge }
  | .head snapUi =>
    if t.polling then none else some { t with host := hostHead x t.host t.shared snapUi, polling := true }
  | .poll captured =>
    if t.polling then
      let host := hostPoll x ar desktop t.host captured t.shared
      some { t with
        host := host
        polling := false
        decisions := t.decisions ++ (t.decision ar desktop captured host).toList }
    else none

/-- All decisions so far were for one edge each. -/
def OneEdge (t : EdgeRace) : Prop := ∀ d ∈ t.decisions, d.OneEdge

instance (t : EdgeRace) : Decidable t.OneEdge := inferInstanceAs (Decidable (∀ _ ∈ _, _))

/-- The setting has changed since the head, and the poll takes a move that crosses at another point for it, or a move
while control is remote. -/
def Changed (ar : Arith) (desktop : Rect) (t : EdgeRace) : EdgeRaceEvent → Prop
  | .poll (some (.move _ _ absX absY)) => match t.host.det.site with
    | .local => match (t.host.det.updateLocal ar absX absY desktop).2 with
      | some (.toRemote entryNorm) => entryPoint t.shared entryNorm ≠ entryPoint t.host.det.edge entryNorm
      | _ => False
    | .remote => t.shared ≠ t.host.det.edge
  | _ => False

instance (ar : Arith) (desktop : Rect) (t : EdgeRace) (e : EdgeRaceEvent) : Decidable (t.Changed ar desktop e) := by
  unfold Changed
  split
  · split
    · split <;> infer_instance
    · infer_instance
  · infer_instance

variable {x : Crates} {ar : Arith} {desktop : Rect} {t u : EdgeRace}

theorem enterPoints_crossing {h h' : HostInput} {dx dy absX absY : Int} {edgeNow : ScreenEdge} {entryNorm : F32}
    (hsite : h.det.site = .local) (hcross : (h.det.updateLocal ar absX absY desktop).2 = some (.toRemote entryNorm))
    (hturn : PollTurn x ar desktop h (some (.move dx dy absX absY)) edgeNow h') :
    (h'.deeds.drop h.deeds.length).filterMap Deed.enterPoint = [entryPoint edgeNow entryNorm] := by
  rcases hturn with _ | ⟨-, hnone⟩ | ⟨-, hupdate, hremote, hsent, hdoes⟩ | ⟨hremote, -, -, -⟩ | ⟨hremote, -, -, -, -⟩
  · rw [hnone] at hcross
    cases hcross
  · rename_i det entryNorm' ds
    obtain rfl : entryNorm' = entryNorm := by simpa [hupdate] using hcross
    have hquiet : ds.filterMap Deed.enterPoint = [] := by
      rw [List.filterMap_eq_nil_iff]
      intro d hd
      obtain ⟨ev, -, rfl⟩ := hsent.mem hd
      rfl
    rw [hdoes.deeds]
    have hdrop : ∀ ds : List Deed, (h.deeds ++ ds).drop h.deeds.length = ds := fun ds => List.drop_left
    refine (congrArg _ (hdrop _)).trans ?_
    rw [List.filterMap_append, List.filterMap_append, hquiet]
    rfl
  · exact absurd (hsite.symm.trans hremote) (by simp)
  · exact absurd (hsite.symm.trans hremote) (by simp)

theorem decision_oneEdge (t : EdgeRace) (captured : Option CapturedEvent) :
    (∀ d ∈ t.decision ar desktop captured (hostPoll x ar desktop t.host captured t.shared), d.OneEdge) ↔
      ¬ t.Changed ar desktop (.poll captured) := by
  rcases captured with _ | (⟨dx, dy, absX, absY⟩ | ev)
  · simp [decision, Changed]
  · have hturn := hostPoll_turn x ar desktop t.host (some (.move dx dy absX absY)) t.shared
    generalize hostPoll x ar desktop t.host (some (.move dx dy absX absY)) t.shared = h' at hturn
    unfold decision Changed
    cases hsite : t.host.det.site with
    | «local» =>
      dsimp only
      cases hcross : (t.host.det.updateLocal ar absX absY desktop).2 with
      | none => simp
      | some transition =>
        cases transition with
        | toLocal => simp
        | toRemote entryNorm =>
          simp [EdgeDecision.OneEdge, enterPoints_crossing hsite hcross hturn]
    | remote => simp [EdgeDecision.OneEdge]
  · simp [decision, Changed]

theorem oneEdge_step {e : EdgeRaceEvent} (hgood : t.OneEdge) (hstep : step x ar desktop t e = some u) :
    u.OneEdge ↔ ¬ t.Changed ar desktop e := by
  cases e with
  | setEdge edge =>
    cases hstep
    exact iff_of_true hgood id
  | head snapUi =>
    simp only [step, Option.ite_none_left_eq_some, Option.some.injEq] at hstep
    obtain ⟨-, rfl⟩ := hstep
    exact iff_of_true hgood id
  | poll captured =>
    simp only [step, Option.ite_none_right_eq_some, Option.some.injEq] at hstep
    obtain ⟨-, rfl⟩ := hstep
    rw [← decision_oneEdge (x := x)]
    simp only [OneEdge, List.mem_append, Option.mem_toList]
    exact ⟨fun hall d hd => hall d (Or.inr hd), fun hnew d hd => hd.elim (hgood d) (hnew d)⟩

end EdgeRace

open EdgeRace in
/-- In every interleaving of `SetEdge` with the loop: every crossing on an edge sends the entry point of that edge, and
every `update_remote` gets a flag computed for the edge it is evaluated for, iff no poll takes a move that matters after
the setting has changed since the iteration's head. -/
theorem one_edge_iff (x : Crates) (ar : Arith) (desktop : Rect) (edge : ScreenEdge) (hysteresis : Int)
    (rt : RealtimeCrypto) (es : List EdgeRaceEvent) (t : EdgeRace)
    (hrun : run (step x ar desktop) (start edge hysteresis rt) es = some t) :
    (∀ front back u, es = front ++ back → run (step x ar desktop) (start edge hysteresis rt) front = some u →
        u.OneEdge) ↔
      ¬ Seen (step x ar desktop) (Changed ar desktop) (start edge hysteresis rt) es := by
  refine always_good_iff (A := fun _ => True) (fun d hd => by cases hd) trivial ?_ hrun
  exact fun t e u hgood _ hstep => ⟨oneEdge_step hgood hstep, fun _ => trivial⟩

namespace EdgeRace

/-- The user moves the peer to the bottom edge while the loop waits for the mouse, which then reaches the right edge. -/
def turnedMeanwhile : List EdgeRaceEvent :=
  [.head false, .setEdge .bottom, .poll (some (.move 5 0 1919 540))]

/-- The detector crosses on the right edge, and the peer is told to enter at its top. -/
theorem crossed_elsewhere : ∃ t,
    run (step shiftCrates .exact ⟨0, 0, 1920, 1080⟩)
      (start .right 25 (RealtimeCrypto.new (Vector.replicate 32 7) 1 true)) turnedMeanwhile = some t ∧
    t.decisions = [.crossed .right (1 / 2) [(1 / 2, 0)]] ∧ ¬ t.OneEdge :=
  exists_run (by decide +kernel)

/-- The same change before the iteration: the move is not at the bottom edge. -/
def turnedBefore : List EdgeRaceEvent :=
  [.setEdge .bottom, .head false, .poll (some (.move 5 0 1919 540)), .head false, .poll (some (.move 0 9 1919 1079))]

theorem one_edge_iff_turnedBefore : ∃ t,
    run (step shiftCrates .exact ⟨0, 0, 1920, 1080⟩)
      (start .right 25 (RealtimeCrypto.new (Vector.replicate 32 7) 1 true)) turnedBefore = some t ∧
    t.decisions.length = 1 ∧ t.OneEdge := by
  obtain ⟨t, hrun, hcrossed⟩ : ∃ t,
      run (step shiftCrates .exact ⟨0, 0, 1920, 1080⟩)
        (start .right 25 (RealtimeCrypto.new (Vector.replicate 32 7) 1 true)) turnedBefore = some t ∧
      t.decisions.length = 1 := exists_run (by decide +kernel)
  have hsame : ¬ Seen (step shiftCrates .exact ⟨0, 0, 1920, 1080⟩) (Changed .exact ⟨0, 0, 1920, 1080⟩)
      (start .right 25 (RealtimeCrypto.new (Vector.replicate 32 7) 1 true)) turnedBefore := by decide +kernel
  exact ⟨t, hrun, hcrossed, (one_edge_iff shiftCrates .exact ⟨0, 0, 1920, 1080⟩ .right 25 _ turnedBefore t hrun).mpr
    hsame turnedBefore [] t (List.append_nil _).symm hrun⟩

end EdgeRace

end ScreenLink

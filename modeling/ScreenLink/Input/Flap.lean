import ScreenLink.Input.Cursor
import ScreenLink.Input.Exclusive

/-!
# Flapping at the seam

`win_capture.rs` in front of the loop: while control is local a captured move carries the position of the cursor, while
input is suppressed it carries the park point, which is where control has crossed. `update_local` tests the position
alone. So after control has come home a move takes it back whenever its position is at the edge, also when it was
captured before and when it does not go toward the edge (`no_flap_iff`); and as long as the edge setting is the same,
every move captured by Raw Input during suppression is at the edge (`stale_at_seam`).
-/

namespace ScreenLink

open Machine HostInput

/-- `at_edge` of `update_local`. -/
def ScreenEdge.reached (ar : Arith) (edge : ScreenEdge) (cx cy : Int) (screen : Rect) : Bool :=
  match edge with
  | .left => decide (cx ≤ screen.x)
  | .right => decide (ar.i32 (ar.i32 (screen.x + screen.w) - 1) ≤ cx)
  | .top => decide (cy ≤ screen.y)
  | .bottom => decide (ar.i32 (ar.i32 (screen.y + screen.h) - 1) ≤ cy)

/-- The statics of the capturer, but for `SUPPRESS`. -/
structure MouseStatics where
  parkOn : Bool
  parkX : Int
  parkY : Int
  lastX : Int
  lastY : Int
  rawInputOk : Bool

namespace MouseStatics

/-- The cursor is at `(px, py)`. -/
def start (px py : Int) (rawInputOk : Bool) : MouseStatics := ⟨false, 0, 0, px, py, rawInputOk⟩

/-- `set_suppress` and `park_cursor` -/
def hear (c : MouseStatics) : Deed → MouseStatics
  | .suppress on => if on then c else { c with parkOn := false }
  | .park x y => { c with parkOn := true, parkX := x, parkY := y, lastX := x, lastY := y }
  | _ => c

/-- `handle_raw_mouse`: a relative motion is sent while suppressed. -/
def handleRawMouse (c : MouseStatics) (suppress : Bool) (dx dy : Int) (absolute : Bool) : Option CapturedEvent :=
  if suppress ∧ ¬ absolute ∧ (dx ≠ 0 ∨ dy ≠ 0) then some (.move dx dy c.parkX c.parkY) else none

/-- `mouse_proc` on `WM_MOUSEMOVE` -/
def mouseMove (ar : Arith) (c : MouseStatics) (suppress : Bool) (x y : Int) : MouseStatics × Option CapturedEvent :=
  let dx := ar.i32 (x - c.lastX)
  let dy := ar.i32 (y - c.lastY)
  let event :=
    if ¬ suppress ∧ (dx ≠ 0 ∨ dy ≠ 0) then some (.move dx dy x y)
    else if suppress ∧ ¬ c.rawInputOk ∧ (dx ≠ 0 ∨ dy ≠ 0) then some (.move dx dy x y)
    else none
  if suppress ∧ c.parkOn then ({ c with lastX := c.parkX, lastY := c.parkY }, event)
  else ({ c with lastX := x, lastY := y }, event)

def park (c : MouseStatics) : Int × Int := (c.parkX, c.parkY)

end MouseStatics

/-- A move that should not take control away: it was captured while input was suppressed, or does not go toward the
edge. -/
def Hooked.Wobble (q : Hooked) (edge : ScreenEdge) : Prop :=
  match q.event with
  | .move dx dy _ _ => q.eaten = true ∨ 0 ≤ edge.home dx dy
  | .input _ => False

instance (q : Hooked) (edge : ScreenEdge) : Decidable (q.Wobble edge) := by
  unfold Hooked.Wobble
  split <;> infer_instance

/-- The event is a move whose position is at the edge. -/
def Hooked.reaches (ar : Arith) (desktop : Rect) (edge : ScreenEdge) (q : Hooked) : Bool :=
  match q.event with
  | .move _ _ absX absY => edge.reached ar absX absY desktop
  | .input _ => false

/-- A move that has taken control to the remote. -/
structure Crossing where
  move : Hooked
  /-- The active edge. -/
  edge : ScreenEdge
  /-- Control has come home before. -/
  returned : Bool
  deriving DecidableEq

def Crossing.Flaps (c : Crossing) : Prop := c.returned = true ∧ c.move.Wobble c.edge

instance (c : Crossing) : Decidable c.Flaps := inferInstanceAs (Decidable (_ ∧ _))

/-- The capturer and the loop. -/
structure WinLoop where
  capture : Capture
  win : MouseStatics
  /-- History: control has come home. -/
  returned : Bool
  /-- History. -/
  crossings : List Crossing

inductive WinEvent
  /-- Raw Input reports the mouse. -/
  | rawMouse (dx dy : Int) (absolute : Bool)
  /-- The cursor moves. -/
  | mouseMove (x y : Int)
  /-- The hooks send a key, button or wheel event. -/
  | input (ev : InputEvent)
  | head (edge : ScreenEdge) (snapUi : Bool)
  | poll (edgeNow : ScreenEdge)
  | exit
  deriving DecidableEq

namespace WinLoop

def start (h : HostInput) (win : MouseStatics) : WinLoop := ⟨.start h, win, false, []⟩

/-- The hook thread sends what there is to send. -/
def sends (t : WinLoop) (event : Option CapturedEvent) : WinLoop :=
  match event with
  | some event => { t with capture := t.capture.hook event }
  | none => t

/-- The loop's thread has taken its step to `capture`. -/
def turned (t : WinLoop) (capture : Capture) : WinLoop where
  capture := capture
  win := (capture.host.deeds.drop t.capture.host.deeds.length).foldl MouseStatics.hear t.win
  returned := t.returned || decide (t.capture.host.det.site = .remote ∧ capture.host.det.site = .local)
  crossings :=
    if t.capture.host.det.site = .local ∧ capture.host.det.site = .remote then
      t.crossings ++ t.capture.queue.head?.toList.map fun q => ⟨q, t.capture.host.det.edge, t.returned⟩
    else t.crossings

def step (x : Crates) (ar : Arith) (desktop : Rect) (t : WinLoop) : WinEvent → Option WinLoop
  | .rawMouse dx dy absolute => some (t.sends (t.win.handleRawMouse t.capture.suppress dx dy absolute))
  | .mouseMove cx cy =>
    let moved := t.win.mouseMove ar t.capture.suppress cx cy
    some ({ t with win := moved.1 }.sends moved.2)
  | .input ev => some (t.sends (some (.input ev)))
  | .head edge snapUi => (t.capture.step x ar desktop (.head edge snapUi)).map t.turned
  | .poll edgeNow => (t.capture.step x ar desktop (.poll edgeNow)).map t.turned
  | .exit => (t.capture.step x ar desktop .exit).map t.turned

/-- No move has taken control back that should not. -/
def NoFlap (t : WinLoop) : Prop := ∀ c ∈ t.crossings, ¬ c.Flaps

instance (t : WinLoop) : Decidable t.NoFlap := inferInstanceAs (Decidable (∀ _ ∈ _, _))

/-- After a return, while control is local, the loop takes a move that should not take it away, at the edge. -/
def AtSeam (ar : Arith) (desktop : Rect) (t : WinLoop) : WinEvent → Prop
  | .poll _ => t.returned = true ∧ t.capture.host.det.site = .local ∧
      ∃ q ∈ t.capture.queue.head?, q.Wobble t.capture.host.det.edge ∧
        q.reaches ar desktop t.capture.host.det.edge = true
  | _ => False

instance (ar : Arith) (desktop : Rect) (t : WinLoop) (e : WinEvent) : Decidable (t.AtSeam ar desktop e) := by
  unfold AtSeam
  split <;> infer_instance

variable {x : Crates} {ar : Arith} {desktop : Rect} {t u : WinLoop}

@[simp] theorem sends_crossings (t : WinLoop) (event : Option CapturedEvent) :
    (t.sends event).crossings = t.crossings := by
  cases event <;> rfl

/-- A step of the hook thread, or one of the loop. While Raw Input is active, a move sent during suppression carries the
park point. -/
inductive Turn (x : Crates) (ar : Arith) (desktop : Rect) (t : WinLoop) : WinEvent → WinLoop → Prop
  | hooks {e : WinEvent} {win : MouseStatics} {event : Option CapturedEvent} (hpark : win.park = t.win.park)
      (hraw : win.rawInputOk = t.win.rawInputOk)
      (hmove : t.capture.suppress = true → t.win.rawInputOk = true → ∀ dx dy absX absY,
        event = some (.move dx dy absX absY) → (absX, absY) = t.win.park)
      (hother : ∀ edgeNow, e ≠ .poll edgeNow) : Turn x ar desktop t e ({ t with win := win }.sends event)
  | head {edge : ScreenEdge} {snapUi : Bool} : Turn x ar desktop t (.head edge snapUi)
      (t.turned { t.capture with host := hostHead x t.capture.host edge snapUi, polling := true })
  | poll {edgeNow : ScreenEdge} : Turn x ar desktop t (.poll edgeNow) (t.turned (t.capture.poll x ar desktop edgeNow))
  | exit : Turn x ar desktop t .exit (t.turned { t.capture with host := t.capture.host.exit, exited := true })

theorem mouseMove_spec (ar : Arith) (c : MouseStatics) (suppress : Bool) (cx cy : Int) :
    (c.mouseMove ar suppress cx cy).1.park = c.park ∧
      (c.mouseMove ar suppress cx cy).1.rawInputOk = c.rawInputOk ∧
      (suppress = true → c.rawInputOk = true → (c.mouseMove ar suppress cx cy).2 = none) := by
  unfold MouseStatics.mouseMove
  dsimp only
  refine ⟨?_, ?_, fun hon hactive => ?_⟩
  · split_ifs <;> rfl
  · split_ifs <;> rfl
  · rw [hon, hactive]
    split_ifs <;> simp_all

theorem loopTurn_of_step {s capture : Capture} {e : CaptureEvent} (hother : ∀ event, e ≠ .hook event)
    (hwheel : ¬ Capture.WheelTurn s e capture) (hstep : s.step x ar desktop e = some capture) :
    Capture.LoopTurn x ar desktop s e capture := by
  rcases Capture.step_cases hstep with ⟨event, he, -⟩ | hraw | hturn
  · exact absurd he (hother event)
  · exact absurd hraw hwheel
  · exact hturn

theorem step_turn {e : WinEvent} (hstep : step x ar desktop t e = some u) : Turn x ar desktop t e u := by
  cases e with
  | rawMouse dx dy absolute =>
    cases hstep
    show Turn x ar desktop t _ ({ t with win := t.win }.sends _)
    refine .hooks rfl rfl (fun _ _ mx my absX absY hsent => ?_) (by simp)
    simp only [MouseStatics.handleRawMouse, Option.ite_none_right_eq_some, Option.some.injEq, CapturedEvent.move.injEq]
      at hsent
    obtain ⟨-, -, -, rfl, rfl⟩ := hsent
    rfl
  | mouseMove cx cy =>
    obtain ⟨hpark, hraw, hquiet⟩ := mouseMove_spec ar t.win t.capture.suppress cx cy
    obtain rfl := Option.some.inj hstep
    refine .hooks hpark hraw (fun hon hactive mx my absX absY hsent => ?_) (by simp)
    rw [hquiet hon hactive] at hsent
    cases hsent
  | input ev =>
    cases hstep
    show Turn x ar desktop t _ ({ t with win := t.win }.sends _)
    exact .hooks rfl rfl (fun _ _ mx my absX absY hsent => by cases hsent) (by simp)
  | head edge snapUi =>
    obtain ⟨capture, hcapture, rfl⟩ := Option.map_eq_some_iff.mp hstep
    cases loopTurn_of_step (by simp) (by rintro ⟨⟩) hcapture with
    | head hrunning => exact .head
  | poll edgeNow =>
    obtain ⟨capture, hcapture, rfl⟩ := Option.map_eq_some_iff.mp hstep
    cases loopTurn_of_step (by simp) (by rintro ⟨⟩) hcapture with
    | poll hrunning => exact .poll
  | exit =>
    obtain ⟨capture, hcapture, rfl⟩ := Option.map_eq_some_iff.mp hstep
    cases loopTurn_of_step (by simp) (by rintro ⟨⟩) hcapture with
    | exit hrunning => exact .exit

/-! ### What takes control across -/

theorem updateLocal_isSome (ar : Arith) (d : EdgeDetector) (cx cy : Int) (screen : Rect) (hsite : d.site = .local) :
    (d.updateLocal ar cx cy screen).2.isSome = d.edge.reached ar cx cy screen := by
  unfold EdgeDetector.updateLocal ScreenEdge.reached
  rw [if_neg (by simp [hsite])]
  cases d.edge <;> dsimp only <;> split_ifs with hat <;> simpa using hat

theorem crosses_eq (ar : Arith) (desktop : Rect) (d : EdgeDetector) (q : Hooked) (hsite : d.site = .local) :
    d.crosses ar desktop (some q.event) = q.reaches ar desktop d.edge := by
  unfold Hooked.reaches
  rcases q.event with ⟨dx, dy, absX, absY⟩ | ev
  · exact updateLocal_isSome ar d absX absY desktop hsite
  · rfl

theorem poll_crosses_iff (x : Crates) (ar : Arith) (desktop : Rect) (s : Capture) (edgeNow : ScreenEdge)
    (hsite : s.host.det.site = .local) :
    (s.poll x ar desktop edgeNow).host.det.site = .remote ↔
      ∃ q ∈ s.queue.head?, q.reaches ar desktop s.host.det.edge = true := by
  show (hostPoll x ar desktop s.host (s.queue.head?.map Hooked.event) edgeNow).det.site = .remote ↔ _
  have hpoll := told_poll x ar desktop s.host (s.queue.head?.map Hooked.event) edgeNow
  generalize hostPoll x ar desktop s.host (s.queue.head?.map Hooked.event) edgeNow = h' at hpoll
  dsimp only at hpoll
  have hcrosses : s.host.det.crosses ar desktop (s.queue.head?.map Hooked.event) = true ↔
      ∃ q ∈ s.queue.head?, q.reaches ar desktop s.host.det.edge = true := by
    cases s.queue.head? with
    | none => simp [EdgeDetector.crosses]
    | some q => simp [crosses_eq ar desktop s.host.det q hsite]
  rw [← hcrosses]
  rcases hpoll with ⟨hcross, -, hremote⟩ | ⟨hremote, -, -⟩ | ⟨hstays, -, hsame⟩
  · exact iff_of_true hremote hcross
  · exact absurd (hsite.symm.trans hremote) (by simp)
  · rw [hsame, hsite, hstays hsite]
    simp

theorem noFlap_turned {capture : Capture} (hstays : t.capture.host.det.site = .local → capture.host.det.site = .local) :
    (t.turned capture).NoFlap ↔ t.NoFlap := by
  have hcrossings : (t.turned capture).crossings = t.crossings := by
    refine if_neg ?_
    rintro ⟨hlocal, hremote⟩
    exact absurd ((hstays hlocal).symm.trans hremote) (by simp)
  rw [NoFlap, hcrossings, NoFlap]

theorem noFlap_step {e : WinEvent} (hgood : t.NoFlap) (hstep : step x ar desktop t e = some u) :
    u.NoFlap ↔ ¬ t.AtSeam ar desktop e := by
  rcases step_turn hstep with ⟨-, -, -, hother⟩ | @⟨edge, snapUi⟩ | @⟨edgeNow⟩ | _
  · refine iff_of_true (by rwa [NoFlap, sends_crossings]) ?_
    cases e with
    | poll edgeNow => exact absurd rfl (hother edgeNow)
    | _ => exact id
  · refine iff_of_true ((noFlap_turned fun hlocal => ?_).mpr hgood) id
    rcases told_head x t.capture.host edge snapUi with ⟨hremote, -, -, -⟩ | ⟨-, -, hdet⟩
    · exact absurd (hlocal.symm.trans hremote) (by simp)
    · show (hostHead x t.capture.host edge snapUi).det.site = .local
      rw [hdet]
      exact hlocal
  · have hcross := poll_crosses_iff x ar desktop t.capture edgeNow
    cases hsite : t.capture.host.det.site with
    | remote =>
      refine iff_of_true ((noFlap_turned fun hlocal => ?_).mpr hgood) ?_
      · exact absurd (hlocal.symm.trans hsite) (by simp)
      · rintro ⟨-, hlocal, -⟩
        exact absurd (hlocal.symm.trans hsite) (by simp)
    | «local» =>
      have hcross := hcross hsite
      by_cases hreach : ∃ q ∈ t.capture.queue.head?, q.reaches ar desktop t.capture.host.det.edge = true
      · have hremote := hcross.mpr hreach
        obtain ⟨q, hq, hreaches⟩ := hreach
        have hcrossings : (t.turned (t.capture.poll x ar desktop edgeNow)).crossings =
            t.crossings ++ [⟨q, t.capture.host.det.edge, t.returned⟩] := by
          refine (if_pos ⟨hsite, hremote⟩).trans ?_
          rw [Option.mem_def.mp hq]
          rfl
        rw [NoFlap, hcrossings]
        constructor
        · rintro hall ⟨hreturned, -, q', hq', hwobble, -⟩
          obtain rfl := Option.mem_unique hq hq'
          exact hall _ (List.mem_append_right _ (List.mem_singleton_self _)) ⟨hreturned, hwobble⟩
        · intro hnot c hc
          rcases List.mem_append.mp hc with hold | hnew
          · exact hgood c hold
          · obtain rfl := List.mem_singleton.mp hnew
            rintro ⟨hreturned, hwobble⟩
            exact hnot ⟨hreturned, hsite, q, hq, hwobble, hreaches⟩
      · have hstays : (t.capture.poll x ar desktop edgeNow).host.det.site = .local := by
          cases hsite' : (t.capture.poll x ar desktop edgeNow).host.det.site with
          | «local» => rfl
          | remote => exact absurd (hcross.mp hsite') hreach
        refine iff_of_true ((noFlap_turned fun _ => hstays).mpr hgood) ?_
        rintro ⟨-, -, q, hq, -, hreaches⟩
        exact hreach ⟨q, hq, hreaches⟩
  · exact iff_of_true ((noFlap_turned id).mpr hgood) id

/-! ### The park point -/

@[simp] theorem hear_rawInputOk (ds : List Deed) (c : MouseStatics) :
    (ds.foldl MouseStatics.hear c).rawInputOk = c.rawInputOk := by
  induction ds generalizing c with
  | nil => rfl
  | cons d ds ih =>
    rw [List.foldl_cons, ih]
    rcases d with ev | msg | event | (_ | _) | ⟨px, py⟩ <;> rfl

theorem hear_sent {evs : List InputEvent} {ds : List Deed} (hds : x.SentBy evs ds) (c : MouseStatics) :
    ds.foldl MouseStatics.hear c = c := hds.foldl_eq (fun _ _ => rfl) c

theorem park_head (x : Crates) (h : HostInput) (edge : ScreenEdge) (snapUi : Bool) (c : MouseStatics) :
    ∃ ds, (hostHead x h edge snapUi).deeds = h.deeds ++ ds ∧ (ds.foldl MouseStatics.hear c).park = c.park := by
  have hturn := hostHead_turn x h edge snapUi
  generalize hostHead x h edge snapUi = h' at hturn
  rcases hturn with hkeep | ⟨-, -, hsent, hdoes⟩
  · exact ⟨[], (List.append_nil _).symm, rfl⟩
  · refine ⟨_, hdoes.deeds, ?_⟩
    simp only [List.foldl_append, hear_sent hsent]
    rfl

/-- A poll that crosses parks the cursor where it crosses, at the edge; no other poll parks it or turns suppression
on. -/
theorem park_poll (x : Crates) (ar : Arith) (desktop : Rect) (h : HostInput) (captured : Option CapturedEvent)
    (edgeNow : ScreenEdge) (c : MouseStatics) :
    let h' := hostPoll x ar desktop h captured edgeNow
    ∃ ds, h'.deeds = h.deeds ++ ds ∧
      (h.det.edge.reached ar (ds.foldl MouseStatics.hear c).parkX (ds.foldl MouseStatics.hear c).parkY desktop = true ∨
        ((ds.foldl MouseStatics.hear c).park = c.park ∧ (h'.told.suppress = true → h.told.suppress = true))) := by
  have hturn := hostPoll_turn x ar desktop h captured edgeNow
  generalize hostPoll x ar desktop h captured edgeNow = h' at hturn
  dsimp only
  rcases hturn with _ | _ | @⟨dx, dy, absX, absY, _, det, entryNorm, ds, _, hsite, hupdate, -, hsent, hdoes⟩ |
    ⟨-, -, hsent, hdoes⟩ | ⟨-, -, hsent, hreleased, hdoes⟩ | _ | _ |
    @⟨key, pressed, _, ds, _, -, -, hsent, hdoes⟩ | _ | ⟨-, -, hsent, hdoes⟩
  · exact ⟨[], (List.append_nil _).symm, Or.inr ⟨rfl, id⟩⟩
  · exact ⟨[], (List.append_nil _).symm, Or.inr ⟨rfl, id⟩⟩
  · refine ⟨_, hdoes.deeds, Or.inl ?_⟩
    simp only [List.foldl_append, hear_sent hsent]
    show h.det.edge.reached ar absX absY desktop = true
    rw [← updateLocal_isSome ar h.det absX absY desktop hsite, hupdate]
    rfl
  · refine ⟨_, hdoes.deeds, Or.inr ⟨by rw [hear_sent hsent], ?_⟩⟩
    rw [hdoes.told, Told.hear_sent hsent]
    exact id
  · refine ⟨_, hdoes.deeds, Or.inr ⟨?_, ?_⟩⟩
    · simp only [List.foldl_append, hear_sent hsent, hear_sent hreleased]
      rfl
    · rw [hdoes.told]
      simp only [List.foldl_append, Told.hear_sent hsent, Told.hear_sent hreleased]
      exact fun hon => by cases hon
  · exact ⟨[], (List.append_nil _).symm, Or.inr ⟨rfl, id⟩⟩
  · refine ⟨[], by simp [deeds], Or.inr ⟨rfl, ?_⟩⟩
    simp [told, deeds]
  · refine ⟨ds, hdoes.deeds.trans (by simp [deeds]), Or.inr ⟨by rw [hear_sent hsent], ?_⟩⟩
    rw [hdoes.told, Told.hear_sent hsent]
    simp [told, deeds]
  · exact ⟨[], (List.append_nil _).symm, Or.inr ⟨rfl, id⟩⟩
  · refine ⟨_, hdoes.deeds, Or.inr ⟨by rw [hear_sent hsent], ?_⟩⟩
    rw [hdoes.told, Told.hear_sent hsent]
    exact id

/-- What holds while the edge setting stays `edge` and Raw Input is active. -/
structure Parked (ar : Arith) (desktop : Rect) (edge : ScreenEdge) (t : WinLoop) : Prop where
  edge_eq : t.capture.host.det.edge = edge
  raw : t.win.rawInputOk = true
  /-- The cursor is parked at the edge. -/
  parked : t.capture.suppress = true → edge.reached ar t.win.parkX t.win.parkY desktop = true
  queued : ∀ q ∈ t.capture.queue, q.eaten = true → ∀ dx dy absX absY, q.event = .move dx dy absX absY →
    edge.reached ar absX absY desktop = true

variable {edge : ScreenEdge}

theorem parked_sends (h : t.Parked ar desktop edge) {event : Option CapturedEvent}
    (hevent : t.capture.suppress = true → ∀ dx dy absX absY, event = some (.move dx dy absX absY) →
      edge.reached ar absX absY desktop = true) : (t.sends event).Parked ar desktop edge := by
  cases event with
  | none => exact h
  | some event =>
    refine ⟨?_, h.raw, ?_, fun q hq heaten dx dy absX absY hmove => ?_⟩
    · rw [sends, Capture.hook_host]
      exact h.edge_eq
    · rw [sends, Capture.suppress, Capture.hook_host]
      exact h.parked
    · rcases Capture.mem_queue_trySend (q := t.capture.hooks event) hq with hold | rfl
      · exact h.queued q hold heaten dx dy absX absY hmove
      · exact hevent heaten dx dy absX absY (congrArg some hmove)

theorem edge_updateRemote (ar : Arith) (d : EdgeDetector) (dx dy : Int) (atReturnEdge : Bool) :
    (d.updateRemote ar dx dy atReturnEdge).1.edge = d.edge := by
  unfold EdgeDetector.updateRemote
  dsimp only
  split_ifs <;> rfl

theorem edge_poll (x : Crates) (ar : Arith) (desktop : Rect) (h : HostInput) (captured : Option CapturedEvent)
    (edgeNow : ScreenEdge) : (hostPoll x ar desktop h captured edgeNow).det.edge = h.det.edge := by
  show (hostPoll x ar desktop h captured edgeNow).cursor.det.edge = h.cursor.det.edge
  rw [cursor_hostPoll]
  rcases captured with _ | (⟨dx, dy, absX, absY⟩ | ev)
  · rfl
  · unfold VirtualCursor.poll
    cases h.cursor.det.site with
    | «local» =>
      simp only [VirtualCursor.moveLocal]
      rcases h.cursor.det.updateLocal_eq ar absX absY desktop with heq | ⟨-, entryNorm, heq⟩
      · rw [heq]
      · rw [heq]
    | remote => exact edge_updateRemote ar _ dx dy _
  · rfl

theorem parked_turned (h : t.Parked ar desktop edge) {capture : Capture} {ds : List Deed}
    (hdeeds : capture.host.deeds = t.capture.host.deeds ++ ds) (hedge : capture.host.det.edge = edge)
    (hqueue : ∀ q ∈ capture.queue, q ∈ t.capture.queue)
    (hpark : edge.reached ar (ds.foldl MouseStatics.hear t.win).parkX (ds.foldl MouseStatics.hear t.win).parkY desktop =
        true ∨
      ((ds.foldl MouseStatics.hear t.win).park = t.win.park ∧ (capture.suppress = true → t.capture.suppress = true))) :
    (t.turned capture).Parked ar desktop edge := by
  have hwin : (t.turned capture).win = ds.foldl MouseStatics.hear t.win := by
    rw [turned, hdeeds, List.drop_left]
  refine ⟨hedge, ?_, fun hon => ?_, fun q hq => h.queued q (hqueue q hq)⟩
  · rw [hwin, hear_rawInputOk]
    exact h.raw
  · rw [hwin]
    rcases hpark with hreached | ⟨hsame, hsuppress⟩
    · exact hreached
    · obtain ⟨hx, hy⟩ := Prod.mk.inj hsame
      rw [hx, hy]
      exact h.parked (hsuppress hon)

theorem parked_step {e : WinEvent} (h : t.Parked ar desktop edge) (hstep : step x ar desktop t e = some u)
    (hedge : ∀ edge' snapUi, e = .head edge' snapUi → edge' = edge) : u.Parked ar desktop edge := by
  rcases step_turn hstep with ⟨hpark, hraw, hmove, -⟩ | @⟨edge', snapUi⟩ | @⟨edgeNow⟩ | _
  · rename_i win event
    obtain ⟨hx, hy⟩ := Prod.mk.inj hpark
    refine parked_sends (t := { t with win := win }) ⟨h.edge_eq, hraw.trans h.raw, ?_, h.queued⟩ ?_
    · rw [hx, hy]
      exact h.parked
    · intro hon mx my absX absY hsent
      obtain ⟨rfl, rfl⟩ := Prod.mk.inj (hmove hon h.raw mx my absX absY hsent)
      exact h.parked hon
  · obtain rfl := hedge edge' snapUi rfl
    obtain ⟨ds, hdeeds, hpark⟩ := park_head x t.capture.host edge' snapUi t.win
    have hhead := told_head x t.capture.host edge' snapUi
    refine parked_turned h hdeeds ?_ (fun q hq => hq) (Or.inr ⟨hpark, ?_⟩)
    · show (hostHead x t.capture.host edge' snapUi).det.edge = edge'
      rcases hhead with ⟨-, -, -, hdet⟩ | ⟨-, -, hdet⟩
      · rw [hdet, EdgeDetector.forceHome]
        split_ifs <;> rfl
      · rw [hdet]
        rfl
    · show (hostHead x t.capture.host edge' snapUi).told.suppress = true → t.capture.host.told.suppress = true
      rcases hhead with ⟨-, -, htold, -⟩ | ⟨-, htold, -⟩
      · rw [htold]
        exact fun hon => by cases hon
      · rw [htold]
        exact id
  · obtain ⟨ds, hdeeds, hpark⟩ := park_poll x ar desktop t.capture.host (t.capture.queue.head?.map Hooked.event) edgeNow
      t.win
    rw [h.edge_eq] at hpark
    refine parked_turned h hdeeds ?_ (fun q hq => List.mem_of_mem_tail hq) hpark
    exact (edge_poll x ar desktop t.capture.host _ edgeNow).trans h.edge_eq
  · have hdeeds : t.capture.host.exit.deeds = t.capture.host.deeds ++ [.suppress false] := List.map_append
    refine parked_turned h hdeeds h.edge_eq (fun q hq => hq) (Or.inr ⟨rfl, fun hon => ?_⟩)
    have hoff : t.capture.host.exit.told.suppress = false := by
      simp [HostInput.told, HostInput.exit, HostInput.emit, HostInput.deeds, HostOut.deed, Told.hear]
    exact absurd (hon.symm.trans hoff) (by simp)

end WinLoop

open WinLoop in
/-- As long as the edge setting is the same and Raw Input is active, a queued move that was captured during suppression
is at the edge: taken while control is local, it takes control away. -/
theorem stale_at_seam (x : Crates) (ar : Arith) (desktop : Rect) (edge : ScreenEdge) (hysteresis : Int)
    (rt : RealtimeCrypto) (px py : Int) {es : List WinEvent} {t : WinLoop}
    (hrun : run (step x ar desktop) (start (.start edge hysteresis rt) (.start px py true)) es = some t)
    (hedge : ∀ edge' snapUi, .head edge' snapUi ∈ es → edge' = edge) :
    ∀ q ∈ t.capture.queue, q.eaten = true → ∀ dx dy absX absY, q.event = .move dx dy absX absY →
      q.reaches ar desktop t.capture.host.det.edge = true := by
  have hstart : (start (.start edge hysteresis rt) (.start px py true)).Parked ar desktop edge :=
    ⟨rfl, rfl, fun hon => (by cases hon), fun q hq => (by cases hq)⟩
  have hparked := run_induction (P := fun es t => (∀ edge' snapUi, .head edge' snapUi ∈ es → edge' = edge) →
    t.Parked ar desktop edge) (fun _ => hstart) ?_ es t hrun hedge
  · intro q hq heaten dx dy absX absY hmove
    have hreached := hparked.queued q hq heaten dx dy absX absY hmove
    rw [Hooked.reaches, hmove, hparked.edge_eq]
    exact hreached
  · intro es t e u _ ih hstep hall
    refine parked_step (ih fun edge' snapUi he => hall edge' snapUi (List.mem_append_left _ he)) hstep ?_
    rintro edge' snapUi rfl
    exact hall edge' snapUi (List.mem_append_right _ (List.mem_singleton_self _))

open WinLoop in
/-- In every run: after control has come home, no move takes it back that was captured while input was suppressed or
does not go toward the active edge, iff after a return, while control is local, the loop takes no such move whose
position is at the edge. -/
theorem no_flap_iff (x : Crates) (ar : Arith) (desktop : Rect) (edge : ScreenEdge) (hysteresis : Int)
    (rt : RealtimeCrypto) (px py : Int) (rawInputOk : Bool) (es : List WinEvent) (t : WinLoop)
    (hrun : run (step x ar desktop) (start (.start edge hysteresis rt) (.start px py rawInputOk)) es = some t) :
    (∀ front back u, es = front ++ back →
        run (step x ar desktop) (start (.start edge hysteresis rt) (.start px py rawInputOk)) front = some u →
          u.NoFlap) ↔
      ¬ Seen (step x ar desktop) (AtSeam ar desktop)
        (start (.start edge hysteresis rt) (.start px py rawInputOk)) es := by
  refine always_good_iff (A := fun _ => True) (fun c hc => by cases hc) trivial ?_ hrun
  exact fun t e u hgood _ hstep => ⟨noFlap_step hgood hstep, fun _ => trivial⟩

namespace WinLoop

/-- Control crosses, the user moves the mouse away from the edge, and the UI snaps home before the loop has taken the
move; then the cursor slides along the edge. -/
def wobbles : List WinEvent :=
  [.mouseMove 1919 540, .head .right false, .poll .right, .rawMouse (-40) 0 false, .head .right true, .poll .right,
    .head .right true, .mouseMove 1919 549, .poll .right]

/-- The move captured before the return takes control back at once, and so does the move along the edge. -/
theorem wobble_flaps : ∃ t,
    run (step shiftCrates .exact ⟨0, 0, 1920, 1080⟩)
      (start (.start .right 25 (RealtimeCrypto.new (Vector.replicate 32 7) 1 true)) (.start 960 540 true)) wobbles =
        some t ∧
    (t.crossings.drop 1).map (fun c => (c.move.event, c.move.eaten)) =
      [(.move (-40) 0 1919 540, true), (.move 0 9 1919 549, false)] ∧ ¬ t.NoFlap :=
  exists_run (by decide +kernel)

/-- The user snaps home, moves the cursor away from the edge, and pushes it back to it. -/
def meant : List WinEvent :=
  [.mouseMove 1919 540, .head .right false, .poll .right, .head .right true, .mouseMove 1900 540, .poll .right,
    .head .right false, .mouseMove 1919 540, .poll .right]

theorem no_flap_iff_meant : ∃ t,
    run (step shiftCrates .exact ⟨0, 0, 1920, 1080⟩)
      (start (.start .right 25 (RealtimeCrypto.new (Vector.replicate 32 7) 1 true)) (.start 960 540 true)) meant =
        some t ∧
    t.crossings.length = 2 ∧ t.NoFlap := by
  obtain ⟨t, hrun, hcrossed⟩ : ∃ t,
      run (step shiftCrates .exact ⟨0, 0, 1920, 1080⟩)
        (start (.start .right 25 (RealtimeCrypto.new (Vector.replicate 32 7) 1 true)) (.start 960 540 true)) meant =
          some t ∧
      t.crossings.length = 2 := exists_run (by decide +kernel)
  have hoff : ¬ Seen (step shiftCrates .exact ⟨0, 0, 1920, 1080⟩) (AtSeam .exact ⟨0, 0, 1920, 1080⟩)
      (start (.start .right 25 (RealtimeCrypto.new (Vector.replicate 32 7) 1 true)) (.start 960 540 true)) meant := by
    decide +kernel
  exact ⟨t, hrun, hcrossed, (no_flap_iff shiftCrates .exact ⟨0, 0, 1920, 1080⟩ .right 25 _ 960 540 true meant t
    hrun).mpr hoff meant [] t (List.append_nil _).symm hrun⟩

end WinLoop

end ScreenLink

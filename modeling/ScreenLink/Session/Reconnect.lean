import ScreenLink.Lib.Machine
import ScreenLink.Session.Node

/-!
# Controlling again

`WinCapturer::start` and `RdevCapturer::start` put the sender of the capturer's channel in a static that can be set
once. Dropping the capturer drops the receiver only. So the factory succeeds at most once in a process, and a session
that reaches it later ends with an error (`capturer_again_iff`), also when the first has long ended
(`second_controller_fails`).
-/

namespace ScreenLink

/-- The statics of the capture backend. -/
structure CaptureStatics where
  /-- The channel whose sender is in `EVENT_TX` (`CAP_TX`). -/
  eventTx : Option ℕ := none
  lastX : BitVec 32 := 0
  lastY : BitVec 32 := 0
  deriving DecidableEq

/-- What the system answers while a capturer starts. -/
structure CaptureOs where
  /-- `win_inject::cursor_pos` -/
  cursor : BitVec 32 × BitVec 32
  /-- The thread for the hooks cannot be spawned. -/
  threadError : Option Error
  deriving DecidableEq

/-- Set the sender of the channel for good, and spawn the thread that captures. -/
def startCapturer (prepare : CaptureStatics → CaptureStatics) (channel : ℕ) (os : CaptureOs) (st : CaptureStatics) :
    CaptureStatics × Except Error ℕ :=
  match st.eventTx with
  | some _ => (st, .error (.other "capturer already started"))
  | none => (prepare { st with eventTx := some channel }, match os.threadError with
    | some error => .error error
    | none => .ok channel)

def WinCapturer.start (channel : ℕ) (os : CaptureOs) (st : CaptureStatics) : CaptureStatics × Except Error ℕ :=
  startCapturer (fun st => { st with lastX := os.cursor.1, lastY := os.cursor.2 }) channel os st

def RdevCapturer.start (channel : ℕ) (os : CaptureOs) (st : CaptureStatics) : CaptureStatics × Except Error ℕ :=
  startCapturer id channel os st

inductive Platform
  | windows
  | unix
  /-- The stub backend. -/
  | other
  deriving DecidableEq

def newCapturer (platform : Platform) (channel : ℕ) (os : CaptureOs) (st : CaptureStatics) :
    CaptureStatics × Except Error ℕ :=
  match platform with
  | .windows => WinCapturer.start channel os st
  | .unix => RdevCapturer.start channel os st
  | .other => (st, .ok channel)

/-- The process, with the statics of its capture backend. -/
structure App (x : Crates) where
  node : Node x
  statics : CaptureStatics
  /-- History: what `make_capturer` has returned, call by call. -/
  made : List (Except Error ℕ)

inductive AppEvent
  /-- A step that does not call `make_capturer`. -/
  | node (event : NodeEvent)
  /-- A controller session wires up its input: it binds a socket, and then starts a capturer. -/
  | wire (i : ℕ) (epoch : BitVec 64) (desktop : Rect) (bindError : Option Error) (os : CaptureOs)
  deriving DecidableEq

/-- The call of `make_capturer` in this step. -/
def AppEvent.makes : AppEvent → Option CaptureOs
  | .wire _ _ _ none os => some os
  | _ => none

namespace App

open Machine

variable {x : Crates}

def initial (core : AppCore x) : App x := ⟨.initial core, {}, []⟩

/-- The event wires up a controller session. -/
def wiresController (n : Node x) : NodeEvent → Bool
  | .session i (.wire ..) => (n.session? i).any fun s => s.role.controls
  | _ => false

/-- One step; `none` if the event cannot happen now. -/
def step (ar : Arith) (platform : Platform) (t : App x) (e : AppEvent) : Option (App x) :=
  match e with
  | .node event =>
    if wiresController t.node event then none else (t.node.step ar event).map fun node => { t with node := node }
  | .wire i epoch desktop bindError os =>
    if !(t.node.session? i).any (fun s => s.role.controls) then none
    else match bindError with
      | some error => (t.node.step ar (.session i (.wire epoch desktop (some error)))).map fun node =>
        { t with node := node }
      | none =>
        let (statics, res) := newCapturer platform t.made.length os t.statics
        (t.node.step ar (.session i (.wire epoch desktop (match res with
          | .error error => some error
          | .ok _ => none)))).map fun node => ⟨node, statics, t.made ++ [res]⟩

variable {ar : Arith} {platform : Platform} {t u : App x} {e : AppEvent}

/-- What is known after the calls `calls` of the factory. -/
structure Inv (platform : Platform) (calls : List CaptureOs) (t : App x) : Prop where
  length : t.made.length = calls.length
  stub : platform = .other → ∀ res ∈ t.made, res.isOk = true
  /-- The sender is set by the first call, -/
  set : platform ≠ .other → (t.statics.eventTx = none ↔ calls = [])
  first : platform ≠ .other → ∀ os, calls.head? = some os →
    ∃ res, t.made.head? = some res ∧ res.isOk = os.threadError.isNone
  /-- and fails every other. -/
  later : platform ≠ .other → ∀ res ∈ t.made.tail, res.isOk = false

theorem step_eq (h : step ar platform t e = some u) : match e.makes with
    | none => u.made = t.made ∧ u.statics = t.statics
    | some os => u.made = t.made ++ [(newCapturer platform t.made.length os t.statics).2] ∧
      u.statics = (newCapturer platform t.made.length os t.statics).1 := by
  cases e with
  | node event =>
    simp only [step] at h
    split_ifs at h
    obtain ⟨node, -, rfl⟩ := Option.map_eq_some_iff.mp h
    exact ⟨rfl, rfl⟩
  | wire i epoch desktop bindError os =>
    simp only [step] at h
    split_ifs at h
    cases bindError with
    | some error =>
      obtain ⟨node, -, rfl⟩ := Option.map_eq_some_iff.mp h
      exact ⟨rfl, rfl⟩
    | none =>
      obtain ⟨node, -, rfl⟩ := Option.map_eq_some_iff.mp h
      exact ⟨rfl, rfl⟩

theorem newCapturer_eq (hplatform : platform ≠ .other) (channel : ℕ) (os : CaptureOs) (st : CaptureStatics) :
    (newCapturer platform channel os st).1.eventTx = some (st.eventTx.getD channel) ∧
      (newCapturer platform channel os st).2.isOk = (st.eventTx.isNone && os.threadError.isNone) := by
  have hstart : ∀ prepare, (∀ st, (prepare st).eventTx = st.eventTx) →
      (startCapturer prepare channel os st).1.eventTx = some (st.eventTx.getD channel) ∧
        (startCapturer prepare channel os st).2.isOk = (st.eventTx.isNone && os.threadError.isNone) := by
    intro prepare hprepare
    unfold startCapturer
    cases hst : st.eventTx with
    | some tx => exact ⟨hst, rfl⟩
    | none => exact ⟨hprepare _, by cases os.threadError <;> rfl⟩
  cases platform with
  | windows => exact hstart _ fun _ => rfl
  | unix => exact hstart _ fun _ => rfl
  | other => exact absurd rfl hplatform

theorem step_inv {calls : List CaptureOs} (hinv : Inv platform calls t) (h : step ar platform t e = some u) :
    Inv platform (calls ++ e.makes.toList) u := by
  have hstep := step_eq h
  cases hmakes : e.makes with
  | none =>
    rw [hmakes] at hstep
    obtain ⟨hmade, hstatics⟩ := hstep
    rw [Option.toList_none, List.append_nil]
    exact ⟨hmade ▸ hinv.length, hmade ▸ hinv.stub, hstatics ▸ hinv.set, hmade ▸ hinv.first, hmade ▸ hinv.later⟩
  | some os =>
    rw [hmakes] at hstep
    obtain ⟨hmade, hstatics⟩ := hstep
    rw [Option.toList_some]
    have hempty : t.made = [] ↔ calls = [] := by rw [← List.length_eq_zero_iff, hinv.length, List.length_eq_zero_iff]
    refine ⟨by simp [hmade, hinv.length], ?_, ?_, ?_, ?_⟩
    · rintro rfl res hres
      rw [hmade] at hres
      rcases List.mem_append.mp hres with hres | hres
      · exact hinv.stub rfl res hres
      · rw [List.mem_singleton.mp hres]
        rfl
    all_goals
      intro hplatform
      obtain ⟨hset, hok⟩ := newCapturer_eq hplatform t.made.length os t.statics
    · rw [hstatics, hset]
      simp
    · intro os' hos'
      rcases eq_or_ne calls [] with rfl | hcalls
      · cases hos'
        rw [(hinv.set hplatform).mpr rfl] at hok
        exact ⟨_, by rw [hmade, hempty.mpr rfl]; rfl, hempty.mpr rfl ▸ hok⟩
      · rw [List.head?_append_of_ne_nil calls hcalls] at hos'
        rw [hmade, List.head?_append_of_ne_nil _ (mt hempty.mp hcalls)]
        exact hinv.first hplatform os' hos'
    · intro res hres
      rcases eq_or_ne calls [] with rfl | hcalls
      · rw [hmade, hempty.mpr rfl] at hres
        cases hres
      · rw [hmade, List.tail_append_of_ne_nil (mt hempty.mp hcalls)] at hres
        rcases List.mem_append.mp hres with hres | hres
        · exact hinv.later hplatform res hres
        · have hsome : t.statics.eventTx.isNone = false := by
            rw [Option.isNone_eq_false_iff, Option.isSome_iff_ne_none]
            exact mt (hinv.set hplatform).mp hcalls
          rw [List.mem_singleton.mp hres, hok, hsome, Bool.false_and]

theorem run_inv {core : AppCore x} {es : List AppEvent} (hrun : run (step ar platform) (initial core) es = some t) :
    Inv platform (es.filterMap AppEvent.makes) t := by
  refine run_induction (P := fun es t => Inv platform (es.filterMap AppEvent.makes) t) ?_ ?_ es t hrun
  · exact ⟨rfl, nofun, fun _ => ⟨fun _ => rfl, fun _ => rfl⟩, nofun, nofun⟩
  · intro es t e u _ hinv hstep
    rw [List.filterMap_append]
    cases hmakes : e.makes with
    | none => simpa [hmakes] using step_inv hinv hstep
    | some os => simpa [hmakes] using step_inv hinv hstep

/-- In every run of the process: if its first capturer was started then every one was, if and only if the backend is
the stub, or the factory has been called once at most, or the first thread could not be spawned. -/
theorem capturer_again_iff {core : AppCore x} {es : List AppEvent}
    (hrun : run (step ar platform) (initial core) es = some t) :
    ((∃ res, t.made.head? = some res ∧ res.isOk = true) →
        ∀ (n : ℕ) (res : Except Error ℕ), t.made[n]? = some res → res.isOk = true) ↔
      platform = .other ∨ (es.filterMap AppEvent.makes).length ≤ 1 ∨
        ∃ os, (es.filterMap AppEvent.makes).head? = some os ∧ os.threadError.isSome = true := by
  have hinv := run_inv hrun
  by_cases hplatform : platform = .other
  · exact iff_of_true (fun _ n res hres => hinv.stub hplatform res (List.mem_of_getElem? hres)) (Or.inl hplatform)
  · have hlen := hinv.length
    cases hcalls : es.filterMap AppEvent.makes with
    | nil =>
      rw [hcalls, List.length_nil] at hlen
      simp [List.length_eq_zero_iff.mp hlen]
    | cons os rest =>
      obtain ⟨res, hres, hfirst⟩ := hinv.first hplatform os (by rw [hcalls]; rfl)
      obtain ⟨made, hmade⟩ := List.head?_eq_some_iff.mp hres
      have hlater : ∀ r ∈ made, r.isOk = false := fun r hr => hinv.later hplatform r (by rw [hmade]; exact hr)
      replace hlen : made.length = rest.length := by simpa [hmade, hcalls] using hlen
      simp only [hmade, hplatform, false_or, List.head?_cons, Option.some.injEq, exists_eq_left', List.length_cons]
      cases hthread : os.threadError with
      | some error =>
        rw [hthread] at hfirst
        simp [hfirst]
      | none =>
        rw [hthread] at hfirst
        cases made with
        | nil =>
          refine iff_of_true ?_ (Or.inl (by simp [← hlen]))
          intro _ n r hr
          have hmem := List.mem_of_getElem? hr
          rw [List.mem_singleton] at hmem
          rw [hmem, hfirst]
          rfl
        | cons r made =>
          refine iff_of_false ?_ (by simp [← hlen])
          intro hall
          have hok := hall hfirst 1 r rfl
          rw [hlater r (by simp)] at hok
          cases hok

/-! ### Two sessions in turn -/

/-- Alice controls Bob as session `i`, up to the end of the connection. -/
def controlOnce (i : ℕ) (epoch : BitVec 64) : List AppEvent :=
  [.node (.ui (.connect (.v4 0x0A000002) "bob" .right)), .node .receive, .node (.connected i demoKey certBob),
    .node (.session i .sayHello),
    .node (.session i (.recv (.hello PROTOCOL_VERSION (demoCore certBob "bob" []).deviceInfo))),
    .node (.session i .setSlot), .node (.session i .checkTrust),
    .wire i epoch ⟨0, 0, 1920, 1080⟩ none ⟨(0, 0), none⟩]

/-- The connection ends, and the input loop with it. -/
def disconnected (i : ℕ) : List AppEvent :=
  [.node (.session i (.closed (.io "connection reset"))), .node (.session i .teardown), .node (.session i .hostExit)]

/-- The first session has ended with its input loop, so its capturer is dropped, and the second ends for want of one. -/
theorem second_controller_fails : ∃ t, run (step .exact .windows) (initial (demoCore certAlice "alice" [fpBob]))
      (controlOnce 0 11 ++ disconnected 0 ++ controlOnce 1 12) = some t ∧
    ((t.node.session? 0).any fun s => s.phase.finished && s.host.any HostThread.exited) = true ∧
    t.made.map Except.isOk = [true, false] ∧
    (t.node.session? 1).map Session.phase = some (.ended (some (.failed (.other "capturer already started")))) :=
  exists_run (by decide)

theorem capturer_again_iff_once : ∃ t, run (step .exact .unix) (initial (demoCore certAlice "alice" [fpBob]))
      (controlOnce 0 11 ++ disconnected 0) = some t ∧
    t.made.map Except.isOk = [true] ∧ ∀ (n : ℕ) (res : Except Error ℕ), t.made[n]? = some res → res.isOk = true := by
  obtain ⟨t, hrun, hmade⟩ : ∃ t, run (step .exact .unix) (initial (demoCore certAlice "alice" [fpBob]))
      (controlOnce 0 11 ++ disconnected 0) = some t ∧ t.made.map Except.isOk = [true] := exists_run (by decide)
  refine ⟨t, hrun, hmade, (capturer_again_iff hrun).mpr (Or.inr (Or.inl (by decide))) ?_⟩
  cases hm : t.made with
  | nil => simp [hm] at hmade
  | cons res made => exact ⟨res, rfl, by simpa [hm] using (List.cons.inj (hm ▸ hmade)).1⟩

end App

end ScreenLink

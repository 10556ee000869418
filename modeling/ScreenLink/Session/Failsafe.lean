import ScreenLink.Input.Capture
import ScreenLink.Session.Dispatch

/-!
# The way home and the channel to the writer

The input loop sends `EdgeEnter` and `EdgeLeave` with `blocking_send`, into a channel of 256 that it shares with the
other tasks of the session and that only the writer empties. On the way home it turns suppression off before it sends,
but at a crossing it turns it on before. The chord is the loop's own, but a request of the UI comes through the queue
of the session's main task, which sends into the same channel. So with local input suppressed the loop never waits for
the writer, and serves a request by steps of the session alone, if and only if the channel never lacks the room for a
crossing, or for what the main task then sends and has to send for its queue (`failsafe_iff`).
-/

namespace ScreenLink

open BoundedChannel HostInput Machine

/-- The step belongs to the head of an iteration. -/
def LoopStep.isHead : LoopStep → Bool
  | .head .. => true
  | .poll .. => false

def Deed.isCtrl : Deed → Bool
  | .ctrl _ => true
  | _ => false

namespace HostInput

/-- What the loop does to the outside from `h` to `h'`. -/
def since (h h' : HostInput) : List Deed := h'.deeds.drop h.deeds.length

/-- The capturer's flag after the deeds `ds`. -/
def suppressedBy (h : HostInput) (ds : List Deed) : Bool := (ds.foldl Told.hear h.told).suppress

/-- The step takes control across the edge. -/
def crosses (ar : Arith) (desktop : Rect) (h : HostInput) : LoopStep → Bool
  | .head .. => false
  | .poll captured _ => decide (h.det.site = .local) && h.det.crosses ar desktop captured

/-- The step completes the chord. -/
def chordIn (h : HostInput) : LoopStep → Bool
  | .poll (some event) _ => h.chord event
  | _ => false

end HostInput

/-- The step finds the flag of the UI as it is. -/
def LoopStep.sees (asked : Bool) : LoopStep → Bool
  | .head _ snapUi => snapUi == asked
  | .poll .. => true

/-- The input loop and the main task of a session in its main loop, and the channel they send control messages to. -/
structure Failsafe where
  host : HostInput
  /-- The head of an iteration has run, and its poll has not. -/
  polling : Bool
  exited : Bool
  /-- The step of the loop that waits in `blocking_send`. -/
  held : Option LoopStep
  /-- The channel, with the sends that wait for room. -/
  line : List OutTask
  writer : Bool
  /-- The commands the main task has not taken. -/
  queue : List SessionCmd
  /-- The main task holds the stop handle of a mirror sender. -/
  mirroring : Bool
  /-- The main task has set `snap_home`, and the loop has not seen it. -/
  asked : Bool
  /-- The main task has left its loop, and set `stop`. -/
  stop : Bool

inductive FailsafeEvent
  /-- The loop does its next step, or for lack of room begins to. -/
  | loop (step : LoopStep)
  /-- The loop has room. -/
  | resume
  /-- The loop finds `stop` set. -/
  | exit
  /-- The dispatcher sends a command to the session. -/
  | command (cmd : SessionCmd)
  /-- The main task takes the next command. -/
  | take
  | tick
  /-- The main task answers a ping. -/
  | pong
  /-- The main task finds that the peer has closed or rejected the session, or that a send has failed. -/
  | leave
  /-- The clipboard thread sends. -/
  | clip
  /-- The writer writes a message: the connection takes it. -/
  | write
  | writerDied
  deriving DecidableEq

namespace Failsafe

/-- The messages the main task sends for the commands in its queue, up to the one that ends its loop. -/
def pending (mirroring : Bool) : List SessionCmd → ℕ
  | [] => 0
  | .disconnect :: _ => 0
  | .startMirror :: queue => (if mirroring then 0 else 1) + pending true queue
  | .stopMirror :: queue => 1 + pending false queue
  | .confirm :: queue | .cancel :: queue | .setEdge _ :: queue | .snapHome :: queue => pending mirroring queue

/-- The main task waits for room in the line, or comes to wait if it is left with its queue. -/
def Jam (line : List OutTask) (mirroring : Bool) (queue : List SessionCmd) : Prop :=
  Waits OUTBOX (line ++ List.replicate (pending mirroring queue) .main) .main

instance (line : List OutTask) (mirroring : Bool) (queue : List SessionCmd) : Decidable (Jam line mirroring queue) :=
  inferInstanceAs (Decidable (Waits ..))

/-- The loop is spawned, with this in the channel and in the session's queue. -/
def start (h : HostInput) (line : List OutTask) (queue : List SessionCmd) : Failsafe where
  host := h
  polling := false
  exited := false
  held := none
  line := line
  writer := true
  queue := queue
  mirroring := false
  asked := false
  stop := false

/-- The line after `n` sends of the task; nobody waits for a writer that is gone. -/
def queued (t : Failsafe) (task : OutTask) (n : ℕ) : List OutTask :=
  if t.writer then t.line ++ List.replicate n task else []

/-- The main task is in its loop, and does not wait for room. -/
def mainFree (t : Failsafe) : Bool := !t.stop && !decide (Waits OUTBOX t.line .main)

/-- The main task leaves its loop, and with it the queue and the writer end. -/
def left (t : Failsafe) : Failsafe := { t with line := [], writer := false, queue := [], stop := true }

/-- The main task has taken the command from its queue. -/
def took (t : Failsafe) (cmd : SessionCmd) : Failsafe :=
  match cmd with
  | .disconnect => t.left
  | .snapHome => { t with asked := true }
  | .startMirror =>
    if t.mirroring then t
    else if !t.writer then t.left
    else { t with line := t.queued .main 1, mirroring := true }
  | .stopMirror => { t with line := t.queued .main 1, mirroring := false }
  | .confirm | .cancel | .setEdge _ => t

variable (x : Crates) (ar : Arith) (desktop : Rect)

def step (t : Failsafe) (event : FailsafeEvent) : Option Failsafe :=
  match event with
  | .loop s =>
    if t.exited || t.held.isSome || t.polling == s.isHead || (s.isHead && t.stop) || !s.sees t.asked then none
    else
      let h := loopStep x ar desktop t.host s
      let n := (t.host.since h).countP Deed.isCtrl
      let t := { t with asked := t.asked && !s.isHead }
      if t.writer ∧ 0 < n ∧ OUTBOX < t.line.length + n then
        some { t with held := some s, line := t.queued .input n }
      else some { t with host := h, polling := s.isHead, line := t.queued .input n }
  | .resume => match t.held with
    | some s =>
      if Waits OUTBOX t.line .input then none
      else some { t with host := loopStep x ar desktop t.host s, polling := s.isHead, held := none }
    | none => none
  | .exit =>
    if t.exited || t.held.isSome || t.polling || !t.stop then none
    else some { t with host := t.host.exit, exited := true }
  | .command cmd =>
    if t.stop then some t
    else if t.queue.length < Node.QUEUE then some { t with queue := t.queue ++ [cmd] } else none
  | .take => match t.queue with
    | [] => none
    | cmd :: queue => if !t.mainFree then none else some ({ t with queue := queue }.took cmd)
  | .tick =>
    if !t.mainFree then none
    else if !t.writer then some t.left else some { t with line := t.queued .main 1 }
  | .pong => if !t.mainFree then none else some { t with line := t.queued .main 1 }
  | .leave => if !t.mainFree then none else some t.left
  | .clip => if Waits OUTBOX t.line .clip then none else some { t with line := t.queued .clip 1 }
  | .write => if t.line = [] then none else some { t with line := t.line.tail }
  | .writerDied => some { t with line := [], writer := false }

/-- What the loop has done: up to the message it waits to send, if it waits. -/
def done (t : Failsafe) : List Deed :=
  match t.held with
  | none => []
  | some s => (t.host.since (loopStep x ar desktop t.host s)).takeWhile fun d => !d.isCtrl

/-- Local input is suppressed. -/
def suppressed (t : Failsafe) : Bool := t.host.suppressedBy (t.done x ar desktop)

/-- The loop is to bring control home, or to stop. -/
def requested (t : Failsafe) : Bool := t.stop || t.host.snapHome || t.asked

/-- What the loop does after a poll. -/
def next (t : Failsafe) (edge : ScreenEdge) : FailsafeEvent := if t.stop then .exit else .loop (.head edge t.asked)

/-- The loop does what is next, and if it is asked to bring control home this is the end of the suppression. -/
def HeadServes (t : Failsafe) : Prop :=
  ∀ edge, ∃ u, t.step x ar desktop (t.next edge) = some u ∧ (t.requested = true → u.suppressed x ar desktop = false)

/-- So it is after a poll, and requests are remembered, the chord among them. -/
def PollServes (t : Failsafe) : Prop :=
  ∀ captured edgeNow, ∃ u, t.step x ar desktop (.loop (.poll captured edgeNow)) = some u ∧
    (u.suppressed x ar desktop = true → u.HeadServes x ar desktop ∧
      ((t.requested || t.host.chordIn (.poll captured edgeNow)) = true → u.requested = true))

/-- The session does this by itself: the UI has asked for control, and there is no other input. -/
def Own : FailsafeEvent → Prop
  | .loop (.poll captured _) => captured = none
  | .loop (.head ..) | .exit | .take => True
  | .command cmd => cmd = .snapHome
  | _ => False

/-- A request of the UI reaches the loop through the main task, and control is home. -/
def UiServed (t : Failsafe) : Prop :=
  ∃ es u, (∀ e ∈ es, Own e) ∧ .command .snapHome ∈ es ∧ run (step x ar desktop) t es = some u ∧ u.queue = [] ∧
    u.suppressed x ar desktop = false

/-- If local input is suppressed, the loop does not wait for the writer, and a request to snap home is served by the
session's own next steps. -/
def Safe (t : Failsafe) : Prop :=
  t.suppressed x ar desktop = true →
    t.held = none ∧ (if t.polling then t.PollServes x ar desktop else t.HeadServes x ar desktop) ∧
      t.UiServed x ar desktop

/-- The channel to a living writer lacks the room: for a crossing, or, at a crossing or with local input suppressed,
for what the main task sends and has to send for its queue. -/
def Overfills (t : Failsafe) : FailsafeEvent → Prop
  | .loop s => t.host.crosses ar desktop s = true ∧ t.writer = true ∧
      (OUTBOX ≤ t.line.length ∨ Jam (t.line ++ [.input]) t.mirroring t.queue)
  | .tick | .pong => t.suppressed x ar desktop = true ∧ t.writer = true ∧ Jam (t.line ++ [.main]) t.mirroring t.queue
  | .clip => t.suppressed x ar desktop = true ∧ t.writer = true ∧ Jam (t.line ++ [.clip]) t.mirroring t.queue
  | .command cmd => t.suppressed x ar desktop = true ∧ t.writer = true ∧ Jam t.line t.mirroring (t.queue ++ [cmd])
  | _ => False

instance (t : Failsafe) (e : FailsafeEvent) : Decidable (Overfills x ar desktop t e) := by
  cases e <;> unfold Overfills <;> infer_instance

end Failsafe

/-! ### One step of the loop -/

namespace HostInput

variable {x : Crates} {ar : Arith} {desktop : Rect} {h h' : HostInput} {ds : List Deed}

theorem since_eq (hdeeds : h'.deeds = h.deeds ++ ds) : h.since h' = ds := by
  rw [since, hdeeds, List.drop_left]

theorem isCtrl_of_sent {evs : List InputEvent} (hsent : x.SentBy evs ds) : ∀ d ∈ ds, d.isCtrl = false := by
  intro d hd
  obtain ⟨ev, -, rfl⟩ := hsent.mem hd
  rfl

theorem countP_sent {evs : List InputEvent} (hsent : x.SentBy evs ds) : ds.countP Deed.isCtrl = 0 := by
  rw [List.countP_eq_zero]
  intro d hd
  rw [isCtrl_of_sent hsent d hd]
  exact Bool.false_ne_true

theorem takeWhile_sent {evs : List InputEvent} (hsent : x.SentBy evs ds) (es : List Deed) :
    (ds ++ es).takeWhile (fun d => !d.isCtrl) = ds ++ es.takeWhile fun d => !d.isCtrl :=
  List.takeWhile_append_of_pos fun d hd => by rw [isCtrl_of_sent hsent d hd]; rfl

/-- A step of the loop turns suppression on and then sends a control message, or turns it off before it sends one, or
sends none and leaves it. -/
inductive Sends (x : Crates) (ar : Arith) (desktop : Rect) (h : HostInput) (s : LoopStep) (h' : HostInput) : Prop
  | enters (hcross : h.crosses ar desktop s = true) (hone : (h.since h').countP Deed.isCtrl = 1)
    (hbefore : h.suppressedBy ((h.since h').takeWhile fun d => !d.isCtrl) = true) (hafter : h'.told.suppress = true)
    (hsite : h'.det.site = .remote)
  | leaves (hcross : h.crosses ar desktop s = false) (hone : (h.since h').countP Deed.isCtrl = 1)
    (hbefore : h.suppressedBy ((h.since h').takeWhile fun d => !d.isCtrl) = false) (hafter : h'.told.suppress = false)
    (hsite : h'.det.site = .local)
  | keeps (hcross : h.crosses ar desktop s = false) (hnone : (h.since h').countP Deed.isCtrl = 0)
    (htold : h'.told.suppress = h.told.suppress) (hsite : h'.det.site = h.det.site)

theorem Sends.of_sent {s : LoopStep} {evs : List InputEvent} (hdeeds : h'.deeds = h.deeds ++ ds) (hsent : x.SentBy evs ds)
    (hsite : h'.det.site = h.det.site) (hcross : h.crosses ar desktop s = false) : Sends x ar desktop h s h' := by
  refine .keeps hcross ?_ ?_ hsite
  · rw [since_eq hdeeds]
    exact countP_sent hsent
  · rw [told, hdeeds, List.foldl_append, Told.hear_sent hsent, ← told]

theorem sends_of_head (h : HostInput) (edge : ScreenEdge) (snapUi : Bool) :
    Sends x ar desktop h (.head edge snapUi) (hostHead x h edge snapUi) := by
  have hturn := hostHead_turn x h edge snapUi
  generalize hostHead x h edge snapUi = h' at hturn
  rcases hturn with hkeep | @⟨ds, _, hsite, hasked, hsent, hdoes⟩
  · exact .of_sent (by simp [deeds]) .nil rfl rfl
  · have hdeeds : h'.deeds = h.deeds ++ _ := hdoes.deeds
    have hremote : (h.det.setEdge edge).site = .remote := hsite
    refine .leaves rfl ?_ ?_ ?_ ?_
    · rw [since_eq hdeeds, List.countP_append, List.countP_append, countP_sent hsent]
      rfl
    · rw [since_eq hdeeds, List.append_assoc, List.singleton_append, List.takeWhile_cons_of_pos rfl,
        takeWhile_sent hsent, suppressedBy, List.foldl_cons, List.foldl_append, Told.hear_sent hsent]
      rfl
    · rw [told, hdeeds, List.foldl_append, List.foldl_append, List.foldl_append, Told.hear_sent hsent]
      rfl
    · rw [hdoes.det]
      show (h.det.setEdge edge).forceHome.1.site = .local
      rw [EdgeDetector.forceHome, if_pos hremote]

theorem sends_of_poll (h : HostInput) (captured : Option CapturedEvent) (edgeNow : ScreenEdge) :
    Sends x ar desktop h (.poll captured edgeNow) (hostPoll x ar desktop h captured edgeNow) := by
  have hturn := hostPoll_turn x ar desktop h captured edgeNow
  generalize hostPoll x ar desktop h captured edgeNow = h' at hturn
  have hremote : h.det.site = .remote → h.crosses ar desktop (.poll captured edgeNow) = false := by
    intro hsite
    rw [crosses, hsite]
    rfl
  rcases hturn with _ | ⟨hsite, hupdate⟩ | @⟨_, _, _, _, _, _, _, ds, _, hsite, hupdate, hremote', hsent, hdoes⟩ |
    @⟨_, _, _, _, _, _, ds, _, hsite, hremote', hsent, hdoes⟩ |
    @⟨_, _, _, _, _, _, ds, es, _, hsite, hlocal, hsent, hreleased, hdoes⟩ | hchord | ⟨hchord, hsite⟩ |
    ⟨hchord, hsite, hsent, hdoes⟩ | ⟨hev, hsite⟩ | ⟨hev, hsite, hsent, hdoes⟩
  · refine .of_sent (by simp) .nil rfl ?_
    simp [crosses, EdgeDetector.crosses]
  · refine .of_sent (by simp) .nil rfl ?_
    simp [crosses, EdgeDetector.crosses, hupdate]
  · have hdeeds : h'.deeds = h.deeds ++ _ := hdoes.deeds
    refine .enters ?_ ?_ ?_ ?_ ?_
    · simp [crosses, EdgeDetector.crosses, hsite, hupdate]
    · rw [since_eq hdeeds, List.countP_append, List.countP_append, countP_sent hsent]
      rfl
    · rw [since_eq hdeeds]
      rfl
    · rw [told, hdeeds, List.foldl_append, List.foldl_append, List.foldl_append, Told.hear_sent hsent]
      rfl
    · rw [hdoes.det]
      exact hremote'
  · have hdeeds : h'.deeds = h.deeds ++ ds := hdoes.deeds
    refine .of_sent hdeeds hsent ?_ (hremote hsite)
    rw [hdoes.det, hsite]
    exact hremote'
  · have hdeeds : h'.deeds = h.deeds ++ _ := hdoes.deeds
    refine .leaves (hremote hsite) ?_ ?_ ?_ ?_
    · rw [since_eq hdeeds, List.countP_append, List.countP_append, List.countP_append, countP_sent hsent,
        countP_sent hreleased]
      rfl
    · rw [since_eq hdeeds, List.append_assoc, List.append_assoc, takeWhile_sent hsent, List.singleton_append,
        List.takeWhile_cons_of_pos rfl, takeWhile_sent hreleased, suppressedBy, List.foldl_append,
        Told.hear_sent hsent, List.foldl_cons, List.foldl_append, Told.hear_sent hreleased]
      rfl
    · rw [told, hdeeds, List.foldl_append, List.foldl_append, List.foldl_append, List.foldl_append,
        Told.hear_sent hreleased]
      rfl
    · rw [hdoes.det]
      exact hlocal
  · exact .of_sent (by simp [deeds]) .nil rfl (by simp [crosses, EdgeDetector.crosses])
  · refine .of_sent ?_ .nil (by simp) (by simp [crosses, EdgeDetector.crosses])
    simp [deeds]
  · refine .of_sent (hdoes.deeds.trans ?_) hsent ?_ (hremote hsite)
    · simp [deeds]
    · rw [hdoes.det]
      simp
  · exact .of_sent (by simp) .nil rfl (by simp [crosses, EdgeDetector.crosses])
  · exact .of_sent hdoes.deeds hsent (by rw [hdoes.det]) (hremote hsite)

variable (x ar desktop) in
theorem sends (h : HostInput) (s : LoopStep) : Sends x ar desktop h s (loopStep x ar desktop h s) := by
  cases s with
  | head edge snapUi => exact sends_of_head h edge snapUi
  | poll captured edgeNow => exact sends_of_poll h captured edgeNow

end HostInput

/-! ### What the main task sends -/

namespace Failsafe

theorem pending_snapHome (mirroring : Bool) (queue : List SessionCmd) :
    pending mirroring (queue ++ [.snapHome]) = pending mirroring queue := by
  induction queue generalizing mirroring with
  | nil => rfl
  | cons cmd queue ih => cases cmd <;> simp [pending, ih]

theorem Jam.append {line : List OutTask} {mirroring : Bool} {queue : List SessionCmd} (h : Jam line mirroring queue)
    (more : List OutTask) : Jam (line ++ more) mirroring queue := by
  unfold Jam at h ⊢
  rcases Nat.eq_zero_or_pos (pending mirroring queue) with hzero | hpos
  · rw [hzero, List.replicate_zero, List.append_nil] at h ⊢
    exact h.append more
  · rw [waits_iff, upTo_append_replicate hpos] at h ⊢
    rw [List.length_append]
    omega

theorem jam_of_waits {line : List OutTask} (h : Waits OUTBOX line .main) (mirroring : Bool) (queue : List SessionCmd) :
    Jam line mirroring queue := h.append _

theorem Jam.pending_pos {line : List OutTask} {mirroring : Bool} {queue : List SessionCmd}
    (h : Jam line mirroring queue) (hfree : ¬ Waits OUTBOX line .main) : 0 < pending mirroring queue := by
  by_contra hzero
  refine hfree ?_
  rwa [Jam, Nat.eq_zero_of_not_pos hzero, List.replicate_zero, List.append_nil] at h

variable {x : Crates} {ar : Arith} {desktop : Rect} {t u : Failsafe} {e : FailsafeEvent}

/-- The main task waits for room, or comes to wait if it is left with its queue. -/
def Jammed (t : Failsafe) : Prop := t.writer = true ∧ Jam t.line t.mirroring t.queue

/-- What the main task does leaves the loop as it is. -/
structure Same (t u : Failsafe) : Prop where
  host : u.host = t.host
  held : u.held = t.held
  polling : u.polling = t.polling
  exited : u.exited = t.exited

theorem took_same (t : Failsafe) (cmd : SessionCmd) : Same t (t.took cmd) := by
  cases cmd with
  | startMirror =>
    unfold took
    dsimp only
    split_ifs <;> exact ⟨rfl, rfl, rfl, rfl⟩
  | _ => exact ⟨rfl, rfl, rfl, rfl⟩

/-- A command does to the session what `runningCmd` does: whether it leaves its main loop, whether it shares its screen,
and what it sends. -/
theorem took_runningCmd {core : AppCore x} {s : Session} {info : DeviceInfo} (hs : s.phase = .running info)
    (hslot : s.slot.isSome = true) (hwriter : s.writer = t.writer) (hmirror : s.mirrorTx.isSome = t.mirroring)
    (hstop : t.stop = false) (cmd : SessionCmd) (epoch : BitVec 64) :
    ((t.took cmd).stop = true ↔ (s.runningCmd core info cmd epoch).2.phase = .closing info none) ∧
      (s.runningCmd core info cmd epoch).2.mirrorTx.isSome = (t.took cmd).mirroring ∧
      ((t.took cmd).writer = true →
        (t.took cmd).line = t.line ++ List.replicate (s.sent (s.runningCmd core info cmd epoch)) .main) := by
  unfold Session.sent
  rw [if_pos hslot]
  cases cmd with
  | startMirror =>
    cases hmirrorTx : s.mirrorTx <;> cases hdead : t.writer <;> rw [hmirrorTx] at hmirror <;>
      simp_all [Session.runningCmd, took, left, Session.send, AppCore.emit, queued, ← hmirror]
  | stopMirror =>
    cases hmirrorTx : s.mirrorTx <;> cases hdead : t.writer <;>
      simp_all [Session.runningCmd, took, Session.send, Session.stopSender, queued]
  | _ => simp_all [Session.runningCmd, took, left]

theorem took_line (hwriter : t.writer = true) {cmd : SessionCmd} (hcmd : cmd ≠ .disconnect) (queue : List SessionCmd) :
    (t.took cmd).writer = true ∧ (t.took cmd).queue = t.queue ∧
      (t.took cmd).line ++ List.replicate (pending (t.took cmd).mirroring queue) .main =
        t.line ++ List.replicate (pending t.mirroring (cmd :: queue)) .main := by
  cases cmd with
  | disconnect => exact absurd rfl hcmd
  | startMirror =>
    cases hmirror : t.mirroring with
    | true => simp [took, pending, hmirror, hwriter]
    | false => simp [took, pending, hmirror, hwriter, queued, List.replicate_add]
  | stopMirror => simp [took, pending, hwriter, queued, List.replicate_add]
  | _ => simp [took, pending, hwriter]

/-- The control messages of a step. -/
def sent (x : Crates) (ar : Arith) (desktop : Rect) (t : Failsafe) (s : LoopStep) : ℕ :=
  (t.host.since (loopStep x ar desktop t.host s)).countP Deed.isCtrl

/-- The branches of `step`. -/
inductive Steps (x : Crates) (ar : Arith) (desktop : Rect) (t : Failsafe) : FailsafeEvent → Failsafe → Prop
  | waits (s : LoopStep) (hrunning : t.exited = false) (hheld : t.held = none) (hwriter : t.writer = true)
    (hsent : 0 < t.sent x ar desktop s) (hfull : OUTBOX < t.line.length + t.sent x ar desktop s) :
    Steps x ar desktop t (.loop s) { t with
      asked := t.asked && !s.isHead
      held := some s
      line := t.queued .input (t.sent x ar desktop s) }
  | goes (s : LoopStep) (hrunning : t.exited = false) (hheld : t.held = none)
    (hroom : t.writer = true → 0 < t.sent x ar desktop s → t.line.length + t.sent x ar desktop s ≤ OUTBOX) :
    Steps x ar desktop t (.loop s) { t with
      asked := t.asked && !s.isHead
      host := loopStep x ar desktop t.host s
      polling := s.isHead
      line := t.queued .input (t.sent x ar desktop s) }
  | resume (s : LoopStep) (hheld : t.held = some s) : Steps x ar desktop t .resume { t with
      host := loopStep x ar desktop t.host s
      polling := s.isHead
      held := none }
  | exit (hrunning : t.exited = false) (hheld : t.held = none) (hstop : t.stop = true) :
    Steps x ar desktop t .exit { t with host := t.host.exit, exited := true }
  | closed (cmd : SessionCmd) (hstop : t.stop = true) : Steps x ar desktop t (.command cmd) t
  | command (cmd : SessionCmd) (hstop : t.stop = false) :
    Steps x ar desktop t (.command cmd) { t with queue := t.queue ++ [cmd] }
  | take (cmd : SessionCmd) (queue : List SessionCmd) (hqueue : t.queue = cmd :: queue) (hfree : t.mainFree = true) :
    Steps x ar desktop t .take ({ t with queue := queue }.took cmd)
  | tickFails (hwriter : t.writer = false) : Steps x ar desktop t .tick t.left
  | tick (hfree : t.mainFree = true) (hwriter : t.writer = true) :
    Steps x ar desktop t .tick { t with line := t.queued .main 1 }
  | pong (hfree : t.mainFree = true) : Steps x ar desktop t .pong { t with line := t.queued .main 1 }
  | leave : Steps x ar desktop t .leave t.left
  | clip : Steps x ar desktop t .clip { t with line := t.queued .clip 1 }
  | write (hline : t.line ≠ []) : Steps x ar desktop t .write { t with line := t.line.tail }
  | writerDied : Steps x ar desktop t .writerDied { t with line := [], writer := false }

theorem loop_steps {s : LoopStep} (hrunning : t.exited = false) (hheld : t.held = none) (hturn : t.polling = !s.isHead)
    (hstop : s.isHead = true → t.stop = false) (hsees : s.sees t.asked = true) :
    ∃ u, t.step x ar desktop (.loop s) = some u ∧ Steps x ar desktop t (.loop s) u := by
  have hguard : (t.exited || t.held.isSome || t.polling == s.isHead || (s.isHead && t.stop) || !s.sees t.asked) =
      false := by
    rw [hrunning, hheld, hturn, hsees]
    cases hhead : s.isHead with
    | true => simp [hstop hhead]
    | false => rfl
  simp only [step, hguard, Bool.false_eq_true, if_false]
  split_ifs with hfull
  · exact ⟨_, rfl, .waits s hrunning hheld hfull.1 hfull.2.1 hfull.2.2⟩
  · refine ⟨_, rfl, .goes s hrunning hheld fun hwriter hsent => ?_⟩
    by_contra hlt
    exact hfull ⟨hwriter, hsent, Nat.not_le.mp hlt⟩

theorem steps_of_step (hstep : t.step x ar desktop e = some u) : Steps x ar desktop t e u := by
  cases e with
  | loop s =>
    have hstep' := hstep
    simp only [step] at hstep'
    split_ifs at hstep' with hbad
    all_goals
      simp only [Bool.or_eq_true, not_or, Bool.not_eq_true, Option.isSome_eq_false_iff, Option.isNone_iff_eq_none,
        beq_eq_false_iff_ne, ne_eq, Bool.and_eq_true, not_and, Bool.not_eq_false, Bool.not_eq_eq_eq_not,
        Bool.not_true] at hbad
      obtain ⟨⟨⟨⟨hrunning, hheld⟩, hturn⟩, hstop⟩, hsees⟩ := hbad
      obtain ⟨v, hv, hsteps⟩ := loop_steps (x := x) (s := s) hrunning hheld (Bool.eq_not_iff.mpr hturn) hstop hsees
      cases hstep.symm.trans hv
      exact hsteps
  | resume =>
    simp only [step] at hstep
    split at hstep
    · rename_i s hheld
      split_ifs at hstep
      cases hstep
      exact .resume s hheld
    · cases hstep
  | exit =>
    simp only [step] at hstep
    split_ifs at hstep with hbad
    simp only [Bool.or_eq_true, not_or, Bool.not_eq_true, Option.isSome_eq_false_iff, Option.isNone_iff_eq_none,
      Bool.not_eq_eq_eq_not, Bool.not_true, Bool.not_eq_false] at hbad
    cases hstep
    exact .exit hbad.1.1.1 hbad.1.1.2 hbad.2
  | command cmd =>
    simp only [step] at hstep
    split_ifs at hstep with hstop hroom
    · cases hstep
      exact .closed cmd hstop
    · cases hstep
      exact .command cmd (Bool.not_eq_true _ ▸ hstop)
  | take =>
    simp only [step] at hstep
    split at hstep
    · cases hstep
    · rename_i cmd queue hqueue
      split_ifs at hstep with hfree
      cases hstep
      exact .take cmd queue hqueue (by simpa using hfree)
  | tick =>
    simp only [step] at hstep
    split_ifs at hstep with hfree hwriter
    · cases hstep
      exact .tickFails (by simpa using hwriter)
    · cases hstep
      exact .tick (by simpa using hfree) (by simpa using hwriter)
  | pong =>
    simp only [step] at hstep
    split_ifs at hstep with hfree
    cases hstep
    exact .pong (by simpa using hfree)
  | leave =>
    simp only [step] at hstep
    split_ifs at hstep
    cases hstep
    exact .leave
  | clip =>
    simp only [step] at hstep
    split_ifs at hstep
    cases hstep
    exact .clip
  | write =>
    simp only [step] at hstep
    split_ifs at hstep with hline
    cases hstep
    exact .write hline
  | writerDied =>
    cases hstep
    exact .writerDied

/-- The flag is on iff the loop runs with control on the remote, only a loop that runs waits, for a message it sends,
and a writer that is gone leaves nothing to wait for. -/
structure Inv (x : Crates) (ar : Arith) (desktop : Rect) (t : Failsafe) : Prop where
  flag : t.host.told.suppress = (!t.exited && decide (t.host.det.site = .remote))
  running : t.exited = true → t.held = none
  sends : ∀ s, t.held = some s → 0 < t.sent x ar desktop s
  dead : t.writer = false → t.line = []
  stopped : t.stop = true → t.writer = false ∧ t.queue = []

theorem flag_loop (h : HostInput) (s : LoopStep) (hflag : h.told.suppress = decide (h.det.site = .remote)) :
    (loopStep x ar desktop h s).told.suppress = decide ((loopStep x ar desktop h s).det.site = .remote) := by
  have hsends := sends x ar desktop h s
  generalize loopStep x ar desktop h s = h' at hsends
  cases hsends with
  | enters hcross hone hbefore hafter hsite => simp [hafter, hsite]
  | leaves hcross hone hbefore hafter hsite => simp [hafter, hsite]
  | keeps hcross hnone htold hsite => rw [htold, hsite, hflag]

theorem queued_dead (t : Failsafe) (task : OutTask) (n : ℕ) (hwriter : t.writer = false) : t.queued task n = [] := by
  rw [queued, hwriter]
  rfl

theorem Inv.of_same (hinv : Inv x ar desktop t) (hsame : Same t u) (hdead : u.writer = false → u.line = [])
    (hstopped : u.stop = true → u.writer = false ∧ u.queue = []) : Inv x ar desktop u where
  flag := by
    rw [hsame.host, hsame.exited]
    exact hinv.flag
  running := by
    rw [hsame.held, hsame.exited]
    exact hinv.running
  sends s hheld := by
    rw [hsame.held] at hheld
    rw [sent, hsame.host]
    exact hinv.sends s hheld
  dead := hdead
  stopped := hstopped

theorem took_ok (hinv : Inv x ar desktop t) (hrunning : t.stop = false) (cmd : SessionCmd) (queue : List SessionCmd) :
    Inv x ar desktop ({ t with queue := queue }.took cmd) := by
  have hstopped : t.stop = true → t.writer = false ∧ queue = [] := by
    intro hstop
    cases hrunning.symm.trans hstop
  have hinv' : Inv x ar desktop { t with queue := queue } := hinv.of_same ⟨rfl, rfl, rfl, rfl⟩ hinv.dead hstopped
  refine hinv'.of_same (took_same _ cmd) ?_ ?_
  · cases cmd with
    | disconnect => exact fun _ => rfl
    | startMirror =>
      unfold took
      dsimp only
      split_ifs with hmirror hwriter
      · exact hinv.dead
      · exact fun _ => rfl
      · exact queued_dead { t with queue := queue } .main 1
    | stopMirror => exact queued_dead { t with queue := queue } .main 1
    | _ => exact hinv.dead
  · cases cmd with
    | disconnect => exact fun _ => ⟨rfl, rfl⟩
    | startMirror =>
      unfold took
      dsimp only
      split_ifs with hmirror hwriter
      · exact hstopped
      · exact fun _ => ⟨rfl, rfl⟩
      · exact hstopped
    | _ => exact hstopped

theorem stop_of_mainFree (hfree : t.mainFree = true) : t.stop = false := by
  simp only [mainFree, Bool.and_eq_true, Bool.not_eq_true'] at hfree
  exact hfree.1

theorem not_waits_of_mainFree (hfree : t.mainFree = true) : ¬ Waits OUTBOX t.line .main := by
  simp only [mainFree, Bool.and_eq_true, Bool.not_eq_true', decide_eq_false_iff_not] at hfree
  exact hfree.2

theorem step_inv (hinv : Inv x ar desktop t) (hstep : t.step x ar desktop e = some u) : Inv x ar desktop u := by
  have hloop : ∀ s, t.exited = false → (loopStep x ar desktop t.host s).told.suppress =
      (!t.exited && decide ((loopStep x ar desktop t.host s).det.site = .remote)) := by
    intro s hrunning
    have hflag := hinv.flag
    rw [hrunning] at hflag ⊢
    rw [Bool.not_false, Bool.true_and] at hflag ⊢
    exact flag_loop t.host s hflag
  cases steps_of_step hstep with
  | waits s hrunning hheld hwriter hsent hfull =>
    refine ⟨hinv.flag, fun hexited => ?_, fun s' hs' => ?_, queued_dead t _ _, hinv.stopped⟩
    · cases hrunning.symm.trans hexited
    · cases hs'
      exact hsent
  | goes s hrunning hheld hroom =>
    refine ⟨hloop s hrunning, fun _ => hheld, fun s' hs' => ?_, queued_dead t _ _, hinv.stopped⟩
    cases hheld.symm.trans hs'
  | resume s hheld =>
    have hrunning : t.exited = false := by
      by_contra hexited
      cases hheld.symm.trans (hinv.running (Bool.not_eq_false _ ▸ hexited))
    refine ⟨hloop s hrunning, fun _ => rfl, fun s' hs' => ?_, hinv.dead, hinv.stopped⟩
    cases hs'
  | exit hrunning hheld hstop =>
    refine ⟨?_, fun _ => hheld, fun s' hs' => ?_, hinv.dead, hinv.stopped⟩
    · simp [HostInput.told, HostInput.exit, HostInput.emit, HostInput.deeds, HostOut.deed, Told.hear]
    · cases hheld.symm.trans hs'
  | closed cmd hstop => exact hinv
  | command cmd hstop =>
    refine hinv.of_same ⟨rfl, rfl, rfl, rfl⟩ hinv.dead fun hstop' => ?_
    cases hstop.symm.trans hstop'
  | take cmd queue hqueue hfree => exact took_ok hinv (stop_of_mainFree hfree) cmd queue
  | tickFails | leave => exact hinv.of_same ⟨rfl, rfl, rfl, rfl⟩ (fun _ => rfl) fun _ => ⟨rfl, rfl⟩
  | tick | pong | clip =>
    exact hinv.of_same ⟨rfl, rfl, rfl, rfl⟩ (queued_dead t _ _) hinv.stopped
  | write hline =>
    refine hinv.of_same ⟨rfl, rfl, rfl, rfl⟩ (fun hdead => ?_) hinv.stopped
    exact absurd (hinv.dead hdead) hline
  | writerDied =>
    exact hinv.of_same ⟨rfl, rfl, rfl, rfl⟩ (fun _ => rfl) fun hstop => ⟨rfl, (hinv.stopped hstop).2⟩

/-! ### The way home -/

theorem suppressed_of_free (hheld : t.held = none) : t.suppressed x ar desktop = t.host.told.suppress := by
  rw [suppressed, done, hheld]
  rfl

theorem suppressed_of_same (hsame : Same t u) : u.suppressed x ar desktop = t.suppressed x ar desktop := by
  simp only [suppressed, done, hsame.host, hsame.held]

theorem remote_of_suppressed (hinv : Inv x ar desktop t) (hheld : t.held = none)
    (hsuppressed : t.suppressed x ar desktop = true) : t.exited = false ∧ t.host.det.site = .remote := by
  rwa [suppressed_of_free hheld, hinv.flag, Bool.and_eq_true, Bool.not_eq_true', decide_eq_true_eq] at hsuppressed

theorem headServes (hinv : Inv x ar desktop t) (hheld : t.held = none) (hrunning : t.exited = false)
    (hturn : t.polling = false) : t.HeadServes x ar desktop := by
  intro edge
  cases hstop : t.stop with
  | true =>
    refine ⟨{ t with host := t.host.exit, exited := true }, ?_, fun _ => ?_⟩
    · simp [next, step, hstop, hrunning, hheld, hturn]
    · rw [suppressed_of_free (by exact hheld)]
      simp [HostInput.told, HostInput.exit, HostInput.emit, HostInput.deeds, HostOut.deed, Told.hear]
  | false =>
    obtain ⟨u, hu, hsteps⟩ := loop_steps (x := x) (s := .head edge t.asked) hrunning hheld hturn (fun _ => hstop)
      (beq_self_eq_true t.asked)
    refine ⟨u, by rwa [next, hstop], fun hrequested => ?_⟩
    have hasked : (t.host.snapHome || t.asked) = true := by
      rwa [requested, hstop, Bool.false_or] at hrequested
    have hafter : (hostHead x t.host edge t.asked).told.suppress = false := by
      rcases told_head x t.host edge t.asked with ⟨-, -, htold, -⟩ | ⟨hnot, htold, -⟩
      · rw [htold]
      · rw [htold, hinv.flag, hrunning]
        simpa using fun hsite => hnot ⟨hsite, hasked⟩
    cases hsteps with
    | waits s hrunning' hheld' hwriter hsent hfull =>
      cases sends x ar desktop t.host (.head edge t.asked) with
      | enters hcross hone hbefore => cases hcross
      | leaves hcross hone hbefore => exact hbefore
      | keeps hcross hnone => exact absurd hnone hsent.ne'
    | goes s hrunning' hheld' hroom =>
      rw [suppressed_of_free (by exact hheld)]
      exact hafter

theorem snapHome_of_chord {h : HostInput} {captured : Option CapturedEvent} {edgeNow : ScreenEdge}
    (hchord : h.chordIn (.poll captured edgeNow) = true) :
    (hostPoll x ar desktop h captured edgeNow).snapHome = true := by
  cases captured with
  | none => cases hchord
  | some event =>
    cases event with
    | move dx dy absX absY => cases hchord
    | input ev =>
      cases ev with
      | key key pressed =>
        have hkey : (h.hotkey.onKey key pressed).2 = true := hchord
        rw [hostPoll_chord x ar desktop hkey]
      | _ => cases hchord

theorem snapHome_of_poll {h : HostInput} (hasked : h.snapHome = true) (captured : Option CapturedEvent)
    (edgeNow : ScreenEdge) : (hostPoll x ar desktop h captured edgeNow).snapHome = true := by
  have htrack : ∀ key pressed, (h.trackLocal key pressed).snapHome = true := by
    intro key pressed
    obtain ⟨mods, heq⟩ := h.exists_trackLocal key pressed
    rw [heq]
    exact hasked
  have hturn := hostPoll_turn x ar desktop h captured edgeNow
  generalize hostPoll x ar desktop h captured edgeNow = h' at hturn
  cases hturn with
  | idle | stays | otherLocal => exact hasked
  | crosses hsite hupdate hremote hsent hdoes | moves hsite hremote hsent hdoes
  | returns hsite hlocal hsent hreleased hdoes | otherRemote hev hsite hsent hdoes =>
    rw [hdoes.snapHome]
    exact hasked
  | chord hchord => rfl
  | keyLocal hchord hsite => exact htrack _ _
  | keyRemote hchord hsite hsent hdoes =>
    rw [hdoes.snapHome]
    exact htrack _ _

theorem pollServes (hinv : Inv x ar desktop t) (hheld : t.held = none) (hrunning : t.exited = false)
    (hturn : t.polling = true) (hremote : t.host.det.site = .remote) : t.PollServes x ar desktop := by
  intro captured edgeNow
  obtain ⟨u, hu, hsteps⟩ := loop_steps (x := x) (s := .poll captured edgeNow) hrunning hheld hturn
    (fun hhead => by cases hhead) rfl
  refine ⟨u, hu, fun hon => ?_⟩
  have hinv' := step_inv hinv hu
  have hcross : t.host.crosses ar desktop (.poll captured edgeNow) = false := by
    rw [HostInput.crosses, hremote]
    rfl
  have hsends := sends x ar desktop t.host (.poll captured edgeNow)
  cases hsteps with
  | waits s hrunning' hheld' hwriter hsent hfull =>
    cases hsends with
    | enters hcross' => cases hcross.symm.trans hcross'
    | leaves hcross' hone hbefore => cases hbefore.symm.trans hon
    | keeps hcross' hnone => exact absurd hnone hsent.ne'
  | goes s hrunning' hheld' hroom =>
    refine ⟨headServes hinv' hheld hrunning rfl, fun hasked => ?_⟩
    simp only [requested, Bool.or_eq_true] at hasked ⊢
    rcases hasked with ((hstop | hsnap) | hui) | hchord
    · exact Or.inl (Or.inl hstop)
    · exact Or.inl (Or.inr (snapHome_of_poll hsnap captured edgeNow))
    · exact Or.inr (by rw [hui]; rfl)
    · exact Or.inl (Or.inr (snapHome_of_chord hchord))

/-! ### A request of the UI -/

theorem queue_of_next {edge : ScreenEdge} (hstep : t.step x ar desktop (t.next edge) = some u) :
    Own (t.next edge) ∧ u.queue = t.queue := by
  unfold next at hstep ⊢
  split_ifs at hstep ⊢ <;> refine ⟨trivial, ?_⟩ <;> cases steps_of_step hstep <;> rfl

theorem exists_home (hinv : Inv x ar desktop t) (hheld : t.held = none) (hrunning : t.exited = false)
    (hremote : t.host.det.site = .remote) (hrequested : t.requested = true) :
    ∃ es u, (∀ e ∈ es, Own e) ∧ run (step x ar desktop) t es = some u ∧ u.queue = t.queue ∧
      u.suppressed x ar desktop = false := by
  cases hturn : t.polling with
  | false =>
    obtain ⟨u, hu, hhome⟩ := headServes hinv hheld hrunning hturn .right
    obtain ⟨hown, hqueue⟩ := queue_of_next hu
    exact ⟨[t.next .right], u, by simpa using hown, by simp [run, hu], hqueue, hhome hrequested⟩
  | true =>
    obtain ⟨u, hu, hserves⟩ := pollServes hinv hheld hrunning hturn hremote none .right
    have hqueue : u.queue = t.queue := by cases steps_of_step hu <;> rfl
    cases hsuppressed : u.suppressed x ar desktop with
    | false => exact ⟨[.loop (.poll none .right)], u, by simp [Own], by simp [run, hu], hqueue, hsuppressed⟩
    | true =>
      obtain ⟨hhead, hkeep⟩ := hserves hsuppressed
      obtain ⟨v, hv, hhome⟩ := hhead .right
      obtain ⟨hown, hqueue'⟩ := queue_of_next hv
      refine ⟨[.loop (.poll none .right), u.next .right], v, ?_, by simp [run, hu, hv], hqueue'.trans hqueue, ?_⟩
      · simpa [Own] using hown
      · exact hhome (hkeep (by rw [hrequested]; rfl))

theorem not_waits_of_not_jammed (hinv : Inv x ar desktop t) (hnot : ¬ t.Jammed) : ¬ Waits OUTBOX t.line .main := by
  intro hwaits
  cases hwriter : t.writer with
  | true => exact hnot ⟨hwriter, jam_of_waits hwaits _ _⟩
  | false =>
    rw [hinv.dead hwriter] at hwaits
    cases hwaits

theorem mainFree_of_not_jammed (hinv : Inv x ar desktop t) (hnot : ¬ t.Jammed) (hstop : t.stop = false) :
    t.mainFree = true := by
  simp [mainFree, hstop, not_waits_of_not_jammed hinv hnot]

theorem took_queue (t : Failsafe) (cmd : SessionCmd) : (t.took cmd).queue.length ≤ t.queue.length ∧
    ((t.took cmd).writer = true → t.writer = true ∧ cmd ≠ .disconnect ∧ (t.took cmd).queue = t.queue) := by
  cases cmd with
  | disconnect => simp [took, left]
  | startMirror =>
    unfold took
    dsimp only
    split_ifs <;> simp_all [left]
  | _ => simp [took]

theorem jammed_of_took {cmd : SessionCmd} {queue : List SessionCmd} (hqueue : t.queue = cmd :: queue)
    (hjam : ({ t with queue := queue }.took cmd).Jammed) : t.Jammed := by
  obtain ⟨hwriter, hcmd, hkept⟩ := (took_queue { t with queue := queue } cmd).2 hjam.1
  have hline := (took_line (t := { t with queue := queue }) hwriter hcmd queue).2.2
  have hwaits := hjam.2
  rw [hkept, Jam, hline] at hwaits
  refine ⟨hwriter, ?_⟩
  rw [hqueue]
  exact hwaits

theorem exists_taken (hinv : Inv x ar desktop t) (hnot : ¬ t.Jammed) : ∃ es u, (∀ e ∈ es, Own e) ∧
    run (step x ar desktop) t es = some u ∧ Inv x ar desktop u ∧ ¬ u.Jammed ∧ Same t u ∧ u.queue = [] := by
  induction hn : t.queue.length using Nat.strong_induction_on generalizing t with
  | _ n ih =>
    cases hqueue : t.queue with
    | nil => exact ⟨[], t, by simp, rfl, hinv, hnot, ⟨rfl, rfl, rfl, rfl⟩, hqueue⟩
    | cons cmd queue =>
      have hstop : t.stop = false := by
        by_contra hstop
        cases hqueue.symm.trans (hinv.stopped (Bool.not_eq_false _ ▸ hstop)).2
      have hfree := mainFree_of_not_jammed hinv hnot hstop
      have hstep : t.step x ar desktop .take = some ({ t with queue := queue }.took cmd) := by
        simp [step, hqueue, hfree]
      have hsame := took_same { t with queue := queue } cmd
      have hnot' := fun hjam => hnot (jammed_of_took hqueue hjam)
      have hshort : ({ t with queue := queue }.took cmd).queue.length < n := by
        rw [← hn, hqueue, List.length_cons]
        exact Nat.lt_succ_of_le (took_queue { t with queue := queue } cmd).1
      obtain ⟨es, u, hown, hrun, hinv', hnot'', hsame', hempty⟩ := ih _ hshort (step_inv hinv hstep) hnot' rfl
      refine ⟨.take :: es, u, ?_, by simp [run, hstep, hrun], hinv', hnot'', ?_, hempty⟩
      · simpa [Own] using hown
      · exact ⟨hsame'.host.trans hsame.host, hsame'.held.trans hsame.held, hsame'.polling.trans hsame.polling,
          hsame'.exited.trans hsame.exited⟩

/-- With local input suppressed, a request of the UI is served unless the main task waits for the peer. -/
theorem uiServed (hinv : Inv x ar desktop t) (hheld : t.held = none) (hsuppressed : t.suppressed x ar desktop = true)
    (hnot : ¬ t.Jammed) : t.UiServed x ar desktop := by
  obtain ⟨es, u, hown, hrun, hinv', hnot', hsame, hempty⟩ := exists_taken hinv hnot
  obtain ⟨hrunning, hremote⟩ := remote_of_suppressed hinv hheld hsuppressed
  rw [← hsame.held] at hheld
  rw [← hsame.exited] at hrunning
  rw [← hsame.host] at hremote
  obtain ⟨fs, v, hown', hmem, hrun', hinv'', hsame', hempty', hrequested⟩ : ∃ fs v, (∀ e ∈ fs, Own e) ∧
      .command .snapHome ∈ fs ∧ run (step x ar desktop) u fs = some v ∧ Inv x ar desktop v ∧ Same u v ∧ v.queue = [] ∧
        v.requested = true := by
    cases hstop : u.stop with
    | true =>
      have hstep : u.step x ar desktop (.command .snapHome) = some u := by simp [step, hstop]
      exact ⟨[.command .snapHome], u, by simp [Own], by simp, by simp [run, hstep], hinv', ⟨rfl, rfl, rfl, rfl⟩, hempty,
        by simp [requested, hstop]⟩
    | false =>
      have hstep : u.step x ar desktop (.command .snapHome) = some { u with queue := [.snapHome] } := by
        simp [step, hstop, hempty, Node.QUEUE]
      have hfree : u.mainFree = true := mainFree_of_not_jammed hinv' hnot' hstop
      have htake : ({ u with queue := [.snapHome] } : Failsafe).step x ar desktop .take =
          some { u with queue := [], asked := true } := by
        unfold mainFree at hfree
        simp [step, mainFree, hfree, took]
      refine ⟨[.command .snapHome, .take], { u with queue := [], asked := true }, by simp [Own], by simp,
        by simp [run, hstep, htake], step_inv (step_inv hinv' hstep) htake, ⟨rfl, rfl, rfl, rfl⟩, rfl, ?_⟩
      simp [requested]
  rw [← hsame'.held] at hheld
  rw [← hsame'.exited] at hrunning
  rw [← hsame'.host] at hremote
  obtain ⟨gs, w, hown'', hrun'', hempty'', hhome⟩ := exists_home hinv'' hheld hrunning hremote hrequested
  refine ⟨es ++ (fs ++ gs), w, ?_, by simp [hmem], ?_, hempty''.trans hempty', hhome⟩
  · intro e he
    rcases List.mem_append.mp he with h | h
    · exact hown e h
    · rcases List.mem_append.mp h with h | h
      · exact hown' e h
      · exact hown'' e h
  · exact (run_append_eq_some _).mpr ⟨u, hrun, (run_append_eq_some _).mpr ⟨v, hrun', hrun''⟩⟩

/-- A main task that waits for the peer, or comes to wait, does not take what is last in its queue. -/
theorem own_step (hinv : Inv x ar desktop t) (hjam : t.Jammed) (hown : Own e)
    (hstep : t.step x ar desktop e = some u) : u.Jammed ∧
      (e = .command .snapHome ∨ t.queue.getLast? = some .snapHome → u.queue.getLast? = some .snapHome) := by
  have hstop : t.stop = false := by
    by_contra hstop
    cases hjam.1.symm.trans (hinv.stopped (Bool.not_eq_false _ ▸ hstop)).1
  have hline : ∀ n, Jam (t.queued .input n) t.mirroring t.queue := by
    intro n
    rw [queued, if_pos hjam.1]
    exact hjam.2.append _
  cases steps_of_step hstep with
  | waits s hrunning hheld hwriter hsent hfull => exact ⟨⟨hjam.1, hline _⟩, fun h => h.resolve_left (by simp)⟩
  | goes s hrunning hheld hroom => exact ⟨⟨hjam.1, hline _⟩, fun h => h.resolve_left (by simp)⟩
  | exit hrunning hheld hstop' => cases hstop.symm.trans hstop'
  | closed cmd hstop' => cases hstop.symm.trans hstop'
  | command cmd hstop' =>
    obtain rfl : cmd = .snapHome := hown
    refine ⟨⟨hjam.1, ?_⟩, fun _ => by simp⟩
    rw [Jam, pending_snapHome]
    exact hjam.2
  | take cmd queue hqueue hfree =>
    have hwaits := hjam.2
    have hpos := hwaits.pending_pos (not_waits_of_mainFree hfree)
    rw [hqueue] at hpos hwaits
    have hcmd : cmd ≠ .disconnect := by
      rintro rfl
      exact absurd rfl hpos.ne'
    obtain ⟨hwriter, hkept, hahead⟩ := took_line (t := { t with queue := queue }) hjam.1 hcmd queue
    refine ⟨⟨hwriter, ?_⟩, fun h => ?_⟩
    · rw [hkept, Jam, hahead]
      exact hwaits
    · rw [hqueue] at h
      rw [hkept]
      have hlast := h.resolve_left (by simp)
      cases hrest : queue with
      | nil =>
        rw [hrest] at hlast hpos
        cases hlast
        cases hpos
      | cons cmd' queue' =>
        rw [hrest] at hlast
        exact hlast
  | resume s hheld | tickFails | tick | pong | leave | clip | write | writerDied => exact hown.elim

theorem own_run {es : List FailsafeEvent} (hown : ∀ e ∈ es, Own e) (hinv : Inv x ar desktop t) (hjam : t.Jammed)
    (hrun : run (step x ar desktop) t es = some u) : Inv x ar desktop u ∧ u.Jammed ∧
      (.command .snapHome ∈ es ∨ t.queue.getLast? = some .snapHome → u.queue.getLast? = some .snapHome) := by
  induction es generalizing t with
  | nil =>
    cases hrun
    exact ⟨hinv, hjam, fun h => h.resolve_left (by simp)⟩
  | cons e es ih =>
    obtain ⟨v, hv, hrest⟩ := Option.bind_eq_some_iff.mp hrun
    obtain ⟨hjam', hlast⟩ := own_step hinv hjam (hown e List.mem_cons_self) hv
    obtain ⟨hinv'', hjam'', hlast'⟩ := ih (fun e he => hown e (List.mem_cons_of_mem _ he)) (step_inv hinv hv) hjam' hrest
    refine ⟨hinv'', hjam'', fun h => hlast' ?_⟩
    rcases h with hmem | hlast''
    · rcases List.mem_cons.mp hmem with rfl | hmem
      · exact Or.inr (hlast (Or.inl rfl))
      · exact Or.inl hmem
    · exact Or.inr (hlast (Or.inr hlast''))

theorem not_uiServed (hinv : Inv x ar desktop t) (hjam : t.Jammed) : ¬ t.UiServed x ar desktop := by
  rintro ⟨es, u, hown, hmem, hrun, hempty, -⟩
  have hlast := (own_run hown hinv hjam hrun).2.2 (Or.inl hmem)
  rw [hempty] at hlast
  cases hlast

/-! ### When all is safe -/

theorem safe_of_free (hinv : Inv x ar desktop t) (hheld : t.held = none) :
    t.Safe x ar desktop ↔ (t.suppressed x ar desktop = true → ¬ t.Jammed) := by
  constructor
  · exact fun hsafe hsuppressed hjam => not_uiServed hinv hjam (hsafe hsuppressed).2.2
  · intro hnot hsuppressed
    obtain ⟨hrunning, hremote⟩ := remote_of_suppressed hinv hheld hsuppressed
    refine ⟨hheld, ?_, uiServed hinv hheld hsuppressed (hnot hsuppressed)⟩
    split_ifs with hturn
    · exact pollServes hinv hheld hrunning hturn hremote
    · exact headServes hinv hheld hrunning (Bool.not_eq_true _ ▸ hturn)

theorem safe_of_home (hhome : t.suppressed x ar desktop = false) : t.Safe x ar desktop := by
  intro hsuppressed
  cases hhome.symm.trans hsuppressed

theorem safe_of_same (hinv : Inv x ar desktop u) (hsafe : t.Safe x ar desktop) (hsame : Same t u) :
    u.Safe x ar desktop ↔ (t.suppressed x ar desktop = true → ¬ u.Jammed) := by
  cases hsuppressed : t.suppressed x ar desktop with
  | false =>
    refine iff_of_true (safe_of_home ?_) nofun
    rw [suppressed_of_same hsame, hsuppressed]
  | true =>
    have hheld : u.held = none := hsame.held.trans (hsafe hsuppressed).1
    rw [safe_of_free hinv hheld, suppressed_of_same hsame, hsuppressed]

theorem safe_loop {s : LoopStep} (hinv : Inv x ar desktop t) (hsafe : t.Safe x ar desktop)
    (hstep : t.step x ar desktop (.loop s) = some u) :
    u.Safe x ar desktop ↔ ¬ Overfills x ar desktop t (.loop s) := by
  have hinv' := step_inv hinv hstep
  have hqueued : ∀ n, t.writer = true → t.queued .input n = t.line ++ List.replicate n .input := by
    intro n hwriter
    rw [queued, if_pos hwriter]
  cases steps_of_step hstep with
  | waits s hrunning hheld hwriter hsent hfull =>
    cases sends x ar desktop t.host s with
    | enters hcross hone hbefore =>
      rw [sent, hone] at hfull
      refine iff_of_false (fun hsafe' => ?_) (not_not.mpr ⟨hcross, hwriter, Or.inl (Nat.lt_succ_iff.mp hfull)⟩)
      cases (hsafe' hbefore).1
    | leaves hcross hone hbefore =>
      refine iff_of_true (safe_of_home hbefore) fun hbad => ?_
      cases hcross.symm.trans hbad.1
    | keeps hcross hnone => exact absurd hnone hsent.ne'
  | goes s hrunning hheld hroom =>
    rw [safe_of_free hinv' hheld, suppressed_of_free (by exact hheld)]
    cases sends x ar desktop t.host s with
    | enters hcross hone hbefore hafter =>
      rw [show (loopStep x ar desktop t.host s).told.suppress = true from hafter]
      refine (forall_prop_of_true rfl).trans (not_congr ?_)
      constructor
      · rintro ⟨hwriter, hjam⟩
        refine ⟨hcross, hwriter, Or.inr ?_⟩
        rwa [hqueued _ hwriter, sent, hone] at hjam
      · rintro ⟨-, hwriter, hfull | hjam⟩
        · rw [sent, hone] at hroom
          exact absurd (hroom hwriter Nat.one_pos) (Nat.lt_succ_iff.mpr hfull).not_ge
        · refine ⟨hwriter, ?_⟩
          rw [hqueued _ hwriter, sent, hone]
          exact hjam
    | leaves hcross hone hbefore hafter =>
      refine iff_of_true (fun hon => ?_) fun hbad => ?_
      · cases (show (loopStep x ar desktop t.host s).told.suppress = false from hafter).symm.trans hon
      · cases hcross.symm.trans hbad.1
    | keeps hcross hnone htold =>
      refine iff_of_true (fun hon => ?_) fun hbad => ?_
      · rintro ⟨hwriter, hjam⟩
        have hsuppressed : t.suppressed x ar desktop = true := by
          rw [suppressed_of_free hheld, ← htold]
          exact hon
        refine (safe_of_free hinv hheld).mp hsafe hsuppressed ⟨hwriter, ?_⟩
        rwa [hqueued _ hwriter, sent, hnone, List.replicate_zero, List.append_nil] at hjam
      · cases hcross.symm.trans hbad.1

theorem safe_step (hinv : Inv x ar desktop t) (hsafe : t.Safe x ar desktop) (hstep : t.step x ar desktop e = some u) :
    u.Safe x ar desktop ↔ ¬ Overfills x ar desktop t e := by
  have hinv' := step_inv hinv hstep
  have hnot : t.suppressed x ar desktop = true → ¬ t.Jammed := fun hsuppressed hjam =>
    not_uiServed hinv hjam (hsafe hsuppressed).2.2
  have hother : Same t u → (Overfills x ar desktop t e ↔ t.suppressed x ar desktop = true ∧ u.Jammed) →
      (u.Safe x ar desktop ↔ ¬ Overfills x ar desktop t e) := by
    intro hsame hbad
    rw [safe_of_same hinv' hsafe hsame, hbad, not_and]
  have hsent : ∀ task, Same t u → u = { t with line := t.queued task 1 } →
      (Overfills x ar desktop t e ↔
        t.suppressed x ar desktop = true ∧ t.writer = true ∧ Jam (t.line ++ [task]) t.mirroring t.queue) →
      (u.Safe x ar desktop ↔ ¬ Overfills x ar desktop t e) := by
    intro task hsame heq hbad
    refine hother hsame (hbad.trans (and_congr_right fun _ => ?_))
    rw [heq]
    refine and_congr_right fun hwriter => ?_
    rw [queued, if_pos hwriter]
    rfl
  have hfree : Same t u → ¬ Overfills x ar desktop t e → (u.Jammed → t.Jammed) →
      (u.Safe x ar desktop ↔ ¬ Overfills x ar desktop t e) := fun hsame hbad hjam =>
    hother hsame (iff_of_false hbad fun h => hnot h.1 (hjam h.2))
  cases steps_of_step hstep with
  | waits s | goes s => exact safe_loop hinv hsafe hstep
  | resume s hheld =>
    refine iff_of_true ?_ id
    -- A loop that waits sends, and a safe one has not crossed.
    have hone := hinv.sends s hheld
    cases hsends : sends x ar desktop t.host s with
    | enters hcross hone' hbefore =>
      have hsuppressed : t.suppressed x ar desktop = true := by
        rw [suppressed, done, hheld]
        exact hbefore
      cases hheld.symm.trans (hsafe hsuppressed).1
    | leaves hcross hone' hbefore hafter =>
      refine safe_of_home ?_
      rw [suppressed_of_free rfl]
      exact hafter
    | keeps hcross hnone => exact absurd hnone hone.ne'
  | exit hrunning hheld hstop =>
    refine iff_of_true (safe_of_home ?_) id
    rw [suppressed_of_free (by exact hheld)]
    simp [HostInput.told, HostInput.exit, HostInput.emit, HostInput.deeds, HostOut.deed, Told.hear]
  | closed cmd hstop =>
    refine iff_of_true hsafe fun hbad => ?_
    cases hbad.2.1.symm.trans (hinv.stopped hstop).1
  | command cmd hstop => exact hother ⟨rfl, rfl, rfl, rfl⟩ Iff.rfl
  | take cmd queue hqueue =>
    have hsame := took_same { t with queue := queue } cmd
    exact hfree ⟨hsame.host, hsame.held, hsame.polling, hsame.exited⟩ id (jammed_of_took hqueue)
  | tickFails hwriter =>
    refine hfree ⟨rfl, rfl, rfl, rfl⟩ (fun hbad => ?_) fun hjam => ?_
    · cases hwriter.symm.trans hbad.2.1
    · cases hjam.1
  | tick | pong => exact hsent .main ⟨rfl, rfl, rfl, rfl⟩ rfl Iff.rfl
  | clip => exact hsent .clip ⟨rfl, rfl, rfl, rfl⟩ rfl Iff.rfl
  | leave | writerDied => exact hfree ⟨rfl, rfl, rfl, rfl⟩ id fun hjam => by cases hjam.1
  | write hline =>
    refine hfree ⟨rfl, rfl, rfl, rfl⟩ id fun hjam => ⟨hjam.1, ?_⟩
    refine waits_of_tail ?_
    rw [List.tail_append_of_ne_nil hline]
    exact hjam.2

end Failsafe

open Failsafe in
/-- For every interleaving of the loop with the main task, the clipboard thread, the writer and the peer: in every
state the loop is safe, iff the channel to a living writer never lacks the room. -/
theorem failsafe_iff (x : Crates) (ar : Arith) (desktop : Rect) (edge : ScreenEdge) (hysteresis : Int)
    (rt : RealtimeCrypto) (line : List OutTask) (queue : List SessionCmd) (es : List FailsafeEvent) (t : Failsafe)
    (hrun : run (step x ar desktop) (start (.start edge hysteresis rt) line queue) es = some t) :
    (∀ front back u, es = front ++ back →
        run (step x ar desktop) (start (.start edge hysteresis rt) line queue) front = some u →
        u.Safe x ar desktop) ↔
      ¬ Seen (step x ar desktop) (Overfills x ar desktop) (start (.start edge hysteresis rt) line queue) es := by
  have hinv : Inv x ar desktop (start (.start edge hysteresis rt) line queue) :=
    ⟨by rfl, fun _ => rfl, nofun, nofun, nofun⟩
  refine always_good_iff (A := Inv x ar desktop) (safe_of_home (by rfl)) hinv ?_ hrun
  exact fun u e v hsafe hinv hstep => ⟨safe_step hinv hsafe hstep, fun _ => step_inv hinv hstep⟩

/-- Control starts on the host, with what the main task has just sent on its way. -/
def failsafeStart : Failsafe :=
  .start (.start .right 25 (RealtimeCrypto.new (Vector.replicate 32 7) 1 true)) [.main, .main] []

/-- The cursor crosses the right edge. -/
def crossRight : List FailsafeEvent := [.loop (.head .right false), .loop (.poll (some (.move 5 0 1919 540)) .right)]

/-- The user stops sharing the screen and asks to snap home; meanwhile the session pings, and nothing is written. -/
def crossAndSnap : List FailsafeEvent :=
  crossRight ++ [.command .stopMirror, .command .snapHome, .tick, .loop (.head .right false), .take, .take,
    .loop (.poll none .right), .loop (.head .right true)]

theorem failsafe_iff_crossAndSnap :
    ∃ t, run (Failsafe.step shiftCrates .exact ⟨0, 0, 1920, 1080⟩) failsafeStart crossAndSnap = some t ∧
      ∀ front back u, crossAndSnap = front ++ back →
        run (Failsafe.step shiftCrates .exact ⟨0, 0, 1920, 1080⟩) failsafeStart front = some u →
        u.Safe shiftCrates .exact ⟨0, 0, 1920, 1080⟩ := by
  obtain ⟨t, hrun, -⟩ : ∃ t, run (Failsafe.step shiftCrates .exact ⟨0, 0, 1920, 1080⟩) failsafeStart crossAndSnap =
      some t ∧ t.exited = false := exists_run (by decide +kernel)
  exact ⟨t, hrun, (failsafe_iff shiftCrates .exact ⟨0, 0, 1920, 1080⟩ .right 25 _ _ _ crossAndSnap t hrun).mpr
    (by decide +kernel)⟩

/-- The peer has stopped reading, the clipboard has filled the channel, and then the cursor crosses. -/
def crossFull : List FailsafeEvent := List.replicate 254 .clip ++ crossRight

/-- Local input is suppressed, and the loop waits for the peer. -/
theorem crossFull_not_safe :
    ∃ t, run (Failsafe.step shiftCrates .exact ⟨0, 0, 1920, 1080⟩) failsafeStart crossFull = some t ∧
      ¬ t.Safe shiftCrates .exact ⟨0, 0, 1920, 1080⟩ := by
  obtain ⟨t, hrun, hsuppressed, hwaits⟩ : ∃ t, run (Failsafe.step shiftCrates .exact ⟨0, 0, 1920, 1080⟩) failsafeStart
      crossFull = some t ∧ t.suppressed shiftCrates .exact ⟨0, 0, 1920, 1080⟩ = true ∧ t.held ≠ none :=
    exists_run (by decide +kernel)
  exact ⟨t, hrun, fun hsafe => hwaits (hsafe hsuppressed).1⟩

end ScreenLink

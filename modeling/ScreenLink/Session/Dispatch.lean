import ScreenLink.Lib.BoundedChannel
import ScreenLink.Pairing.Refinement
import ScreenLink.Session.Cleanup

/-!
# The dispatcher and a session that waits

The dispatcher waits in `tx.send(cmd).await` while the queue of 16 of its target is full. A session takes commands in
its pairing loop and in its main loop only, and there not while it waits for room in the channel of 256 to its writer.
`Dispatching.step` is the process with these channels: a step of a main task that has more to send than there is room
for is held until there is. `Faces` says that the dispatcher waits at a full queue, `Drains` that the session can empty
it by itself, and `AwaitsPeer` that it has not had the peer's Hello, or that the connection does not take what it has
to send first.
-/

namespace ScreenLink

open Machine BoundedChannel

/-- A task that sends to a session's writer. -/
inductive OutTask
  | main
  /-- The input loop. -/
  | input
  | clip
  deriving DecidableEq

/-- Capacity of the channel to the writer. -/
def OUTBOX : ℕ := 256

def SessionEvent.task : SessionEvent → Option OutTask
  | .host .. | .hostExit => some .input
  | .clipboard _ | .clipExit => some .clip
  | .sender .. | .writerDied => none
  | _ => some .main

/-- The event needs neither the peer nor a failure. -/
def SessionEvent.alone : SessionEvent → Bool
  | .recv _ | .closed _ | .writerDied | .store (some _) | .wire _ _ (some _) => false
  | _ => true

/-- The way from a session's tasks to the peer. -/
structure Outgoing where
  /-- The channel to the writer, with the sends that wait for room. -/
  line : List OutTask
  /-- How many messages the connection still takes if the peer reads nothing more. -/
  credit : ℕ
  /-- What the main task does, when it waits for room. -/
  held : Option SessionEvent
  deriving DecidableEq

/-- The process, with its sessions' channels. -/
structure Dispatching (x : Crates) where
  node : Node x
  out : ℕ → Outgoing

inductive DispatchingEvent
  /-- A step of the process that is none of a session. -/
  | node (event : NodeEvent)
  /-- A task of session `i` does something, or for lack of room begins to. -/
  | session (i : ℕ) (event : SessionEvent)
  /-- So does its main task with a command from its queue. -/
  | command (i : ℕ) (epoch : BitVec 64)
  /-- The main task of session `i` has room. -/
  | resume (i : ℕ)
  /-- The writer of session `i` writes a message. -/
  | write (i : ℕ)
  /-- The peer of session `i` reads. -/
  | reads (i : ℕ) (messages : ℕ)
  deriving DecidableEq

namespace Session

variable {x : Crates}

/-- The messages the step puts into the channel to the writer, once there is one. -/
def sent (s : Session) (p : AppCore x × Session) : ℕ := if s.slot.isSome then p.2.out.length - s.out.length else 0

/-- The messages the main task sends before it next waits for an event. -/
def upcoming (s : Session) : ℕ :=
  match s.phase with
  | .paired _ | .authenticated _ => if s.role.controls then 2 else 0
  | _ => 0

/-- The step ends the pairing loop. -/
def completes (s : Session) (event : SessionEvent) : Bool :=
  match event, s.phase with
  | .cmd .confirm _, .pairing _ state => state.confirmLocal.isComplete
  | _, _ => false

end Session

namespace Outgoing

/-- The event can be taken up now. -/
def free (o : Outgoing) (event : SessionEvent) : Bool :=
  match event.task with
  | none => true
  | some .main => o.held.isNone
  | some task => !decide (Waits OUTBOX o.line task)

/-- The line after `n` sends of the task; nobody waits for a writer that is gone. -/
def send (o : Outgoing) (event : SessionEvent) (n : ℕ) (writer : Bool) : Outgoing :=
  { o with line := if writer then o.line ++ List.replicate n (event.task.getD .main) else [] }

/-- The main task waits for room. -/
def hold (o : Outgoing) (event : SessionEvent) (n : ℕ) : Outgoing :=
  { o with line := o.line ++ List.replicate n .main, held := some event }

def resume (o : Outgoing) (writer : Bool) : Outgoing :=
  { o with line := if writer then o.line else [], held := none }

def write (o : Outgoing) : Outgoing := { o with line := o.line.tail, credit := o.credit - 1 }

end Outgoing

namespace Dispatching

variable {x : Crates}

def initial (core : AppCore x) : Dispatching x := ⟨.initial core, fun _ => ⟨[], 0, none⟩⟩

def setOut (t : Dispatching x) (i : ℕ) (o : Outgoing) : ℕ → Outgoing := Function.update t.out i o

/-- A task of session `i`, whose queue is then `queue`, does its event or waits for room to do it. -/
def act (ar : Arith) (t : Dispatching x) (i : ℕ) (s : Session) (name : String) (queue : List Queued)
    (event : SessionEvent) : Option (Dispatching x) :=
  if !(t.out i).free event then none
  else (s.step ar t.node.core event).map fun p =>
    let n := s.sent p
    if event.task = some .main ∧ 0 < n ∧ OUTBOX < (t.out i).line.length + n then
      { node := { t.node with handles := t.node.handles.set i ⟨.session s, name, queue⟩ }
        out := t.setOut i ((t.out i).hold event n) }
    else
      { node := t.node.afterStep i name s queue event p
        out := t.setOut i ((t.out i).send event n p.2.writer) }

/-- One step; `none` if the event cannot happen now. -/
def step (ar : Arith) (t : Dispatching x) (e : DispatchingEvent) : Option (Dispatching x) :=
  match e with
  | .node event => match event with
    | .session .. | .command .. => none
    | event => (t.node.step ar event).map fun node => { t with node := node }
  | .session i event => match event, t.node.handles[i]? with
    | .cmd .., _ | .cmdClosed, _ => none
    | event, some ⟨.session s, name, queue⟩ => t.act ar i s name queue event
    | _, _ => none
  | .command i epoch => match t.node.handles[i]? with
    | some ⟨.session s, name, q :: queue⟩ => t.act ar i s name queue (.cmd q.cmd epoch)
    | _ => none
  | .resume i => match t.node.handles[i]?, (t.out i).held with
    | some ⟨.session s, name, queue⟩, some event =>
      if Waits OUTBOX (t.out i).line .main then none
      else (s.step ar t.node.core event).map fun p =>
        { node := t.node.afterStep i name s queue event p
          out := t.setOut i ((t.out i).resume p.2.writer) }
    | _, _ => none
  | .write i =>
    if (t.out i).line = [] ∨ (t.out i).credit = 0 then none
    else some { t with out := t.setOut i (t.out i).write }
  | .reads i messages =>
    some { t with out := t.setOut i { t.out i with credit := (t.out i).credit + messages } }

/-- The dispatcher waits for room in the queue of session `i`. -/
def Faces (t : Dispatching x) (i : ℕ) : Prop :=
  ∃ cmd rest, t.node.dispatch = .sending cmd (i :: rest) ∧
    ∃ h, t.node.handles[i]? = some h ∧ h.closed = false ∧ Node.QUEUE ≤ h.queue.length

/-- A step that needs neither the peer nor a failure, nor any other session. -/
def Local (i : ℕ) : DispatchingEvent → Prop
  | .session j event => j = i ∧ event.alone = true
  | .command j _ | .resume j | .write j => j = i
  | _ => False

/-- Left to itself, session `i` comes to take a command, or returns. -/
def Drains (ar : Arith) (t : Dispatching x) (i : ℕ) : Prop :=
  ∃ es u, (∀ e ∈ es, Local i e) ∧ run (step ar) t es = some u ∧ ¬ u.Faces i

/-- The messages up to the last of those the main task sends before it next waits for an event. -/
def needed (s : Session) (o : Outgoing) : ℕ :=
  match o.held with
  | some event =>
    max (upTo .main o.line) (if s.completes event && s.role.controls then o.line.length + 2 else 0)
  | none => if s.upcoming = 0 then 0 else o.line.length + s.upcoming

/-- The session has not had the peer's Hello, or the connection does not take all that its main task has to send. -/
def Awaits (s : Session) (o : Outgoing) : Prop := s.phase.awaitsHello = true ∨ OUTBOX + o.credit < needed s o

/-- Session `i` is not connected, or awaits its peer. -/
def AwaitsPeer (t : Dispatching x) (i : ℕ) : Prop :=
  match t.node.session? i with
  | none => True
  | some s => Awaits s (t.out i)

end Dispatching

/-! ### What a session sends at each point -/

namespace Session

variable {x : Crates} {ar : Arith} {core : AppCore x} {s : Session} {event : SessionEvent} {p : AppCore x × Session}

theorem sent_eq_zero (hout : p.2.out = s.out) : s.sent p = 0 := by
  unfold sent
  rw [hout, Nat.sub_self, ite_self]

theorem sent_eq_zero_of_unnamed (hslot : s.slot = none) : s.sent p = 0 := by
  unfold sent
  rw [hslot]
  rfl

theorem sent_eq_zero_of_writer (h : s.step ar core event = some p) (hwriter : s.writer = false) : s.sent p = 0 := by
  by_cases hdied : event = .writerDied
  · subst hdied
    cases steps_of_step h with
    | writerDied hslot => simp [sent]
  · by_cases hdown : event = .teardown
    · subst hdown
      cases steps_of_step h with
      | teardown info result hs => exact sent_eq_zero rfl
    · obtain ⟨msgs, hout, -, hnone, -⟩ := says_of_step h hdied hdown
      exact sent_eq_zero (by rw [hout, hnone hwriter, List.append_nil])

theorem length_send_le (s : Session) (msg : ControlMsg) : (s.send msg).out.length ≤ s.out.length + 1 := by
  unfold send
  dsimp only
  split_ifs <;> simp

theorem early_step (h : s.step ar core event = some p) (hearly : s.phase.early = true) (hclip : s.clip = false)
    (hhost : s.host = none) :
    p.2.clip = false ∧ p.2.host = none ∧ p.2.out.length ≤ s.out.length + 1 ∧
      (p.2.phase.early = true → s.phase.unnamed = true ∨ p.2.out = s.out ∨ p.2.out = []) := by
  cases steps_of_step h with
  | sayHello hs => exact ⟨hclip, hhost, length_send_le .., fun _ => Or.inl (by rw [hs]; rfl)⟩
  | recvHello msg hs =>
    have hunnamed : s.phase.unnamed = true := by
      rw [hs]
      rfl
    unfold recvHello
    split
    · split_ifs
      · exact ⟨hclip, hhost, length_send_le .., fun _ => Or.inl hunnamed⟩
      · exact ⟨hclip, hhost, Nat.le_succ _, fun _ => Or.inl hunnamed⟩
    · exact ⟨hclip, hhost, Nat.le_succ _, fun _ => Or.inl hunnamed⟩
  | startClosed err hs | helloClosed err hs | setSlot info hs =>
    exact ⟨hclip, hhost, Nat.le_succ _, fun _ => Or.inr (Or.inl rfl)⟩
  | checkTrust info hs =>
    unfold checkTrust
    split_ifs
    · exact ⟨hclip, hhost, Nat.le_succ _, nofun⟩
    · exact ⟨hclip, hhost, length_send_le .., nofun⟩
  | writerDied hslot => exact ⟨hclip, hhost, Nat.zero_le _, fun _ => Or.inr (Or.inr rfl)⟩
  | host t edge captured edgeNow ht hlive => cases hhost.symm.trans ht
  | hostExit t ht hstop => cases hhost.symm.trans ht
  | sender i ev t t' ht hstep => exact ⟨hclip, hhost, Nat.le_succ _, fun _ => Or.inr (Or.inl rfl)⟩
  | clipboard text hsend => cases hclip.symm.trans hsend
  | clipExit result hs => simp [hs, Phase.early] at hearly
  | pairingRecv info st msg hs | pairingClosed info st err hs | pairingCmd info st cmd epoch hs
  | pairingCmdClosed info st hs | store info err hs | wire info epoch desktop err hs | runningRecv info msg hs
  | runningClosed info err hs | runningCmd info cmd epoch hs | runningCmdClosed info hs | tick info hs
  | teardown info result hs => simp [hs, Phase.early] at hearly

/-- The main task can be waiting to send at this point. -/
def Holds (s : Session) (event : SessionEvent) : Prop :=
  match s.phase, event with
  | .pairing .., .cmd .confirm _ | .pairing .., .cmd .cancel _ | .pairing .., .cmd .disconnect _ => True
  | .authenticated _, .wire .. => True
  | .running _, .recv _ | .running _, .cmd .. | .running _, .tick => True
  | _, _ => False

theorem holds_of_sent (h : s.step ar core event = some p) (hearly : s.phase.early = false)
    (hmain : event.task = some .main) (hclosed : event ≠ .cmdClosed) (hsent : 0 < s.sent p) : s.Holds event := by
  have hsame : p.2.out ≠ s.out := fun hout => hsent.ne' (sent_eq_zero hout)
  unfold Holds
  cases steps_of_step h with
  | sayHello hs | startClosed err hs | recvHello msg hs | helloClosed err hs | setSlot info hs | checkTrust info hs =>
    simp [hs, Phase.early] at hearly
  | pairingRecv info st msg hs => exact absurd (by cases msg <;> rfl) hsame
  | pairingCmd info st cmd epoch hs =>
    rw [hs]
    cases cmd with
    | confirm | cancel | disconnect => trivial
    | _ => exact absurd rfl hsame
  | pairingCmdClosed info st hs | runningCmdClosed info hs => exact absurd rfl hclosed
  | store info err hs => exact absurd (by cases err <;> rfl) hsame
  | wire info epoch desktop err hs | runningRecv info msg hs | runningCmd info cmd epoch hs | tick info hs =>
    rw [hs]
    trivial
  | pairingClosed info st err hs | runningClosed info err hs | teardown info result hs => exact absurd rfl hsame
  | _ => cases hmain

theorem step_isSome_of_holds (h : s.Holds event) : (s.step ar core event).isSome = true := by
  unfold Holds at h
  split at h
  all_goals
    rename_i hs
    first
    | exact h.elim
    | simp [step, hs]

theorem sent_wire {epoch : BitVec 64} {desktop : Rect} {err : Option Error}
    (h : s.step ar core (.wire epoch desktop err) = some p) (hwriter : s.writer = true) (hslot : s.slot.isSome = true) :
    s.sent p = if s.role.controls then 2 else 0 := by
  cases steps_of_step h with
  | wire info _ _ _ hs =>
    unfold sent wire
    rw [if_pos hslot]
    dsimp only
    split
    · rename_i hrole
      simp [hrole, Role.controls]
    · rename_i hrole
      split <;> simp [hrole, Role.controls, send, fail, hwriter]

end Session

/-! ### What is known throughout a run -/

namespace Dispatching

variable {x : Crates} {ar : Arith} {t u : Dispatching x} {e : DispatchingEvent} {i : ℕ} {s : Session} {name : String}
  {queue : List Queued} {event : SessionEvent} {o : Outgoing}

/-- A session and its way out. -/
structure SessionOk (s : Session) (o : Outgoing) : Prop where
  slot : s.SlotOk
  early : s.phase.early = true → s.clip = false ∧ s.host = none ∧ o.line = [] ∧ o.held = none
  held : ∀ event, o.held = some event → s.Holds event
  dead : s.writer = false → o.line = []

structure Inv (t : Dispatching x) : Prop where
  sessions : ∀ i s, t.node.session? i = some s → SessionOk s (t.out i)
  idle : ∀ i, t.node.session? i = none → (t.out i).line = [] ∧ (t.out i).held = none
  queues : ∀ h ∈ t.node.handles, h.queue.length ≤ Node.QUEUE

/-- The branches of `act`. -/
inductive Acts (ar : Arith) (t : Dispatching x) (i : ℕ) (s : Session) (name : String) (queue : List Queued)
    (event : SessionEvent) : Dispatching x → Prop
  | done (p : AppCore x × Session) (hp : s.step ar t.node.core event = some p)
    (hroom : event.task = some .main → 0 < s.sent p → (t.out i).line.length + s.sent p ≤ OUTBOX) :
    Acts ar t i s name queue event ⟨t.node.afterStep i name s queue event p,
      t.setOut i ((t.out i).send event (s.sent p) p.2.writer)⟩
  | held (p : AppCore x × Session) (hp : s.step ar t.node.core event = some p) (hmain : event.task = some .main)
    (hsent : 0 < s.sent p) (hroom : OUTBOX < (t.out i).line.length + s.sent p) :
    Acts ar t i s name queue event ⟨{ t.node with handles := t.node.handles.set i ⟨.session s, name, queue⟩ },
      t.setOut i ((t.out i).hold event (s.sent p))⟩

theorem acts_of_act (h : t.act ar i s name queue event = some u) :
    (t.out i).free event = true ∧ Acts ar t i s name queue event u := by
  unfold act at h
  split_ifs at h with hfree
  rw [Bool.not_eq_true, Bool.not_eq_false'] at hfree
  obtain ⟨p, hp, rfl⟩ := Option.map_eq_some_iff.mp h
  refine ⟨hfree, ?_⟩
  dsimp only
  split_ifs with hfull
  · exact .held p hp hfull.1 hfull.2.1 hfull.2.2
  · exact .done p hp fun hmain hsent => by
      by_contra hlt
      exact hfull ⟨hmain, hsent, Nat.not_le.mp hlt⟩

/-- The branches of `step`. -/
inductive Steps (ar : Arith) (t : Dispatching x) : DispatchingEvent → Dispatching x → Prop
  | node (event : NodeEvent) (node : Node x) (hidle : t.node.acts event = none)
    (hnode : t.node.step ar event = some node) : Steps ar t (.node event) { t with node := node }
  | session (i : ℕ) (event : SessionEvent) (s : Session) (name : String) (queue : List Queued) (u : Dispatching x)
    (hh : t.node.handles[i]? = some ⟨.session s, name, queue⟩)
    (hevent : (∀ cmd epoch, event ≠ .cmd cmd epoch) ∧ event ≠ .cmdClosed) (hfree : (t.out i).free event = true)
    (hacts : Acts ar t i s name queue event u) : Steps ar t (.session i event) u
  | command (i : ℕ) (epoch : BitVec 64) (s : Session) (name : String) (q : Queued) (queue : List Queued)
    (u : Dispatching x) (hh : t.node.handles[i]? = some ⟨.session s, name, q :: queue⟩)
    (hfree : (t.out i).free (.cmd q.cmd epoch) = true) (hacts : Acts ar t i s name queue (.cmd q.cmd epoch) u) :
    Steps ar t (.command i epoch) u
  | resume (i : ℕ) (s : Session) (name : String) (queue : List Queued) (event : SessionEvent)
    (p : AppCore x × Session) (hh : t.node.handles[i]? = some ⟨.session s, name, queue⟩)
    (hheld : (t.out i).held = some event) (hroom : ¬ Waits OUTBOX (t.out i).line .main)
    (hp : s.step ar t.node.core event = some p) :
    Steps ar t (.resume i) ⟨t.node.afterStep i name s queue event p, t.setOut i ((t.out i).resume p.2.writer)⟩
  | write (i : ℕ) (hline : (t.out i).line ≠ []) (hcredit : 0 < (t.out i).credit) :
    Steps ar t (.write i) { t with out := t.setOut i (t.out i).write }
  | reads (i messages : ℕ) : Steps ar t (.reads i messages)
      { t with out := t.setOut i { t.out i with credit := (t.out i).credit + messages } }

theorem steps_of_step (h : step ar t e = some u) : Steps ar t e u := by
  cases e with
  | node event =>
    have hmap : t.node.acts event = none ∧ (t.node.step ar event).map (fun node => { t with node := node }) = some u := by
      cases event with
      | session j event => cases h
      | command j epoch => cases h
      | _ => exact ⟨rfl, h⟩
    obtain ⟨node, hnode, rfl⟩ := Option.map_eq_some_iff.mp hmap.2
    exact .node event node hmap.1 hnode
  | session i event =>
    simp only [step] at h
    split at h
    · cases h
    · cases h
    · rename_i s name queue hcmd hclosed hh
      obtain ⟨hfree, hacts⟩ := acts_of_act h
      exact .session i _ s name queue u hh ⟨hcmd, hclosed⟩ hfree hacts
    · cases h
  | command i epoch =>
    simp only [step] at h
    split at h
    · rename_i s name q queue hh
      obtain ⟨hfree, hacts⟩ := acts_of_act h
      exact .command i epoch s name q queue u hh hfree hacts
    · cases h
  | resume i =>
    simp only [step] at h
    split at h
    · rename_i s name queue event hh hheld
      split_ifs at h with hroom
      obtain ⟨p, hp, rfl⟩ := Option.map_eq_some_iff.mp h
      exact .resume i s name queue event p hh hheld hroom hp
    · cases h
  | write i =>
    simp only [step] at h
    split_ifs at h with hnone
    cases h
    rw [not_or] at hnone
    exact .write i hnone.1 (Nat.pos_of_ne_zero hnone.2)
  | reads i messages =>
    cases h
    exact .reads i messages

@[simp] theorem setOut_self : t.setOut i o i = o := Function.update_self ..

theorem setOut_of_ne {j : ℕ} (hj : j ≠ i) : t.setOut i o j = t.out j := Function.update_of_ne hj ..

theorem phase_of_thread {core : AppCore x} {p : AppCore x × Session} (h : s.step ar core event = some p)
    (hthread : event.task ≠ some .main) : p.2.phase = s.phase := by
  cases Session.steps_of_step h with
  | host t edge captured edgeNow hhost hlive =>
    obtain ⟨events, out, heq⟩ := Session.hostStep_eq ar core s t edge captured edgeNow
    rw [heq]
  | writerDied | hostExit | sender | clipboard | clipExit => rfl
  | _ => exact absurd rfl hthread

theorem holds_congr {s' : Session} (hphase : s'.phase = s.phase) (h : s.Holds event) : s'.Holds event := by
  unfold Session.Holds at h ⊢
  rwa [hphase]

theorem sessionOk_done {core : AppCore x} {p : AppCore x × Session} (hok : SessionOk s o)
    (hp : s.step ar core event = some p) (hfree : o.free event = true) :
    SessionOk p.2 (o.send event (s.sent p) p.2.writer) := by
  have hmoves := Session.step_moves hp
  refine ⟨Session.step_slotOk hp hok.slot, fun hearly => ?_, fun ev hev => ?_, fun hdead => ?_⟩
  · obtain ⟨hearly', hnot⟩ := Phase.early_of_moves hmoves hearly
    obtain ⟨hclip, hhost, hline, hheld⟩ := hok.early hearly'
    obtain ⟨hclip', hhost', -, hout⟩ := Session.early_step hp hearly' hclip hhost
    refine ⟨hclip', hhost', ?_, hheld⟩
    have hsent : s.sent p = 0 := by
      rcases hout hearly with hunnamed | hsame | hnil
      · exact Session.sent_eq_zero_of_unnamed (hok.slot.unnamed hunnamed)
      · exact Session.sent_eq_zero hsame
      · simp [Session.sent, hnil]
    simp [Outgoing.send, hline, hsent]
  · have hev' : o.held = some ev := hev
    have hthread : event.task ≠ some .main := by
      intro hmain
      simp [Outgoing.free, hmain, hev'] at hfree
    exact holds_congr (phase_of_thread hp hthread) (hok.held ev hev')
  · simp [Outgoing.send, hdead]

theorem sessionOk_held {core : AppCore x} {p : AppCore x × Session} (hok : SessionOk s o)
    (hp : s.step ar core event = some p) (hmain : event.task = some .main) (hclosed : event ≠ .cmdClosed)
    (hsent : 0 < s.sent p) (hroom : OUTBOX < o.line.length + s.sent p) : SessionOk s (o.hold event (s.sent p)) := by
  have hlate : s.phase.early = false := by
    by_contra hearly
    rw [Bool.not_eq_false] at hearly
    obtain ⟨hclip, hhost, hline, -⟩ := hok.early hearly
    obtain ⟨-, -, hout, -⟩ := Session.early_step hp hearly hclip hhost
    have hle : s.sent p ≤ 1 := by
      unfold Session.sent
      split_ifs <;> omega
    rw [hline, List.length_nil, OUTBOX] at hroom
    omega
  refine ⟨hok.slot, fun hearly => ?_, fun ev hev => ?_, fun hdead => ?_⟩
  · cases hlate.symm.trans hearly
  · cases hev
    exact Session.holds_of_sent hp hlate hmain hclosed hsent
  · exact absurd (Session.sent_eq_zero_of_writer hp hdead) hsent.ne'

theorem sessionOk_resume {core : AppCore x} {p : AppCore x × Session} (hok : SessionOk s o)
    (hp : s.step ar core event = some p) (hheld : o.held = some event) : SessionOk p.2 (o.resume p.2.writer) := by
  refine ⟨Session.step_slotOk hp hok.slot, fun hearly => ?_, fun ev hev => ?_, fun hdead => ?_⟩
  · obtain ⟨hearly', -⟩ := Phase.early_of_moves (Session.step_moves hp) hearly
    cases hheld.symm.trans (hok.early hearly').2.2.2
  · cases hev
  · simp [Outgoing.resume, hdead]

theorem sessionOk_write (hok : SessionOk s o) (hline : o.line ≠ []) : SessionOk s o.write where
  slot := hok.slot
  early hearly := absurd (hok.early hearly).2.2.1 hline
  held := hok.held
  dead hdead := absurd (hok.dead hdead) hline

theorem handles_of_acts (hok : SessionOk s (t.out i)) (hfree : (t.out i).free event = true)
    (hclosed : event ≠ .cmdClosed) (hacts : Acts ar t i s name queue event u) :
    ∃ s', u.node.handles = t.node.handles.set i ⟨.session s', name, queue⟩ ∧ SessionOk s' (u.out i) ∧
      ∀ j, j ≠ i → u.out j = t.out j := by
  cases hacts with
  | done p hp hroom =>
    refine ⟨p.2, rfl, ?_, fun j hj => Function.update_of_ne hj ..⟩
    show SessionOk p.2 (t.setOut i _ i)
    rw [setOut_self]
    exact sessionOk_done hok hp hfree
  | held p hp hmain hsent hroom =>
    refine ⟨s, rfl, ?_, fun j hj => Function.update_of_ne hj ..⟩
    show SessionOk s (t.setOut i _ i)
    rw [setOut_self]
    exact sessionOk_held hok hp hmain hclosed hsent hroom

end Dispatching

namespace Node

variable {x : Crates} {ar : Arith} {n n' : Node x} {e : NodeEvent}

theorem queues_of_idle (h : step ar n e = some n') (hacts : n.acts e = none)
    (hq : ∀ h ∈ n.handles, h.queue.length ≤ QUEUE) : ∀ h ∈ n'.handles, h.queue.length ≤ QUEUE := by
  have hset : ∀ {i : ℕ} {g : Handle} {handles : List Handle}, handles = n.handles.set i g → g.queue.length ≤ QUEUE →
      ∀ h ∈ handles, h.queue.length ≤ QUEUE := by
    rintro i g handles rfl hg h hh
    rcases List.mem_or_eq_of_mem_set hh with hold | rfl
    · exact hq h hold
    · exact hg
  have hpush : ∀ {g : Handle} {handles : List Handle}, handles = n.handles ++ [g] → g.queue = [] →
      ∀ h ∈ handles, h.queue.length ≤ QUEUE := by
    rintro g handles rfl hg h hh
    rcases List.mem_append.mp hh with hold | hnew
    · exact hq h hold
    · rw [List.mem_singleton.mp hnew, hg]
      exact Nat.zero_le _
  cases steps_of_step h with
  | accept ip key cert hd => exact hpush rfl rfl
  | connected i key cert ip edge name queue hh =>
    have hle : queue.length ≤ QUEUE := hq _ (List.mem_of_getElem? hh)
    exact hset rfl hle
  | connectFailed i error ip edge name queue hh =>
    have hle : queue.length ≤ QUEUE := hq _ (List.mem_of_getElem? hh)
    exact hset rfl hle
  | receive c rest hd hc =>
    obtain ⟨cmd, answers⟩ := c
    cases cmd with
    | connect ip name edge => exact hpush rfl rfl
    | _ => exact hq
  | visit fingerprint cmd next targets hd =>
    unfold Node.visit
    split <;> exact hq
  | send cmd targets n' hd hsend =>
    unfold sendTo at hsend
    split at hsend
    case h_1 => exact Option.some.inj hsend ▸ hq
    case h_2 i rest =>
      split at hsend
      case h_1 => cases hsend
      case h_2 g hh =>
        split_ifs at hsend with hclosed hroom
        · exact Option.some.inj hsend ▸ hq
        · rw [← Option.some.inj hsend]
          refine hset rfl ?_
          rw [List.length_append, List.length_singleton]
          exact hroom
  | command i epoch s name q queue p hh hstep => simp [acts, hh] at hacts
  | session i event s name queue p hh hevent hstep => cases hacts
  | _ => exact hq

end Node

namespace Dispatching

variable {x : Crates} {ar : Arith} {t u : Dispatching x} {e : DispatchingEvent} {i : ℕ} {s : Session} {name : String}
  {queue : List Queued} {event : SessionEvent} {o : Outgoing}

theorem inv_of_session (h : Inv t) {s' : Session} (hi : i < t.node.handles.length)
    (hhandles : u.node.handles = t.node.handles.set i ⟨.session s', name, queue⟩) (hok : SessionOk s' (u.out i))
    (hout : ∀ j, j ≠ i → u.out j = t.out j) (hqueue : queue.length ≤ Node.QUEUE) : Inv u where
  sessions j r hr := by
    rw [Node.session?_set hi hhandles] at hr
    split_ifs at hr with hj
    · subst hj
      cases hr
      exact hok
    · rw [hout j hj]
      exact h.sessions j r hr
  idle j hr := by
    rw [Node.session?_set hi hhandles] at hr
    split_ifs at hr with hj
    · cases hr
    · rw [hout j hj]
      exact h.idle j hr
  queues g hg := by
    rw [hhandles] at hg
    rcases List.mem_or_eq_of_mem_set hg with hold | rfl
    · exact h.queues g hold
    · exact hqueue

theorem inv_of_out (h : Inv t) (hok : ∀ s, SessionOk s (t.out i) → SessionOk s o)
    (hidle : (t.out i).line = [] ∧ (t.out i).held = none → o.line = [] ∧ o.held = none) :
    Inv { t with out := t.setOut i o } where
  sessions j s hs := by
    show SessionOk s (t.setOut i o j)
    by_cases hj : j = i
    · subst hj
      rw [setOut_self]
      exact hok s (h.sessions j s hs)
    · rw [setOut_of_ne hj]
      exact h.sessions j s hs
  idle j hs := by
    show (t.setOut i o j).line = [] ∧ (t.setOut i o j).held = none
    by_cases hj : j = i
    · subst hj
      rw [setOut_self]
      exact hidle (h.idle j hs)
    · rw [setOut_of_ne hj]
      exact h.idle j hs
  queues := h.queues

theorem inv_of_acts (h : Inv t) {q : List Queued} (hh : t.node.handles[i]? = some ⟨.session s, name, q⟩)
    (hqueue : queue.length ≤ q.length) (hfree : (t.out i).free event = true) (hclosed : event ≠ .cmdClosed)
    (hacts : Acts ar t i s name queue event u) : Inv u := by
  obtain ⟨s', hhandles, hok, hout⟩ :=
    handles_of_acts (h.sessions i s (Node.session?_of_handle hh)) hfree hclosed hacts
  have hle : q.length ≤ Node.QUEUE := h.queues _ (List.mem_of_getElem? hh)
  exact inv_of_session h (List.getElem?_eq_some_iff.mp hh).1 hhandles hok hout (hqueue.trans hle)

theorem step_inv (h : Inv t) (hstep : step ar t e = some u) : Inv u := by
  cases steps_of_step hstep with
  | node event node hidle hnode =>
    have hsession := Node.session?_of_idle hnode hidle
    refine ⟨fun i s hs => ?_, fun i hs => ?_, Node.queues_of_idle hnode hidle h.queues⟩
    · rcases hsession i with heq | ⟨hnone, role, ip, key, cert, hnew⟩
      · exact h.sessions i s (heq ▸ hs)
      · obtain ⟨hline, hheld⟩ := h.idle i hnone
        cases hnew.symm.trans hs
        refine ⟨⟨fun F hF => (nomatch hF), fun _ => rfl⟩, fun _ => ⟨rfl, rfl, hline, hheld⟩, fun ev hev => ?_, nofun⟩
        cases hheld.symm.trans hev
    · rcases hsession i with heq | ⟨hnone, role, ip, key, cert, hnew⟩
      · exact h.idle i (heq ▸ hs)
      · exact h.idle i hnone
  | session i event s name queue u hh hevent hfree hacts => exact inv_of_acts h hh le_rfl hfree hevent.2 hacts
  | command i epoch s name q queue u hh hfree hacts => exact inv_of_acts h hh (Nat.le_succ _) hfree nofun hacts
  | resume i s name queue event p hh hheld hroom hp =>
    refine inv_of_session h (List.getElem?_eq_some_iff.mp hh).1 rfl ?_ (fun j hj => Function.update_of_ne hj ..)
      (h.queues _ (List.mem_of_getElem? hh))
    show SessionOk p.2 (t.setOut i _ i)
    rw [setOut_self]
    exact sessionOk_resume (h.sessions i s (Node.session?_of_handle hh)) hp hheld
  | write i hline hcredit =>
    exact inv_of_out h (fun s hok => sessionOk_write hok hline) fun hempty => absurd hempty.1 hline
  | reads i messages =>
    exact inv_of_out h (fun s hok => ⟨hok.slot, hok.early, hok.held, hok.dead⟩) id

theorem run_inv {core : AppCore x} {es : List DispatchingEvent} (hrun : run (step ar) (initial core) es = some t) :
    Inv t :=
  run_invariant (P := Inv) ⟨fun i s hs => by simp [Node.session?, initial, Node.initial] at hs, fun _ _ => ⟨rfl, rfl⟩,
    fun h hh => by simp [initial, Node.initial] at hh⟩ (fun _ _ _ => step_inv) es t hrun

end Dispatching

end ScreenLink

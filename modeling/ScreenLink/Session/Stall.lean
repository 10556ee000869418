import ScreenLink.Session.Dispatch

/-!
# A session that leaves the dispatcher waiting

A session that awaits its peer takes no command by itself, whatever it does (`awaitsPeer_of_local`). Any other session
does, or returns: its main task goes on once enough of what it waits behind has been written (`exists_resumed`), and
from each phase after the Hello there is a way to the two loops that take commands. So the dispatcher waits for a
peer if and only if it faces the full queue of a session that awaits it (`dispatcher_stalls_iff`); an inbound connection
that never sends its Hello, and 17 commands, are enough (`snapHomes_stall`).
-/

namespace ScreenLink

open Machine BoundedChannel

namespace Phase

theorem awaitsHello_of_alone {trusted : String → Bool} {p p' : Phase} {event : SessionEvent}
    (h : p.Moves trusted event p') (hp : p.awaitsHello = true) (hrecv : ∀ msg, event ≠ .recv msg)
    (hclosed : ∀ err, event ≠ .closed err) : p'.awaitsHello = true := by
  cases h with
  | sayHello => rfl
  | thread p event hthread => exact hp
  | startFailed err | helloFailed err => exact absurd rfl (hclosed err)
  | helloRefused msg err => exact absurd rfl (hrecv msg)
  | greeted info => exact absurd rfl (hrecv _)
  | _ => cases hp

theorem takes_of_moves {trusted : String → Bool} {p p' : Phase} {cmd : SessionCmd} {epoch : BitVec 64}
    (h : p.Moves trusted (.cmd cmd epoch) p') : (∃ info st, p = .pairing info st) ∨ ∃ info, p = .running info := by
  cases h with
  | thread p event hthread => cases hthread
  | running info event hloop | leave info event hloop => exact Or.inr ⟨info, rfl⟩
  | localConfirm info st | otherCmd info st | pairingFailed info st => exact Or.inl ⟨info, st, rfl⟩

end Phase

namespace Dispatching

variable {x : Crates} {ar : Arith} {t u : Dispatching x} {e : DispatchingEvent} {i : ℕ} {s s' : Session} {name : String}
  {queue : List Queued} {event : SessionEvent} {o : Outgoing} {core : AppCore x} {p : AppCore x × Session}

/-! ### Sessions that await their peer -/

theorem thread_step (hp : s.step ar core event = some p) (hthread : event.task ≠ some .main)
    (hdied : event ≠ .writerDied) : p.2.phase = s.phase ∧ p.2.role = s.role ∧ p.2.writer = s.writer := by
  have hdown : event ≠ .teardown := by
    rintro rfl
    exact hthread rfl
  obtain ⟨msgs, -, -, -, hwriter⟩ := Session.says_of_step hp hdied hdown
  exact ⟨phase_of_thread hp hthread, (Session.step_const hp).1, hwriter⟩

@[simp] theorem send_zero : o.send event 0 true = o := by
  unfold Outgoing.send
  simp

theorem needed_append {more : List OutTask} (hphase : s'.phase = s.phase) (hrole : s'.role = s.role)
    (hmore : .main ∉ more) : needed s o ≤ needed s' { o with line := o.line ++ more } := by
  have hcompletes : ∀ event, s'.completes event = s.completes event := by
    intro event
    unfold Session.completes
    rw [hphase]
  have hupcoming : s'.upcoming = s.upcoming := by
    unfold Session.upcoming
    rw [hphase, hrole]
  unfold needed
  dsimp only
  cases o.held with
  | none =>
    dsimp only
    rw [hupcoming, List.length_append]
    split_ifs <;> omega
  | some event =>
    dsimp only
    rw [hcompletes, hrole, upTo_append_of_notMem hmore, List.length_append]
    split_ifs <;> omega

theorem needed_write (hline : o.line ≠ []) : needed s o ≤ needed s o.write + 1 := by
  have hlength : o.line.tail.length + 1 = o.line.length := by
    rw [List.length_tail]
    exact Nat.sub_add_cancel (List.length_pos_iff.mpr hline)
  have hupTo := upTo_tail .main o.line
  unfold needed Outgoing.write
  dsimp only
  cases o.held with
  | none =>
    dsimp only
    split_ifs <;> omega
  | some event =>
    dsimp only
    split_ifs <;> omega

theorem upcoming_le (s : Session) : s.upcoming ≤ 2 := by
  unfold Session.upcoming
  split
  · split_ifs <;> omega
  · split_ifs <;> omega
  · exact Nat.zero_le 2

theorem writer_of_needed (hok : SessionOk s o) (hneeds : OUTBOX + o.credit < needed s o) : s.writer = true := by
  by_contra hdead
  have hline := hok.dead (Bool.eq_false_iff.mpr hdead)
  have hupcoming := upcoming_le s
  unfold needed at hneeds
  rw [hline] at hneeds
  unfold OUTBOX at hneeds
  cases hheld : o.held with
  | none =>
    rw [hheld] at hneeds
    dsimp only at hneeds
    split_ifs at hneeds
    · simp at hneeds
    · simp at hneeds
      omega
  | some event =>
    rw [hheld] at hneeds
    dsimp only at hneeds
    split_ifs at hneeds <;> simp [upTo] at hneeds
    omega

theorem awaitsPeer_iff (hs : t.node.session? i = some s) : t.AwaitsPeer i ↔ Awaits s (t.out i) := by
  unfold AwaitsPeer
  rw [hs]

theorem upcoming_ne_zero (h : s.upcoming ≠ 0) :
    ((∃ info, s.phase = .paired info) ∨ ∃ info, s.phase = .authenticated info) ∧ s.role.controls = true ∧
      s.upcoming = 2 := by
  unfold Session.upcoming at h ⊢
  split at h
  · rename_i info hs
    split_ifs at h with hrole
    · exact ⟨Or.inl ⟨info, hs⟩, hrole, if_pos hrole⟩
    · exact absurd rfl h
  · rename_i info hs
    split_ifs at h with hrole
    · exact ⟨Or.inr ⟨info, hs⟩, hrole, if_pos hrole⟩
    · exact absurd rfl h
  · exact absurd rfl h

theorem needed_of_idle (hheld : o.held = none) (hneeds : OUTBOX + o.credit < needed s o) :
    ((∃ info, s.phase = .paired info) ∨ ∃ info, s.phase = .authenticated info) ∧ s.role.controls = true ∧
      OUTBOX + o.credit < o.line.length + 2 := by
  unfold needed at hneeds
  rw [hheld] at hneeds
  dsimp only at hneeds
  split_ifs at hneeds with hzero
  · omega
  · obtain ⟨hphase, hrole, htwo⟩ := upcoming_ne_zero hzero
    exact ⟨hphase, hrole, htwo ▸ hneeds⟩

theorem needed_of_upcoming (hheld : o.held = none)
    (hphase : (∃ info, s.phase = .paired info) ∨ ∃ info, s.phase = .authenticated info)
    (hrole : s.role.controls = true) : needed s o = o.line.length + 2 := by
  have htwo : s.upcoming = 2 := by
    rcases hphase with ⟨info, hs⟩ | ⟨info, hs⟩ <;> simp [Session.upcoming, hs, hrole]
  unfold needed
  rw [hheld]
  simp [htwo]

theorem not_finished_of_awaits (hok : SessionOk s o) (hawaits : Awaits s o) : s.phase.finished = false := by
  rcases hawaits with hhello | hneeds
  · cases hs : s.phase <;> simp [hs, Phase.awaitsHello, Phase.finished] at hhello ⊢
  · cases hheld : o.held with
    | none =>
      obtain ⟨hphase, -⟩ := needed_of_idle hheld hneeds
      rcases hphase with ⟨info, hs⟩ | ⟨info, hs⟩ <;> rw [hs] <;> rfl
    | some event =>
      have hholds := hok.held event hheld
      cases hs : s.phase <;> simp [Session.Holds, hs, Phase.finished] at hholds ⊢

theorem held_of_free (hfree : o.free event = true) (hmain : event.task = some .main) : o.held = none := by
  simpa [Outgoing.free, hmain] using hfree

theorem thread_of_task (hmain : event.task = some .main) : event.ofThread = false := by
  cases event with
  | host | hostExit | clipboard | clipExit | sender | writerDied => cases hmain
  | _ => rfl

theorem step_of_paired {info : DeviceInfo} (hp : s.step ar core event = some p) (hs : s.phase = .paired info)
    (hmain : event.task = some .main) (halone : event.alone = true) :
    event = .store none ∧ p.2.phase = .authenticated info ∧ p.2.role = s.role ∧ p.2.writer = s.writer ∧
      s.sent p = 0 := by
  have hmoves := Session.step_moves hp
  rw [hs] at hmoves
  have hstore : event = .store none := by
    generalize p.2.phase = q at hmoves
    cases hmoves with
    | stored info => rfl
    | storeFailed info err => cases halone
    | thread p event hthread => cases (thread_of_task hmain).symm.trans hthread
  subst hstore
  cases Session.steps_of_step hp with
  | store info' err hs' =>
    cases hs.symm.trans hs'
    exact ⟨rfl, rfl, rfl, rfl, Session.sent_eq_zero rfl⟩

theorem step_of_authenticated {info : DeviceInfo} (hp : s.step ar core event = some p)
    (hs : s.phase = .authenticated info) (hmain : event.task = some .main) (halone : event.alone = true) :
    ∃ epoch desktop, event = .wire epoch desktop none := by
  have hmoves := Session.step_moves hp
  rw [hs] at hmoves
  generalize p.2.phase = q at hmoves
  cases hmoves with
  | wired info epoch desktop err =>
    cases err with
    | none => exact ⟨epoch, desktop, rfl⟩
    | some err => cases halone
  | wireFailed info epoch desktop err => cases halone
  | thread p event hthread => cases (thread_of_task hmain).symm.trans hthread

theorem notMem_replicate (hp : s.step ar core event = some p) (hmain : event.task ≠ some .main)
    (hdied : event ≠ .writerDied) : OutTask.main ∉ List.replicate (s.sent p) (event.task.getD .main) := by
  intro hmem
  obtain ⟨hsent, htask⟩ := List.mem_replicate.mp hmem
  cases htask' : event.task with
  | some task =>
    rw [htask'] at htask hmain
    exact hmain (congrArg some htask.symm)
  | none =>
    refine hsent ?_
    cases Session.steps_of_step hp with
    | sender i ev t t' ht hstep => exact Session.sent_eq_zero rfl
    | writerDied hslot => exact absurd rfl hdied
    | _ => cases htask'

/-- What the session does alone, and has room for, leaves it awaiting its peer, -/
theorem awaits_done (hok : SessionOk s o) (hawaits : Awaits s o) (hfree : o.free event = true)
    (halone : event.alone = true) (hp : s.step ar core event = some p)
    (hroom : event.task = some .main → 0 < s.sent p → o.line.length + s.sent p ≤ OUTBOX) :
    Awaits p.2 (o.send event (s.sent p) p.2.writer) := by
  have hmoves := Session.step_moves hp
  rcases hawaits with hhello | hneeds
  · left
    refine Phase.awaitsHello_of_alone hmoves hhello ?_ ?_
    · rintro msg rfl
      cases halone
    · rintro err rfl
      cases halone
  · right
    have hwriter := writer_of_needed hok hneeds
    have hdied : event ≠ .writerDied := by
      rintro rfl
      cases halone
    by_cases hmain : event.task = some .main
    · have hheld := held_of_free hfree hmain
      obtain ⟨hphase, hrole, hline⟩ := needed_of_idle hheld hneeds
      rcases hphase with ⟨info, hs⟩ | ⟨info, hs⟩
      · obtain ⟨rfl, hphase, hrole', hwriter', hsent⟩ := step_of_paired hp hs hmain halone
        rw [hwriter', hwriter, hsent, send_zero, needed_of_upcoming hheld (Or.inr ⟨info, hphase⟩) (hrole' ▸ hrole)]
        exact hline
      · obtain ⟨epoch, desktop, rfl⟩ := step_of_authenticated hp hs hmain halone
        have hslot := hok.slot.named info.id.id (by rw [hs]; rfl)
        have hsent := Session.sent_wire hp hwriter (by rw [hslot]; rfl)
        rw [if_pos hrole] at hsent
        have := hroom rfl (by omega)
        omega
    · obtain ⟨hphase, hrole, hwriter'⟩ := thread_step hp hmain hdied
      have hmore := notMem_replicate hp hmain hdied
      rw [hwriter', hwriter]
      exact hneeds.trans_le (needed_append hphase hrole hmore)

/-- and so does what it has no room for. -/
theorem awaits_held (hok : SessionOk s o) (hawaits : Awaits s o) (hfree : o.free event = true)
    (halone : event.alone = true) (hclosed : event ≠ .cmdClosed) (hp : s.step ar core event = some p)
    (hmain : event.task = some .main) (hsent : 0 < s.sent p) (hroom : OUTBOX < o.line.length + s.sent p) :
    Awaits s (o.hold event (s.sent p)) := by
  have hnext := sessionOk_held hok hp hmain hclosed hsent hroom
  right
  rcases hawaits with hhello | hneeds
  · have hearly : s.phase.early = true := by
      cases hs : s.phase <;> simp [hs, Phase.awaitsHello, Phase.early] at hhello ⊢
    cases (hnext.early hearly).2.2.2
  · obtain ⟨hphase, hrole, hline⟩ := needed_of_idle (held_of_free hfree hmain) hneeds
    have hholds := hnext.held event rfl
    rcases hphase with ⟨info, hs⟩ | ⟨info, hs⟩
    · simp [Session.Holds, hs] at hholds
    · obtain ⟨epoch, desktop, rfl⟩ := step_of_authenticated hp hs hmain halone
      have hslot := hok.slot.named info.id.id (by rw [hs]; rfl)
      have htwo := Session.sent_wire hp (writer_of_needed hok hneeds) (by rw [hslot]; rfl)
      rw [if_pos hrole] at htwo
      unfold needed Outgoing.hold
      dsimp only
      rw [upTo_append_replicate hsent, htwo]
      exact hline.trans_le (le_max_left ..)

theorem step_of_completes (hp : s.step ar core event = some p) (hcompletes : s.completes event = true) :
    (∃ info, p.2.phase = .paired info) ∧ p.2.role = s.role ∧ p.2.writer = s.writer := by
  unfold Session.completes at hcompletes
  split at hcompletes
  · rename_i epoch info st hs
    cases Session.steps_of_step hp with
    | pairingCmd info' st' cmd epoch' hs' =>
      cases hs.symm.trans hs'
      refine ⟨⟨info, ?_⟩, rfl, rfl⟩
      show Session.afterSelect info st.confirmLocal = .paired info
      rw [Session.afterSelect, if_pos hcompletes]
    | runningCmd info' cmd epoch' hs' => cases hs.symm.trans hs'
  · cases hcompletes

theorem awaits_resume (hok : SessionOk s o) (hawaits : Awaits s o) (hheld : o.held = some event)
    (hroom : ¬ Waits OUTBOX o.line .main) (hp : s.step ar core event = some p) :
    Awaits p.2 (o.resume p.2.writer) := by
  have hholds := hok.held event hheld
  right
  rcases hawaits with hhello | hneeds
  · cases hs : s.phase <;> simp [hs, Phase.awaitsHello, Session.Holds] at hhello hholds
  · have hwriter := writer_of_needed hok hneeds
    have hneeds' := hneeds
    rw [waits_iff] at hroom
    unfold needed at hneeds
    rw [hheld] at hneeds
    dsimp only at hneeds
    split_ifs at hneeds with hcompletes
    · rw [Bool.and_eq_true] at hcompletes
      obtain ⟨hphase, hrole, hwriter'⟩ := step_of_completes hp hcompletes.1
      rw [hwriter', hwriter, needed_of_upcoming rfl (Or.inl hphase) (hrole ▸ hcompletes.2)]
      show OUTBOX + o.credit < o.line.length + 2
      omega
    · omega

theorem awaits_write (hawaits : Awaits s o) (hline : o.line ≠ []) (hcredit : 0 < o.credit) : Awaits s o.write := by
  rcases hawaits with hhello | hneeds
  · exact Or.inl hhello
  · right
    have := needed_write (s := s) hline
    unfold Outgoing.write at this ⊢
    dsimp only at this ⊢
    omega

theorem Acts.step (h : Acts ar t i s name queue event u) : ∃ p, s.step ar t.node.core event = some p := by
  cases h with
  | done p hp hroom => exact ⟨p, hp⟩
  | held p hp hmain hsent hroom => exact ⟨p, hp⟩

theorem not_awaits_of_takes {cmd : SessionCmd} {epoch : BitVec 64} (hheld : o.held = none)
    (hp : s.step ar core (.cmd cmd epoch) = some p) : ¬ Awaits s o := by
  rintro (hhello | hneeds)
  · rcases Phase.takes_of_moves (Session.step_moves hp) with ⟨info, st, hs⟩ | ⟨info, hs⟩
    · simp [hs, Phase.awaitsHello] at hhello
    · simp [hs, Phase.awaitsHello] at hhello
  · have hphase := (needed_of_idle hheld hneeds).1
    rcases Phase.takes_of_moves (Session.step_moves hp) with ⟨info, st, hs⟩ | ⟨info, hs⟩
    · simp [hs] at hphase
    · simp [hs] at hphase

/-- Without its peer, a session that awaits it comes to nothing else. -/
theorem awaitsPeer_of_local (hinv : Inv t) (hfaces : t.Faces i) (hawaits : t.AwaitsPeer i) (hlocal : Local i e)
    (hstep : step ar t e = some u) : u.Faces i ∧ u.AwaitsPeer i := by
  have hsession : ∀ {s : Session} {name : String} {queue : List Queued},
      t.node.handles[i]? = some ⟨.session s, name, queue⟩ → SessionOk s (t.out i) ∧ Awaits s (t.out i) := by
    intro s name queue hh
    have hs := Node.session?_of_handle hh
    exact ⟨hinv.sessions i s hs, (awaitsPeer_iff hs).mp hawaits⟩
  -- the dispatcher still faces the queue when the session's own state does not let it go
  have hnext : ∀ {s s' : Session} {name : String} {queue : List Queued},
      t.node.handles[i]? = some ⟨.session s, name, queue⟩ → u.node.handles[i]? = some ⟨.session s', name, queue⟩ →
      u.node.dispatch = t.node.dispatch → Awaits s' (u.out i) → u.Faces i ∧ u.AwaitsPeer i := by
    intro s s' name queue hh hu hdispatch hawaits'
    have hs' := Node.session?_of_handle hu
    obtain ⟨cmd, rest, hd, h, hh', hclosed, hfull⟩ := hfaces
    cases hh.symm.trans hh'
    have hopen := not_finished_of_awaits ((step_inv hinv hstep).sessions i s' hs') hawaits'
    exact ⟨⟨cmd, rest, hdispatch.trans hd, _, hu, hopen, hfull⟩, (awaitsPeer_iff hs').mpr hawaits'⟩
  cases steps_of_step hstep with
  | node event node hidle hnode => exact hlocal.elim
  | reads j messages => exact hlocal.elim
  | session j event s name queue u hh hevent hfree hacts =>
    obtain ⟨rfl, halone⟩ := hlocal
    obtain ⟨hok, hwaits⟩ := hsession hh
    have hlt := (List.getElem?_eq_some_iff.mp hh).1
    cases hacts with
    | done p hp hroom =>
      refine hnext hh (List.getElem?_set_self hlt) rfl ?_
      show Awaits p.2 (t.setOut j _ j)
      rw [setOut_self]
      exact awaits_done hok hwaits hfree halone hp hroom
    | held p hp hmain hsent hroom =>
      refine hnext hh (List.getElem?_set_self hlt) rfl ?_
      show Awaits s (t.setOut j _ j)
      rw [setOut_self]
      exact awaits_held hok hwaits hfree halone hevent.2 hp hmain hsent hroom
  | command j epoch s name q queue u hh hfree hacts =>
    obtain rfl : j = i := hlocal
    obtain ⟨p, hp⟩ := hacts.step
    exact absurd (hsession hh).2 (not_awaits_of_takes (held_of_free hfree rfl) hp)
  | resume j s name queue event p hh hheld hroom hp =>
    obtain rfl : j = i := hlocal
    obtain ⟨hok, hwaits⟩ := hsession hh
    refine hnext hh (List.getElem?_set_self (List.getElem?_eq_some_iff.mp hh).1) rfl ?_
    show Awaits p.2 (t.setOut j _ j)
    rw [setOut_self]
    exact awaits_resume hok hwaits hheld hroom hp
  | write j hline hcredit =>
    obtain rfl : j = i := hlocal
    cases hs : t.node.session? j with
    | none => exact absurd (hinv.idle j hs).1 hline
    | some s =>
      obtain ⟨⟨task, name, queue⟩, hh, htask⟩ := Node.session?_eq_some.mp hs
      have hh' : t.node.handles[j]? = some ⟨.session s, name, queue⟩ := by
        cases task with
        | session r =>
          cases htask
          exact hh
        | _ => cases htask
      refine hnext hh' hh' rfl ?_
      show Awaits s (t.setOut j _ j)
      rw [setOut_self]
      exact awaits_write (hsession hh').2 hline hcredit

/-- The dispatcher waits for such a session until its peer does something, or a failure ends it. -/
theorem not_drains (hinv : Inv t) (hfaces : t.Faces i) (hawaits : t.AwaitsPeer i) : ¬ t.Drains ar i := by
  rintro ⟨es, u, hlocal, hrun, hnot⟩
  have hkept : (∀ e ∈ es, Local i e) → Inv u ∧ u.Faces i ∧ u.AwaitsPeer i := by
    refine run_induction (P := fun es u => (∀ e ∈ es, Local i e) → Inv u ∧ u.Faces i ∧ u.AwaitsPeer i)
      (fun _ => ⟨hinv, hfaces, hawaits⟩) ?_ es u hrun
    intro es v e w hv ih hw hlocal
    obtain ⟨hinv, hfaces, hawaits⟩ := ih fun e he => hlocal e (List.mem_append_left _ he)
    exact ⟨step_inv hinv hw, awaitsPeer_of_local hinv hfaces hawaits (hlocal e (by simp)) hw⟩
  exact hnot (hkept hlocal).2.1

/-! ### Sessions that drain -/

theorem Drains.of_step (hlocal : Local i e) (hstep : step ar t e = some u) (h : u.Drains ar i) : t.Drains ar i := by
  obtain ⟨es, v, hes, hrun, hnot⟩ := h
  refine ⟨e :: es, v, List.forall_mem_cons.mpr ⟨hlocal, hes⟩, ?_, hnot⟩
  rw [run, hstep, Option.bind_some, hrun]

theorem drains_of_handle {h : Handle} (hh : t.node.handles[i]? = some h)
    (hnot : h.closed = true ∨ h.queue.length < Node.QUEUE) : t.Drains ar i := by
  refine ⟨[], t, fun e he => absurd he List.not_mem_nil, rfl, ?_⟩
  rintro ⟨cmd, rest, -, h', hh', hopen, hfull⟩
  cases hh.symm.trans hh'
  rcases hnot with hclosed | hroom
  · exact Bool.noConfusion (hclosed.symm.trans hopen)
  · exact hroom.not_ge hfull

theorem out_of_acts (hi : i < t.node.handles.length) (hacts : Acts ar t i s name queue event u) :
    ∃ p, s.step ar t.node.core event = some p ∧
      ((u.node.handles[i]? = some ⟨.session p.2, name, queue⟩ ∧
          u.out i = (t.out i).send event (s.sent p) p.2.writer) ∨
        (u.node.handles[i]? = some ⟨.session s, name, queue⟩ ∧ u.out i = (t.out i).hold event (s.sent p) ∧
          0 < s.sent p ∧ OUTBOX < (t.out i).line.length + s.sent p)) := by
  cases hacts with
  | done p hp hroom => exact ⟨p, hp, Or.inl ⟨List.getElem?_set_self hi, setOut_self⟩⟩
  | held p hp hmain hsent hroom => exact ⟨p, hp, Or.inr ⟨List.getElem?_set_self hi, setOut_self, hsent, hroom⟩⟩

theorem exists_act (hfree : (t.out i).free event = true) (hp : s.step ar t.node.core event = some p) :
    ∃ u, t.act ar i s name queue event = some u := by
  unfold act
  rw [hfree, hp]
  exact ⟨_, rfl⟩

theorem exists_session (hh : t.node.handles[i]? = some ⟨.session s, name, queue⟩)
    (hfree : (t.out i).free event = true) (hp : s.step ar t.node.core event = some p)
    (hevent : (∀ cmd epoch, event ≠ .cmd cmd epoch) ∧ event ≠ .cmdClosed) :
    ∃ u, step ar t (.session i event) = some u ∧ Acts ar t i s name queue event u := by
  obtain ⟨u, hu⟩ : ∃ u, t.act ar i s name queue event = some u := exists_act hfree hp
  refine ⟨u, ?_, (acts_of_act hu).2⟩
  cases event with
  | cmd cmd epoch => exact absurd rfl (hevent.1 cmd epoch)
  | cmdClosed => exact absurd rfl hevent.2
  | _ =>
    simp only [step, hh]
    exact hu

theorem exists_command {q : Queued} {epoch : BitVec 64}
    (hh : t.node.handles[i]? = some ⟨.session s, name, q :: queue⟩) (hheld : (t.out i).held = none)
    (hp : s.step ar t.node.core (.cmd q.cmd epoch) = some p) :
    ∃ u, step ar t (.command i epoch) = some u ∧ Acts ar t i s name queue (.cmd q.cmd epoch) u := by
  have hfree : (t.out i).free (.cmd q.cmd epoch) = true := by simp [Outgoing.free, SessionEvent.task, hheld]
  obtain ⟨u, hu⟩ : ∃ u, t.act ar i s name queue (.cmd q.cmd epoch) = some u := exists_act hfree hp
  refine ⟨u, ?_, (acts_of_act hu).2⟩
  simp only [step, hh]
  exact hu

theorem drains_of_takes (hinv : Inv t) (hh : t.node.handles[i]? = some ⟨.session s, name, queue⟩)
    (hheld : (t.out i).held = none)
    (htakes : (∃ info st, s.phase = .pairing info st) ∨ ∃ info, s.phase = .running info) : t.Drains ar i := by
  cases queue with
  | nil => exact drains_of_handle hh (Or.inr (Nat.zero_lt_succ _))
  | cons q queue =>
    obtain ⟨p, hp⟩ : ∃ p, s.step ar t.node.core (.cmd q.cmd 0) = some p := by
      rcases htakes with ⟨info, st, hs⟩ | ⟨info, hs⟩
      · exact ⟨Session.pairingCmd t.node.core s info st q.cmd, by simp only [Session.step, hs]⟩
      · exact ⟨Session.runningCmd t.node.core s info q.cmd 0, by simp only [Session.step, hs]⟩
    obtain ⟨u, hu, hacts⟩ := exists_command hh hheld hp
    have hlt := (List.getElem?_eq_some_iff.mp hh).1
    have hroom : queue.length < Node.QUEUE := hinv.queues _ (List.mem_of_getElem? hh)
    refine Drains.of_step (e := .command i 0) rfl hu ?_
    obtain ⟨p', -, ⟨hhu, -⟩ | ⟨hhu, -⟩⟩ := out_of_acts hlt hacts
    · exact drains_of_handle hhu (Or.inr hroom)
    · exact drains_of_handle hhu (Or.inr hroom)

theorem exists_done (hh : t.node.handles[i]? = some ⟨.session s, name, queue⟩) (hheld : (t.out i).held = none)
    (hp : s.step ar t.node.core event = some p) (hmain : event.task = some .main)
    (hevent : (∀ cmd epoch, event ≠ .cmd cmd epoch) ∧ event ≠ .cmdClosed)
    (hroom : 0 < s.sent p → (t.out i).line.length + s.sent p ≤ OUTBOX) :
    ∃ u, step ar t (.session i event) = some u ∧ u.node.handles[i]? = some ⟨.session p.2, name, queue⟩ ∧
      u.out i = (t.out i).send event (s.sent p) p.2.writer := by
  have hfree : (t.out i).free event = true := by simp [Outgoing.free, hmain, hheld]
  obtain ⟨u, hu, hacts⟩ := exists_session hh hfree hp hevent
  obtain ⟨p', hp', hdone | ⟨-, -, hsent, hfull⟩⟩ := out_of_acts (List.getElem?_eq_some_iff.mp hh).1 hacts
  · cases hp.symm.trans hp'
    exact ⟨u, hu, hdone⟩
  · cases hp.symm.trans hp'
    exact absurd (hroom hsent) hfull.not_ge

/-- The main task goes on once what it waits behind has been written. -/
theorem exists_resumed (ar : Arith) (hinv : Inv t) (hh : t.node.handles[i]? = some ⟨.session s, name, queue⟩)
    (hheld : (t.out i).held = some event) (hcredit : upTo .main (t.out i).line ≤ OUTBOX + (t.out i).credit) :
    ∃ (u : Dispatching x) (p : AppCore x × Session), (u.Drains ar i → t.Drains ar i) ∧ Inv u ∧
      s.step ar t.node.core event = some p ∧
      u.node.handles[i]? = some ⟨.session p.2, name, queue⟩ ∧ (u.out i).held = none ∧
      ((t.out i).line.length + 2 ≤ OUTBOX + (t.out i).credit →
        (u.out i).line.length + 2 ≤ OUTBOX + (u.out i).credit) := by
  induction hk : upTo .main (t.out i).line - OUTBOX generalizing t with
  | zero =>
    have hroom : ¬ Waits OUTBOX (t.out i).line .main := by
      rw [waits_iff]
      omega
    have hholds := (hinv.sessions i s (Node.session?_of_handle hh)).held event hheld
    obtain ⟨p, hp⟩ : ∃ p, s.step ar t.node.core event = some p :=
      Option.isSome_iff_exists.mp (Session.step_isSome_of_holds hholds)
    have hstep : step ar t (.resume i) = some ⟨t.node.afterStep i name s queue event p,
        t.setOut i ((t.out i).resume p.2.writer)⟩ := by
      simp only [step, hh, hheld]
      rw [if_neg hroom, hp]
      rfl
    refine ⟨_, p, Drains.of_step (e := .resume i) rfl hstep, step_inv hinv hstep, hp,
      List.getElem?_set_self (List.getElem?_eq_some_iff.mp hh).1, ?_, ?_⟩
    · show (t.setOut i _ i).held = none
      rw [setOut_self]
      rfl
    · intro hline
      show (t.setOut i _ i).line.length + 2 ≤ OUTBOX + (t.setOut i _ i).credit
      rw [setOut_self]
      unfold Outgoing.resume OUTBOX at *
      dsimp only
      split_ifs
      · exact hline
      · rw [List.length_nil]
        omega
  | succ k ih =>
    have hlength := upTo_le_length .main (t.out i).line
    have hline : (t.out i).line ≠ [] := by
      intro hnil
      rw [hnil, upTo] at hk
      omega
    have hpos : 0 < (t.out i).credit := by omega
    have hstep : step ar t (.write i) = some { t with out := t.setOut i (t.out i).write } := by
      simp only [step]
      rw [if_neg (by simp [hline, hpos.ne'])]
    have hout : ({ t with out := t.setOut i (t.out i).write } : Dispatching x).out i = (t.out i).write := setOut_self
    have htail := upTo_tail .main (t.out i).line
    obtain ⟨u, p, hdrains, hinv', hp, hu, hnone, hsmall⟩ := ih (t := { t with out := t.setOut i (t.out i).write })
      (step_inv hinv hstep) hh (by rw [hout]; exact hheld) (by rw [hout]; unfold Outgoing.write; dsimp only; omega)
      (by rw [hout]; unfold Outgoing.write; dsimp only; omega)
    refine ⟨u, p, fun h => Drains.of_step (e := .write i) rfl hstep (hdrains h), hinv', hp, hu, hnone, fun hline' => ?_⟩
    refine hsmall ?_
    rw [hout]
    unfold Outgoing.write
    dsimp only
    rw [List.length_tail]
    omega

theorem drains_of_closing {info : DeviceInfo} {result : Option SessionError}
    (hh : t.node.handles[i]? = some ⟨.session s, name, queue⟩) (hheld : (t.out i).held = none)
    (hs : s.phase = .closing info result) : t.Drains ar i := by
  have hp : s.step ar t.node.core .teardown = some (Session.teardown t.node.core s info result) := by
    simp only [Session.step, hs]
  obtain ⟨u, hu, hhu, -⟩ := exists_done hh hheld hp rfl ⟨by simp, by simp⟩ fun hsent =>
    absurd (Session.sent_eq_zero (by rfl)) hsent.ne'
  exact Drains.of_step (e := .session i .teardown) ⟨rfl, rfl⟩ hu (drains_of_handle hhu (Or.inl rfl))

theorem running_of_wire {epoch : BitVec 64} {desktop : Rect} (hp : s.step ar core (.wire epoch desktop none) = some p) :
    ∃ info, p.2.phase = .running info := by
  cases Session.steps_of_step hp with
  | wire info epoch desktop err hs =>
    refine ⟨info, ?_⟩
    unfold Session.wire
    dsimp only
    split <;> rfl

theorem drains_of_authenticated {info : DeviceInfo} (hinv : Inv t)
    (hh : t.node.handles[i]? = some ⟨.session s, name, queue⟩) (hheld : (t.out i).held = none)
    (hs : s.phase = .authenticated info)
    (hroom : s.role.controls = true → (t.out i).line.length + 2 ≤ OUTBOX + (t.out i).credit) : t.Drains ar i := by
  have hfree : (t.out i).free (.wire 0 ⟨0, 0, 1920, 1080⟩ none) = true := by
    simp [Outgoing.free, SessionEvent.task, hheld]
  have hp : s.step ar t.node.core (.wire 0 ⟨0, 0, 1920, 1080⟩ none) =
      some (Session.wire t.node.core s info 0 ⟨0, 0, 1920, 1080⟩ none) := by
    simp only [Session.step, hs]
  obtain ⟨u, hu, hacts⟩ := exists_session hh hfree hp ⟨by simp, by simp⟩
  refine Drains.of_step (e := .session i _) ⟨rfl, rfl⟩ hu ?_
  have hinv' := step_inv hinv hu
  have hok := hinv.sessions i s (Node.session?_of_handle hh)
  obtain ⟨p, hp', ⟨hhu, hout⟩ | ⟨hhu, hout, hsent, hfull⟩⟩ := out_of_acts (List.getElem?_eq_some_iff.mp hh).1 hacts
  · refine drains_of_takes hinv' hhu ?_ (Or.inr (running_of_wire hp'))
    rw [hout]
    exact hheld
  · have hwriter : s.writer = true := by
      by_contra hdead
      exact hsent.ne' (Session.sent_eq_zero_of_writer hp' (Bool.eq_false_iff.mpr hdead))
    have hslot := hok.slot.named info.id.id (by rw [hs]; rfl)
    have htwo := Session.sent_wire hp' hwriter (by rw [hslot]; rfl)
    have hrole : s.role.controls = true := by
      by_contra hrole
      rw [if_neg hrole] at htwo
      omega
    rw [if_pos hrole] at htwo
    have hcredit := hroom hrole
    -- the main task waits behind its own two messages
    obtain ⟨v, p', hdrains, hinv'', hp'', hv, hnone, -⟩ := exists_resumed ar hinv' hhu (by rw [hout]; rfl) (by
      rw [hout, Outgoing.hold, upTo_append_replicate hsent, htwo]
      exact hcredit)
    exact hdrains (drains_of_takes hinv'' hv hnone (Or.inr (running_of_wire hp'')))

theorem drains_of_paired {info : DeviceInfo} (hinv : Inv t)
    (hh : t.node.handles[i]? = some ⟨.session s, name, queue⟩) (hheld : (t.out i).held = none)
    (hs : s.phase = .paired info)
    (hroom : s.role.controls = true → (t.out i).line.length + 2 ≤ OUTBOX + (t.out i).credit) : t.Drains ar i := by
  have hp : s.step ar t.node.core (.store none) = some (Session.store t.node.core s info none) := by
    simp only [Session.step, hs]
  have hsent : s.sent (Session.store t.node.core s info none) = 0 := Session.sent_eq_zero rfl
  obtain ⟨u, hu, hhu, hout⟩ := exists_done hh hheld hp rfl ⟨by simp, by simp⟩ fun hpos => by omega
  refine Drains.of_step (e := .session i _) ⟨rfl, rfl⟩ hu ?_
  refine drains_of_authenticated (step_inv hinv hu) hhu ?_ rfl fun hrole => ?_
  · rw [hout]
    exact hheld
  · have hcredit := hroom hrole
    rw [hout, hsent]
    unfold Outgoing.send
    dsimp only
    split_ifs
    · simpa using hcredit
    · simp [OUTBOX]
      omega

theorem drains_of_gate {info : DeviceInfo} (hinv : Inv t)
    (hh : t.node.handles[i]? = some ⟨.session s, name, queue⟩) (hs : s.phase = .gate info) : t.Drains ar i := by
  have hearly : s.phase.early = true := by
    rw [hs]
    rfl
  obtain ⟨hclip, hhost, hline, hheld⟩ := (hinv.sessions i s (Node.session?_of_handle hh)).early hearly
  have hp : s.step ar t.node.core .checkTrust = some (Session.checkTrust t.node.core s info) := by
    simp only [Session.step, hs]
  obtain ⟨-, -, hgrown, -⟩ := Session.early_step hp hearly hclip hhost
  have hsent : s.sent (Session.checkTrust t.node.core s info) ≤ 1 := by
    unfold Session.sent
    split_ifs <;> omega
  obtain ⟨u, hu, hhu, hout⟩ := exists_done hh hheld hp rfl ⟨by simp, by simp⟩ fun _ => by
    rw [hline, List.length_nil, OUTBOX]
    omega
  refine Drains.of_step (e := .session i .checkTrust) ⟨rfl, rfl⟩ hu ?_
  have hnone : (u.out i).held = none := by
    rw [hout]
    exact hheld
  have hinv' := step_inv hinv hu
  have hshort : (u.out i).line.length ≤ 1 := by
    rw [hout]
    unfold Outgoing.send
    dsimp only
    split_ifs
    · simpa [hline] using hsent
    · exact Nat.zero_le 1
  have hphase : (Session.checkTrust t.node.core s info).2.phase = .authenticated info ∨
      (Session.checkTrust t.node.core s info).2.phase = .pairing info {} := by
    unfold Session.checkTrust
    split_ifs
    · exact Or.inl rfl
    · exact Or.inr rfl
  rcases hphase with hs' | hs'
  · refine drains_of_authenticated hinv' hhu hnone hs' fun _ => ?_
    unfold OUTBOX
    omega
  · exact drains_of_takes hinv' hhu hnone (Or.inl ⟨info, _, hs'⟩)

theorem drains_of_greeted {info : DeviceInfo} (hinv : Inv t)
    (hh : t.node.handles[i]? = some ⟨.session s, name, queue⟩) (hs : s.phase = .greeted info) : t.Drains ar i := by
  have hheld := ((hinv.sessions i s (Node.session?_of_handle hh)).early (by rw [hs]; rfl)).2.2.2
  have hp : s.step ar t.node.core .setSlot = some (t.node.core, s.setSlot info) := by
    simp only [Session.step, hs]
  obtain ⟨u, hu, hhu, -⟩ := exists_done hh hheld hp rfl ⟨by simp, by simp⟩ fun hsent =>
    absurd (Session.sent_eq_zero (by rfl)) hsent.ne'
  exact Drains.of_step (e := .session i .setSlot) ⟨rfl, rfl⟩ hu (drains_of_gate (step_inv hinv hu) hhu rfl)

theorem drains_of_idle (hinv : Inv t) (hh : t.node.handles[i]? = some ⟨.session s, name, queue⟩)
    (hheld : (t.out i).held = none) (hhello : s.phase.awaitsHello = false)
    (hroom : ((∃ info, s.phase = .paired info) ∨ ∃ info, s.phase = .authenticated info) → s.role.controls = true →
      (t.out i).line.length + 2 ≤ OUTBOX + (t.out i).credit) : t.Drains ar i := by
  cases hs : s.phase with
  | start | hello => simp [hs, Phase.awaitsHello] at hhello
  | greeted info => exact drains_of_greeted hinv hh hs
  | gate info => exact drains_of_gate hinv hh hs
  | pairing info st => exact drains_of_takes hinv hh hheld (Or.inl ⟨info, st, hs⟩)
  | paired info => exact drains_of_paired hinv hh hheld hs (hroom (Or.inl ⟨info, hs⟩))
  | authenticated info => exact drains_of_authenticated hinv hh hheld hs (hroom (Or.inr ⟨info, hs⟩))
  | running info => exact drains_of_takes hinv hh hheld (Or.inr ⟨info, hs⟩)
  | closing info result => exact drains_of_closing hh hheld hs
  | ended result =>
    refine drains_of_handle hh (Or.inl ?_)
    show s.phase.finished = true
    rw [hs]
    rfl

theorem completes_of_holds (hholds : s.Holds event) (hp : s.step ar core event = some p)
    (hphase : (∃ info, p.2.phase = .paired info) ∨ ∃ info, p.2.phase = .authenticated info) :
    s.completes event = true := by
  have hmoves := Session.step_moves hp
  unfold Session.Holds at hholds
  generalize hq : p.2.phase = q at hmoves hphase
  split at hholds
  case h_1 info st epoch hs =>
    rw [hs] at hmoves
    cases hmoves with
    | localConfirm =>
      unfold Session.afterSelect at hphase
      split_ifs at hphase with hcomplete
      · simp only [Session.completes, hs]
        exact hcomplete
      · simp at hphase
    | otherCmd info st cmd epoch hcmd => exact absurd rfl hcmd.1
    | pairingFailed => simp at hphase
    | thread p event hthread => cases hthread
  case h_2 info st epoch hs | h_3 info st epoch hs =>
    rw [hs] at hmoves
    cases hmoves with
    | otherCmd info st cmd epoch hcmd => simp at hcmd
    | pairingFailed => simp at hphase
    | thread p event hthread => cases hthread
  case h_4 info epoch desktop err hs =>
    rw [hs] at hmoves
    cases hmoves with
    | thread p event hthread => cases hthread
    | _ => simp at hphase
  case h_5 info msg hs | h_6 info cmd epoch hs | h_7 info hs =>
    rw [hs] at hmoves
    cases hmoves with
    | thread p event hthread => cases hthread
    | _ => simp at hphase
  case h_8 => exact hholds.elim

theorem drains_of_not_awaits (hinv : Inv t) (hfaces : t.Faces i) (hnot : ¬ t.AwaitsPeer i) : t.Drains ar i := by
  obtain ⟨cmd, rest, -, ⟨task, name, queue⟩, hh, hopen, -⟩ := hfaces
  cases task with
  | connecting ip edge =>
    refine absurd ?_ hnot
    unfold AwaitsPeer
    rw [Node.session?_of_handle hh]
    trivial
  | connectFailed => cases hopen
  | session s =>
    have hs := Node.session?_of_handle hh
    rw [awaitsPeer_iff hs, Awaits, not_or, Bool.not_eq_true] at hnot
    obtain ⟨hhello, hneeds⟩ := hnot
    cases hheld : (t.out i).held with
    | none =>
      refine drains_of_idle hinv hh hheld hhello fun hphase hrole => ?_
      rw [needed_of_upcoming hheld hphase hrole] at hneeds
      exact Nat.not_lt.mp hneeds
    | some event =>
      have hholds := (hinv.sessions i s hs).held event hheld
      unfold needed at hneeds
      rw [hheld] at hneeds
      dsimp only at hneeds
      obtain ⟨u, p, hdrains, hinv', hp, hu, hnone, hsmall⟩ := exists_resumed ar hinv hh hheld (by omega)
      refine hdrains (drains_of_idle hinv' hu hnone ?_ fun hphase hrole => hsmall ?_)
      · by_contra hback
        rw [Bool.not_eq_false] at hback
        rw [(Phase.awaitsHello_of_moves (Session.step_moves hp) hback).1] at hhello
        cases hhello
      · rw [completes_of_holds hholds hp hphase, (Session.step_const hp).1.symm, hrole] at hneeds
        simp at hneeds
        omega

/-- The dispatcher never waits for a session that its peer alone can move, iff it never waits for one that awaits its
peer. -/
theorem dispatcher_stalls_iff {core : AppCore x} {es : List DispatchingEvent}
    (hrun : run (step ar) (initial core) es = some t) :
    (∀ i, t.Faces i → t.Drains ar i) ↔ ∀ i, t.Faces i → ¬ t.AwaitsPeer i := by
  have hinv := run_inv hrun
  constructor
  · intro hdrains i hfaces hawaits
    exact not_drains hinv hfaces hawaits (hdrains i hfaces)
  · intro hnot i hfaces
    exact drains_of_not_awaits hinv hfaces (hnot i hfaces)

/-- The user wants the control back 17 times. -/
def snapHomes : List DispatchingEvent :=
  (List.replicate 16 [.node (.ui .snapHome), .node .receive, .node .visit, .node .visit, .node .send,
    .node .send]).flatten ++ [.node (.ui .snapHome), .node .receive, .node .visit, .node .visit]

theorem faces_of_full {cmd : Queued} (hd : t.node.dispatch = .sending cmd [i])
    (hh : (t.node.handles[i]?.map fun h => (h.closed, h.queue.length)) = some (false, 16)) : t.Faces i := by
  obtain ⟨h, hh, hfull⟩ := Option.map_eq_some_iff.mp hh
  obtain ⟨hopen, hlength⟩ := Prod.mk.inj hfull
  exact ⟨cmd, [], hd, h, hh, hopen, hlength.ge⟩

/-- A session that is in its main loop takes the 17 commands, -/
theorem dispatcher_stalls_iff_running :
    ∃ t, run (step (x := demoCrates) .exact) (initial (demoCore certBob "bob" [fpAlice]))
      ([.node (.accept (.v4 1) demoKey certAlice), .session 0 .sayHello,
        .session 0 (.recv (.hello PROTOCOL_VERSION (demoCore certAlice "alice" []).deviceInfo)), .session 0 .setSlot,
        .session 0 .checkTrust, .session 0 (.wire 0 ⟨0, 0, 1920, 1080⟩ none)] ++ snapHomes) = some t ∧
    t.Faces 0 ∧ ∀ i, t.Faces i → t.Drains .exact i := by
  obtain ⟨t, ht, hd, hh, hs⟩ : ∃ t, run (step (x := demoCrates) .exact) (initial (demoCore certBob "bob" [fpAlice]))
      ([.node (.accept (.v4 1) demoKey certAlice), .session 0 .sayHello,
        .session 0 (.recv (.hello PROTOCOL_VERSION (demoCore certAlice "alice" []).deviceInfo)), .session 0 .setSlot,
        .session 0 .checkTrust, .session 0 (.wire 0 ⟨0, 0, 1920, 1080⟩ none)] ++ snapHomes) = some t ∧
      t.node.dispatch = .sending ⟨.snapHome, none⟩ [0] ∧
      (t.node.handles[0]?.map fun h => (h.closed, h.queue.length)) = some (false, 16) ∧
      (t.node.session? 0).map (fun s => (s.phase.awaitsHello, needed s (t.out 0))) = some (false, 0) :=
    exists_run (by decide +kernel)
  refine ⟨t, ht, faces_of_full hd hh, (dispatcher_stalls_iff ht).mpr ?_⟩
  rintro i ⟨cmd, rest, hd', -⟩ hawaits
  cases hd.symm.trans hd'
  obtain ⟨s, hs, hvalues⟩ := Option.map_eq_some_iff.mp hs
  obtain ⟨hhello, hneeds⟩ := Prod.mk.inj hvalues
  rw [awaitsPeer_iff hs, Awaits, hhello, hneeds] at hawaits
  simp at hawaits

/-- but at a connection that never sends its Hello the 17th makes the dispatcher wait. -/
theorem snapHomes_stall : ∃ t, run (step (x := demoCrates) .exact) (initial (demoCore certBob "bob" []))
      ([.node (.accept (.v4 1) demoKey certAlice), .session 0 .sayHello] ++ snapHomes) = some t ∧
    t.Faces 0 ∧ ¬ t.Drains .exact 0 := by
  obtain ⟨t, ht, hd, hh, hs⟩ : ∃ t, run (step (x := demoCrates) .exact) (initial (demoCore certBob "bob" []))
      ([.node (.accept (.v4 1) demoKey certAlice), .session 0 .sayHello] ++ snapHomes) = some t ∧
      t.node.dispatch = .sending ⟨.snapHome, none⟩ [0] ∧
      (t.node.handles[0]?.map fun h => (h.closed, h.queue.length)) = some (false, 16) ∧
      (t.node.session? 0).map (fun s => s.phase.awaitsHello) = some true :=
    exists_run (by decide +kernel)
  obtain ⟨s, hs, hhello⟩ := Option.map_eq_some_iff.mp hs
  have hfaces := faces_of_full hd hh
  exact ⟨t, ht, hfaces, not_drains (run_inv ht) hfaces ((awaitsPeer_iff hs).mpr (Or.inl hhello))⟩

end Dispatching

end ScreenLink

import ScreenLink.Session.Route

/-!
# Which session a confirmation reaches

The user answers the prompt of one session, but the answer is routed by the id its peer put into Hello, and it reaches
every session with that id in its slot, or all of them if the id is empty. In a run where the filter never picks
another session that could still be confirmed (`Misdirects`), a confirmation counts for the prompt it answers and for
no other, and it is not lost (`confirm_answers_own_prompt`). A device that repeats the id of an honest one is confirmed
together with it (`impostor_confirmed`).

A session that cannot be confirmed any more stays so (`step_decided`), so what the filter picks is harmless until it is
taken from the queue (`RouteInv`); and an answer is always a waiting command, on its way to its session, in that
session's queue, or counted (`Answered`).
-/

namespace ScreenLink

namespace Phase

/-- `local_confirmed` may still become true. -/
def unconfirmed : Phase → Bool
  | .start | .hello | .greeted _ | .gate _ => true
  | .pairing _ state => !state.localConfirmed
  | _ => false

theorem unconfirmed_afterSelect (info : DeviceInfo) (st : PairingState) :
    (Session.afterSelect info st).unconfirmed = !st.localConfirmed := by
  unfold Session.afterSelect PairingState.isComplete
  cases hlocal : st.localConfirmed
  · simp [unconfirmed, hlocal]
  · cases hremote : st.remoteConfirmed <;> simp [unconfirmed, hlocal]

theorem finished_of_unconfirmed {p : Phase} (h : p.unconfirmed = true) : p.finished = false := by
  cases p <;> simp_all [unconfirmed, finished]

theorem unconfirmed_of_moves {trusted : String → Bool} {p p' : Phase} {event : SessionEvent}
    (h : p.Moves trusted event p') (hp' : p'.unconfirmed = true) :
    p.unconfirmed = true ∧ ∀ epoch, event ≠ .cmd .confirm epoch := by
  cases h with
  | sayHello | greeted | setSlot | untrusted => exact ⟨rfl, by simp⟩
  | remoteBegin info st => exact ⟨by rwa [unconfirmed_afterSelect] at hp', by simp⟩
  | remoteConfirm info st => exact ⟨by rwa [unconfirmed_afterSelect] at hp', by simp⟩
  | localConfirm info st epoch =>
    rw [unconfirmed_afterSelect] at hp'
    cases hp'
  | otherCmd info st cmd epoch hcmd => exact ⟨by rwa [unconfirmed_afterSelect] at hp', by simp [hcmd.1]⟩
  | thread p event hthread =>
    refine ⟨hp', ?_⟩
    rintro epoch rfl
    cases hthread
  | _ => cases hp'

end Phase

/-- The session of the handle, perhaps not there yet, may still be confirmed. -/
def Handle.unconfirmed (h : Handle) : Bool :=
  match h.task with
  | .connecting .. => true
  | .session s => s.phase.unconfirmed
  | .connectFailed => false

/-- The command the dispatcher is routing and its targets so far. -/
def Dispatch.carries : Dispatch → Option (Queued × List ℕ)
  | .filtering _ cmd _ targets | .sending cmd targets => some (cmd, targets)
  | .idle => none

namespace Node

open Machine

variable {x : Crates} {ar : Arith}

/-- `local_confirmed` of a session in its pairing loop becomes true by an answer to another session's prompt. -/
def WrongConfirm (n : Node x) (e : NodeEvent) : Prop :=
  ∃ i epoch, e = .command i epoch ∧
    (∃ s ∈ n.session? i, ∃ info st, s.phase = .pairing info st ∧ st.localConfirmed = false) ∧
    ∃ q, (n.queue i).head? = some q ∧ q.cmd = .confirm ∧ q.answers ≠ some i

instance (n : Node x) (e : NodeEvent) : Decidable (WrongConfirm n e) :=
  match e with
  | .command i _ => match hs : n.session? i, hq : (n.queue i).head? with
    | some s, some q => match hp : s.phase with
      | .pairing _ st => decidable_of_iff (st.localConfirmed = false ∧ q.cmd = .confirm ∧ q.answers ≠ some i)
          (by simp [WrongConfirm, hs, hq, hp])
      | .start | .hello | .greeted _ | .gate _ | .paired _ | .authenticated _ | .running _ | .closing .. | .ended _ =>
        isFalse (by simp [WrongConfirm, hs, hp])
    | none, _ => isFalse (by simp [WrongConfirm, hs])
    | some _, none => isFalse (by simp [WrongConfirm, hq])
  | .ui _ | .confirm _ | .revoke _ | .accept .. | .connected .. | .connectFailed .. | .receive | .visit | .send
  | .session .. | .datagram _ => isFalse (by simp [WrongConfirm])

/-- The filter picks a session that may still be confirmed for the answer to another session's prompt. -/
def Misdirects (n : Node x) (e : NodeEvent) : Prop :=
  e = .visit ∧ ∃ fingerprint cmd i targets h, n.dispatch = .filtering fingerprint cmd i targets ∧
    n.handles[i]? = some h ∧ cmd.cmd = .confirm ∧ cmd.answers ≠ some i ∧ matchesHandle fingerprint h = true ∧
    h.unconfirmed = true

instance (n : Node x) (e : NodeEvent) : Decidable (Misdirects n e) :=
  match e, hd : n.dispatch with
  | .visit, .filtering fingerprint cmd i targets => match hh : n.handles[i]? with
    | some h => decidable_of_iff (cmd.cmd = .confirm ∧ cmd.answers ≠ some i ∧ matchesHandle fingerprint h = true ∧
        h.unconfirmed = true) (by simp [Misdirects, hd, hh])
    | none => isFalse (by simp [Misdirects, hd, hh])
  | .visit, .idle | .visit, .sending _ _ => isFalse (by simp [Misdirects, hd])
  | .ui _, _ | .confirm _, _ | .revoke _, _ | .accept .., _ | .connected .., _ | .connectFailed .., _ | .receive, _
  | .send, _ | .command .., _ | .session .., _ | .datagram _, _ => isFalse (by simp [Misdirects])

/-! ### What is delivered to another session -/

/-- Session `i` is there and can not be confirmed any more. -/
def Decided (n : Node x) (i : ℕ) : Prop := ∃ h, n.handles[i]? = some h ∧ h.unconfirmed = false

theorem decided_set {n n' : Node x} {i k : ℕ} {g h : Handle} (hh : n.handles[k]? = some g)
    (hn' : n'.handles = n.handles.set k h) (hkeep : g.unconfirmed = false → h.unconfirmed = false)
    (hi : Decided n i) : Decided n' i := by
  obtain ⟨t, ht, hdecided⟩ := hi
  unfold Decided
  rw [hn', List.getElem?_set]
  by_cases hki : k = i
  · subst hki
    rw [hh] at ht
    cases ht
    exact ⟨h, by simp [(List.getElem?_eq_some_iff.mp hh).1], hkeep hdecided⟩
  · exact ⟨t, by simp [hki, ht], hdecided⟩

theorem decided_push {n n' : Node x} {i : ℕ} {h : Handle} (hn' : n'.handles = n.handles ++ [h])
    (hi : Decided n i) : Decided n' i := by
  obtain ⟨t, ht, hdecided⟩ := hi
  refine ⟨t, ?_, hdecided⟩
  rw [hn', List.getElem?_append_left (List.getElem?_eq_some_iff.mp ht).1, ht]

theorem unconfirmed_step {core : AppCore x} {s : Session} {event : SessionEvent} {p : AppCore x × Session}
    (hstep : s.step ar core event = some p) (h : s.phase.unconfirmed = false) : p.2.phase.unconfirmed = false := by
  by_contra hafter
  rw [Bool.not_eq_false] at hafter
  exact Bool.noConfusion ((Phase.unconfirmed_of_moves (Session.step_moves hstep) hafter).1.symm.trans h)

theorem step_decided {n n' : Node x} {e : NodeEvent} {i : ℕ} (hstep : step ar n e = some n') (h : Decided n i) :
    Decided n' i := by
  cases steps_of_step hstep with
  | accept ip key cert hd => exact decided_push rfl h
  | connected k key cert ip edge name queue hh => exact decided_set hh rfl (by intro hg; cases hg) h
  | connectFailed k error ip edge name queue hh => exact decided_set hh rfl (fun _ => rfl) h
  | receive c rest hd hc =>
    obtain ⟨cmd, answers⟩ := c
    cases cmd with
    | connect ip name edge => exact decided_push rfl h
    | _ => exact h
  | visit fingerprint cmd next targets hd =>
    unfold Node.visit
    split <;> exact h
  | send cmd targets n' hd hsend =>
    unfold sendTo at hsend
    split at hsend
    case h_1 =>
      cases hsend
      exact h
    case h_2 k rest =>
      split at hsend
      case h_1 => cases hsend
      case h_2 t hh =>
        split_ifs at hsend
        · cases hsend
          exact h
        · cases hsend
          exact decided_set hh rfl (by exact id) h
  | command k epoch s name q queue p hh hp => exact decided_set hh rfl (by exact unconfirmed_step hp) h
  | session k event s name queue p hh hevent hp => exact decided_set hh rfl (by exact unconfirmed_step hp) h
  | _ => exact h

/-- The command does not confirm session `i` for another one. -/
def Harmless (n : Node x) (i : ℕ) (q : Queued) : Prop := q.cmd = .confirm → q.answers ≠ some i → Decided n i

/-- Nothing that is on its way to a session, or in its queue, confirms it for another one. -/
structure RouteInv (n : Node x) : Prop where
  carried : ∀ cmd targets, n.dispatch.carries = some (cmd, targets) → ∀ i ∈ targets, Harmless n i cmd
  queued : ∀ i, ∀ q ∈ n.queue i, Harmless n i q

theorem carries_step {n n' : Node x} {e : NodeEvent} {cmd : Queued} {targets : List ℕ} {i : ℕ}
    (hstep : step ar n e = some n') (hcarries : n'.dispatch.carries = some (cmd, targets)) (hi : i ∈ targets) :
    (∃ targets', n.dispatch.carries = some (cmd, targets') ∧ i ∈ targets') ∨
      (e = .visit ∧ ∃ fingerprint targets' h, n.dispatch = .filtering fingerprint cmd i targets' ∧
        n.handles[i]? = some h ∧ matchesHandle fingerprint h = true) := by
  cases steps_of_step hstep with
  | receive c rest hd hc =>
    obtain ⟨com, answers⟩ := c
    cases com with
    | connect ip name edge => exact Or.inl ⟨targets, hcarries, hi⟩
    | _ =>
      cases hcarries
      cases hi
  | visit fingerprint cmd' next targets' hd =>
    unfold Node.visit at hcarries
    cases hnext : n.handles[next]? with
    | none =>
      rw [hnext] at hcarries
      cases hcarries
      exact Or.inl ⟨targets, by rw [hd]; rfl, hi⟩
    | some h =>
      rw [hnext] at hcarries
      cases hcarries
      split_ifs at hi with hmatch
      · rcases List.mem_append.mp hi with hold | hnew
        · exact Or.inl ⟨targets', by rw [hd]; rfl, hold⟩
        · rw [List.mem_singleton.mp hnew]
          exact Or.inr ⟨rfl, fingerprint, targets', h, hd, hnext, hmatch⟩
      · exact Or.inl ⟨targets', by rw [hd]; rfl, hi⟩
  | send cmd' targets' n' hd hsend =>
    left
    unfold sendTo at hsend
    split at hsend
    case h_1 =>
      cases hsend
      cases hcarries
    case h_2 k rest =>
      have hrest : n'.dispatch = .sending cmd' rest := by
        split at hsend
        case h_1 => cases hsend
        case h_2 t hh =>
          split_ifs at hsend
          · cases hsend
            rfl
          · cases hsend
            rfl
      rw [hrest] at hcarries
      cases hcarries
      exact ⟨k :: targets, by rw [hd]; rfl, List.mem_cons_of_mem _ hi⟩
  | _ => exact Or.inl ⟨targets, hcarries, hi⟩

theorem step_routeInv {n n' : Node x} {e : NodeEvent} (h : RouteInv n) (hnot : ¬ Misdirects n e)
    (hstep : step ar n e = some n') : RouteInv n' := by
  have hkeep : ∀ {i : ℕ} {q : Queued}, Harmless n i q → Harmless n' i q :=
    fun hharmless hcmd hother => step_decided hstep (hharmless hcmd hother)
  constructor
  · intro cmd targets hcarries i hi
    rcases carries_step hstep hcarries hi with ⟨targets', hwas, hi'⟩ | ⟨he, fingerprint, targets', t, hd, ht, hmatch⟩
    · exact hkeep (h.carried cmd targets' hwas i hi')
    · refine hkeep fun hcmd hother => ⟨t, ht, ?_⟩
      by_contra hopen
      rw [Bool.not_eq_false] at hopen
      exact hnot ⟨he, fingerprint, cmd, i, targets', t, hd, ht, hcmd, hother, hmatch, hopen⟩
  · intro i q hq
    rcases mem_queue_of_step hstep hq with hwas | ⟨rest, hd⟩
    · exact hkeep (h.queued i q hwas)
    · exact hkeep (h.carried q (i :: rest) (by rw [hd]; rfl) i List.mem_cons_self)

theorem not_wrong_of_routeInv {n : Node x} {e : NodeEvent} (h : RouteInv n) : ¬ WrongConfirm n e := by
  rintro ⟨i, epoch, -, ⟨s, hs, info, st, hpairing, hlocal⟩, q, hq, hcmd, hother⟩
  obtain ⟨t, ht, hdecided⟩ := h.queued i q (List.mem_of_head? hq) hcmd hother
  obtain ⟨t', ht', hts⟩ := session?_eq_some.mp hs
  obtain rfl : t = t' := Option.some.inj (ht.symm.trans ht')
  unfold Handle.session? at hts
  split at hts
  case h_1 s' htask =>
    cases hts
    simp [Handle.unconfirmed, htask, hpairing, Phase.unconfirmed, hlocal] at hdecided
  case h_2 => cases hts

/-! ### What is delivered to the session itself -/

/-- The answer to the prompt of session `i` is waiting, on its way, or in the queue of session `i`. -/
def Pending (n : Node x) (i : ℕ) (F : String) : Prop :=
  ⟨.confirmPairing F, some i⟩ ∈ n.commands ∨ EnRoute (· = ⟨.confirm, some i⟩) F i n.dispatch ∨
    ⟨.confirm, some i⟩ ∈ n.queue i

/-- If session `i` may still be confirmed, the answer to its prompt is still to come. -/
def Answered (i : ℕ) (n : Node x) : Prop :=
  ∃ s ∈ n.session? i, s.phase.unconfirmed = true → ∃ F, s.slot = some F ∧ Pending n i F

theorem pending_step {n n' : Node x} {e : NodeEvent} {i : ℕ} {F : String} {s : Session} (hs : n.session? i = some s)
    (hslot : s.slot = some F) (hlive : s.phase.finished = false) (h : Pending n i F) (hstep : step ar n e = some n') :
    Pending n' i F ∨ ∃ epoch, n.acts e = some (i, .cmd .confirm epoch) := by
  rcases h with hwaits | hroute | hqueued
  · left
    cases steps_of_step hstep with
    | ui cmd hcmd => exact Or.inl (List.mem_append_left _ hwaits)
    | confirm k t fingerprint ht hfp => exact Or.inl (List.mem_append_left _ hwaits)
    | receive c rest hd hc =>
      rw [hc] at hwaits
      rcases List.mem_cons.mp hwaits with rfl | hrest
      · exact Or.inr (Or.inl ⟨rfl, rfl, Or.inl (Nat.zero_le i)⟩)
      · left
        obtain ⟨com, answers⟩ := c
        cases com <;> exact hrest
    | visit fingerprint cmd next targets hd =>
      left
      unfold Node.visit
      split <;> exact hwaits
    | send cmd targets n' hd hsend =>
      left
      unfold sendTo at hsend
      split at hsend
      case h_1 =>
        cases hsend
        exact hwaits
      case h_2 k rest =>
        split at hsend
        case h_1 => cases hsend
        case h_2 t hh =>
          split_ifs at hsend
          · cases hsend
            exact hwaits
          · cases hsend
            exact hwaits
    | _ => exact Or.inl hwaits
  · left
    rcases enRoute_step hs hslot hlive hroute hstep with hstays | ⟨q, hq, rfl⟩
    · exact Or.inr (Or.inl hstays)
    · exact Or.inr (Or.inr hq)
  · rcases mem_queue_step hstep hqueued with hstays | ⟨epoch, -, hacts⟩
    · exact Or.inl (Or.inr (Or.inr hstays))
    · exact Or.inr ⟨epoch, hacts⟩

theorem step_answered {n n' : Node x} {e : NodeEvent} {i : ℕ} (hslot : SlotInv n) (h : Answered i n)
    (hstep : step ar n e = some n') : Answered i n' := by
  obtain ⟨s, hs, hanswered⟩ := h
  cases hacts : n.acts e with
  | none =>
    rcases session?_of_idle hstep hacts i with heq | ⟨hnone, -⟩
    · refine ⟨s, heq.trans hs, fun hopen => ?_⟩
      obtain ⟨F, hF, hpending⟩ := hanswered hopen
      refine ⟨F, hF, (pending_step hs hF (Phase.finished_of_unconfirmed hopen) hpending hstep).resolve_right ?_⟩
      rintro ⟨epoch, hacts'⟩
      rw [hacts] at hacts'
      cases hacts'
    · rw [hnone] at hs
      cases hs
  | some act =>
    obtain ⟨k, event⟩ := act
    obtain ⟨t, p, ht, hp, hsessions, -⟩ := step_of_acts hstep hacts
    by_cases hik : i = k
    · subst hik
      obtain rfl : s = t := Option.some.inj (hs.symm.trans ht)
      refine ⟨p.2, (hsessions i).trans (if_pos rfl), fun hopen => ?_⟩
      obtain ⟨hwas, hevent⟩ := Phase.unconfirmed_of_moves (Session.step_moves hp) hopen
      obtain ⟨F, hF, hpending⟩ := hanswered hwas
      have hkept : p.2.slot = s.slot := by
        apply Session.step_slot hp
        rintro rfl
        obtain ⟨info, hgreeted, -⟩ := Session.step_setSlot hp
        have hnone := (hslot i s hs).unnamed (by rw [hgreeted]; rfl)
        rw [hF] at hnone
        cases hnone
      have hlive := Phase.finished_of_unconfirmed hwas
      refine ⟨F, hkept.trans hF, (pending_step hs hF hlive hpending hstep).resolve_right ?_⟩
      rintro ⟨epoch, hacts'⟩
      rw [hacts] at hacts'
      cases hacts'
      exact hevent epoch rfl
    · refine ⟨s, ((hsessions i).trans (if_neg hik)).trans hs, fun hopen => ?_⟩
      obtain ⟨F, hF, hpending⟩ := hanswered hopen
      refine ⟨F, hF, (pending_step hs hF (Phase.finished_of_unconfirmed hopen) hpending hstep).resolve_right ?_⟩
      rintro ⟨epoch, hacts'⟩
      rw [hacts] at hacts'
      cases hacts'
      exact hik rfl

theorem answered_of_confirm {n n' : Node x} {i : ℕ} (hstep : step ar n (.confirm i) = some n') : Answered i n' := by
  cases steps_of_step hstep with
  | confirm _ s F hs hF =>
    exact ⟨s, hs, fun _ => ⟨F, hF, Or.inl (List.mem_append_right _ (List.mem_singleton_self _))⟩⟩

/-- In every run in which the filter never picks, for an answer, another session that may still be confirmed: no
session in its pairing loop is confirmed by the answer to another session's prompt, and once the user has confirmed the
prompt of session `i`, and neither the dispatcher nor the queue of session `i` holds anything, session `i` is confirmed
if it is in its pairing loop. -/
theorem confirm_answers_own_prompt {core : AppCore x} {es : List NodeEvent} {n : Node x}
    (hrun : run (step ar) (initial core) es = some n) (hnot : ¬ Seen (step ar) Misdirects (initial core) es) :
    ¬ Seen (step ar) WrongConfirm (initial core) es ∧
      ∀ i, .confirm i ∈ es → n.commands = [] → n.dispatch = .idle → n.queue i = [] →
        ∀ s ∈ n.session? i, ∀ info st, s.phase = .pairing info st → st.localConfirmed = true := by
  constructor
  · have hinv : ∀ es n, run (step ar) (initial core) es = some n →
        ¬ Seen (step ar) Misdirects (initial core) es →
          RouteInv n ∧ ¬ Seen (step ar) WrongConfirm (initial core) es := by
      apply run_induction
      · intro _
        refine ⟨⟨fun cmd targets h => (nomatch h), fun i q hq => ?_⟩, not_seen_nil _ _⟩
        simp [queue, initial] at hq
      · intro es t e u ht ih hstep hseen
        rw [seen_snoc ht, not_or] at hseen
        obtain ⟨hinv, hwrong⟩ := ih hseen.1
        rw [seen_snoc ht, not_or]
        exact ⟨step_routeInv hinv hseen.2 hstep, hwrong, not_wrong_of_routeInv hinv⟩
    exact (hinv es n hrun hnot).2
  · intro i hconfirm hcommands hidle hempty s hs info st hpairing
    have hanswered : .confirm i ∈ es → Answered i n := by
      refine run_induction (P := fun es n => NodeEvent.confirm i ∈ es → Answered i n) ?_ ?_ es n hrun
      · intro h
        cases h
      · intro es t e u ht ih hstep hmem
        rcases List.mem_append.mp hmem with hold | hnow
        · exact step_answered (run_slotInv ht) (ih hold) hstep
        · cases List.mem_singleton.mp hnow
          exact answered_of_confirm hstep
    obtain ⟨s', hs', hopen⟩ := hanswered hconfirm
    obtain rfl : s = s' := Option.some.inj (hs.symm.trans hs')
    by_contra hlocal
    rw [Bool.not_eq_true] at hlocal
    obtain ⟨F, -, hwaits | hroute | hqueued⟩ := hopen (by simp [hpairing, Phase.unconfirmed, hlocal])
    · rw [hcommands] at hwaits
      cases hwaits
    · rw [hidle] at hroute
      cases hroute
    · rw [hempty] at hqueued
      cases hqueued

/-! ### An impostor -/

/-- A device with this certificate connects as session `i`, says this Hello and comes to the pairing loop. -/
def comesToPairing (i : ℕ) (cert : Bytes) (info : DeviceInfo) : List NodeEvent :=
  [.accept (.v4 0x0A000002) (Vector.replicate 32 9) cert, .session i .sayHello,
    .session i (.recv (.hello PROTOCOL_VERSION info)), .session i .setSlot, .session i .checkTrust]

/-- What Bob says in its Hello, and Mallory repeats. -/
def bobInfo : DeviceInfo := (demoCore certBob "bob" []).deviceInfo

/-- Bob and Mallory are in their pairing loops on Alice's side; Alice's user confirms Bob's prompt. -/
def twoBobs : List NodeEvent :=
  comesToPairing 0 certBob bobInfo ++ comesToPairing 1 certMallory bobInfo ++
    [.confirm 0, .receive, .visit, .visit, .visit, .send, .send, .send]

/-- Mallory, who said Bob's Hello, is confirmed by the answer to Bob's prompt. -/
theorem impostor_confirmed :
    ∃ n, run (step .exact) (initial (demoCore certAlice "alice" [])) (twoBobs ++ [.command 1 0]) = some n ∧
      (n.session? 1).map Session.phase = some (.pairing bobInfo ⟨true, false⟩) ∧
      Seen (step .exact) WrongConfirm (initial (demoCore certAlice "alice" [])) (twoBobs ++ [.command 1 0]) := by
  refine ⟨_, rfl, rfl, twoBobs, _, [], _, rfl, rfl, 1, 0, rfl, ⟨_, rfl, bobInfo, {}, rfl, rfl⟩, _, rfl, rfl, ?_⟩
  decide

/-- What Mallory says in an honest Hello. -/
def malloryInfo : DeviceInfo := (demoCore certMallory "mallory" []).deviceInfo

/-- Bob and Mallory, each with its own id, are in their pairing loops, and Alice's user confirms Bob's prompt. -/
def bobBesideMallory : List NodeEvent :=
  comesToPairing 0 certBob bobInfo ++ comesToPairing 1 certMallory malloryInfo ++
    [.confirm 0, .receive, .visit, .visit, .visit, .send, .send, .command 0 0]

theorem confirm_answers_own_prompt_bob :
    ∃ n, run (step .exact) (initial (demoCore certAlice "alice" [])) bobBesideMallory = some n ∧
      (n.session? 0).map Session.phase = some (.pairing bobInfo ⟨true, false⟩) ∧
      (n.session? 1).map Session.phase = some (.pairing malloryInfo ⟨false, false⟩) ∧
      ¬ Seen (step .exact) WrongConfirm (initial (demoCore certAlice "alice" [])) bobBesideMallory ∧
      ∀ s ∈ n.session? 0, ∀ info st, s.phase = .pairing info st → st.localConfirmed = true := by
  obtain ⟨n, hrun, hbob, hmallory, hcommands, hidle, hempty⟩ : ∃ n,
      run (step .exact) (initial (demoCore certAlice "alice" [])) bobBesideMallory = some n ∧
      (n.session? 0).map Session.phase = some (.pairing bobInfo ⟨true, false⟩) ∧
      (n.session? 1).map Session.phase = some (.pairing malloryInfo ⟨false, false⟩) ∧
      n.commands = [] ∧ n.dispatch = .idle ∧ n.queue 0 = [] := ⟨_, rfl, rfl, rfl, rfl, rfl, rfl⟩
  obtain ⟨hwrong, hcounts⟩ := confirm_answers_own_prompt hrun (by decide +kernel)
  exact ⟨n, hrun, hbob, hmallory, hwrong, hcounts 0 (by decide) hcommands hidle hempty⟩

end Node

end ScreenLink

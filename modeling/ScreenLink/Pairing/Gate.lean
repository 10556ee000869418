import ScreenLink.Pairing.Confirm

/-!
# Who gets past the pairing gate

The gate asks the trust store about the id in the peer's Hello; the certificate of the TLS connection is not
consulted. The promise is "past the gate only with a trusted certificate, or after a pairing that both users have
confirmed". A run in which the gate accepts a Hello id on a connection whose certificate is not trusted breaks it; a run
without such a gate keeps it, provided that no session takes the answer to another session's prompt for its own
(`gate_authentic_iff`). A peer with any certificate at all gets past the gate by putting a trusted device's
fingerprint into its Hello (`forged_hello_passes`).

Whatever the answers are, a session past the gate was accepted by it, or has taken a `Confirm`, received the peer's
`PairConfirm` and then stored the peer (`accepted_of_past`). An answer that is waiting or on its way was given by the user
(`Traced`).
-/

namespace ScreenLink

/-- The gate has not been evaluated. -/
def Phase.beforeGate : Phase → Bool
  | .start | .hello | .greeted _ | .gate _ => true
  | _ => false

theorem beforeGate_afterSelect (info : DeviceInfo) (st : PairingState) :
    (Session.afterSelect info st).beforeGate = false := by
  unfold Session.afterSelect
  split_ifs <;> rfl

theorem pastGate_afterSelect (info : DeviceInfo) (st : PairingState) :
    (Session.afterSelect info st).pastGate = false := by
  unfold Session.afterSelect
  split_ifs <;> rfl

theorem moves_beforeGate {trusted : String → Bool} {p p' : Phase} {event : SessionEvent}
    (h : p.Moves trusted event p') (hp' : p'.beforeGate = true) :
    p.beforeGate = true ∧ event ≠ .checkTrust ∧ event ≠ .store none := by
  cases h with
  | sayHello | greeted info | setSlot info => exact ⟨rfl, by simp, by simp⟩
  | thread p event hthread =>
    refine ⟨hp', ?_, ?_⟩ <;> rintro rfl <;> cases hthread
  | remoteBegin info st | remoteConfirm info st | localConfirm info st epoch | otherCmd info st cmd epoch hcmd =>
    rw [beforeGate_afterSelect] at hp'
    cases hp'
  | _ => cases hp'

/-- `local_confirmed` of a session in its pairing loop or behind it. -/
def Phase.localConfirmed : Phase → Bool
  | .pairing _ st => st.localConfirmed
  | .paired _ => true
  | _ => false

/-- `remote_confirmed` of a session in its pairing loop or behind it. -/
def Phase.remoteConfirmed : Phase → Bool
  | .pairing _ st => st.remoteConfirmed
  | .paired _ => true
  | _ => false

theorem confirmed_afterSelect (info : DeviceInfo) (st : PairingState) :
    (Session.afterSelect info st).localConfirmed = st.localConfirmed ∧
      (Session.afterSelect info st).remoteConfirmed = st.remoteConfirmed := by
  unfold Session.afterSelect
  split_ifs with hcomplete
  · obtain ⟨hlocal, hremote⟩ := Bool.and_eq_true_iff.mp hcomplete
    exact ⟨hlocal.symm, hremote.symm⟩
  · exact ⟨rfl, rfl⟩

theorem moves_localConfirmed {trusted : String → Bool} {p p' : Phase} {event : SessionEvent}
    (h : p.Moves trusted event p') (hp' : p'.localConfirmed = true) :
    p.localConfirmed = true ∨ ∃ info st epoch, p = .pairing info st ∧ st.localConfirmed = false ∧
      event = .cmd .confirm epoch := by
  cases h with
  | thread p event hthread => exact Or.inl hp'
  | remoteBegin info st | otherCmd info st cmd epoch hcmd =>
    rw [(confirmed_afterSelect info _).1] at hp'
    exact Or.inl hp'
  | remoteConfirm info st =>
    rw [(confirmed_afterSelect info _).1] at hp'
    exact Or.inl hp'
  | localConfirm info st epoch =>
    cases hlocal : st.localConfirmed with
    | true => exact Or.inl hlocal
    | false => exact Or.inr ⟨info, st, epoch, rfl, hlocal, rfl⟩
  | _ => cases hp'

theorem moves_remoteConfirmed {trusted : String → Bool} {p p' : Phase} {event : SessionEvent}
    (h : p.Moves trusted event p') (hp' : p'.remoteConfirmed = true) :
    p.remoteConfirmed = true ∨ ∃ info st, p = .pairing info st ∧ event = .recv .pairConfirm := by
  cases h with
  | thread p event hthread => exact Or.inl hp'
  | remoteBegin info st | otherCmd info st cmd epoch hcmd =>
    rw [(confirmed_afterSelect info _).2] at hp'
    exact Or.inl hp'
  | remoteConfirm info st => exact Or.inr ⟨info, st, rfl, rfl⟩
  | localConfirm info st epoch =>
    rw [(confirmed_afterSelect info _).2] at hp'
    exact Or.inl hp'
  | _ => cases hp'

theorem moves_pastGate {trusted : String → Bool} {p p' : Phase} {event : SessionEvent}
    (h : p.Moves trusted event p') (hp' : p'.pastGate = true) :
    p.pastGate = true ∨ (event = .checkTrust ∧ ∃ info, p = .gate info ∧ trusted info.id.id = true) ∨
      (event = .store none ∧ ∃ info, p = .paired info) := by
  cases h with
  | trusted info htrusted => exact Or.inr (Or.inl ⟨rfl, info, rfl, htrusted⟩)
  | stored info => exact Or.inr (Or.inr ⟨rfl, info, rfl⟩)
  | wired info epoch desktop err => exact Or.inl rfl
  | running info event hmain => exact Or.inl rfl
  | leave info event hmain result => exact Or.inl rfl
  | thread p event hthread => exact Or.inl hp'
  | remoteBegin info st | remoteConfirm info st | localConfirm info st epoch | otherCmd info st cmd epoch hcmd =>
    rw [pastGate_afterSelect] at hp'
    cases hp'
  | _ => cases hp'

namespace Node

open Machine

variable {x : Crates} {ar : Arith}

/-- The gate of session `i` is evaluated while the certificate of its TLS connection is trusted. -/
def TrustedGate (i : ℕ) (n : Node x) (e : NodeEvent) : Prop :=
  e = .session i .checkTrust ∧ ∃ s ∈ n.session? i, n.core.trust.isTrusted (fingerprintHex x s.cert) = true

/-- Session `i` takes a `Confirm` from its queue, and its `local_confirmed` becomes true. -/
def TakesConfirm (i : ℕ) (n : Node x) (e : NodeEvent) : Prop :=
  ∃ epoch, n.acts e = some (i, .cmd .confirm epoch) ∧
    ∃ s ∈ n.session? i, ∃ info st, s.phase = .pairing info st ∧ st.localConfirmed = false

/-- Session `i` receives a `PairConfirm` in its pairing loop. -/
def HearsConfirm (i : ℕ) (n : Node x) (e : NodeEvent) : Prop :=
  e = .session i (.recv .pairConfirm) ∧ ∃ s ∈ n.session? i, ∃ info st, s.phase = .pairing info st

/-- Session `i` stores the peer it has paired with. -/
def StoresPairing (i : ℕ) (n : Node x) (e : NodeEvent) : Prop :=
  e = .session i (.store none) ∧ ∃ s ∈ n.session? i, ∃ info, s.phase = .paired info

/-- A pairing has completed in session `i`: it took a `Confirm`, it received the peer's `PairConfirm`, and then it stored
the peer. -/
def PairingCompleted (ar : Arith) (core : AppCore x) (es : List NodeEvent) (i : ℕ) : Prop :=
  ∃ es₁ es₂, es = es₁ ++ .session i (.store none) :: es₂ ∧ Seen (step ar) (TakesConfirm i) (initial core) es₁ ∧
    Seen (step ar) (HearsConfirm i) (initial core) es₁

/-- A pairing confirmed by both users has completed in session `i`: this device's user confirmed the prompt of session
`i`, the session took a `Confirm`, it received the peer's `PairConfirm`, and then it stored the peer. -/
def PairingConfirmed (ar : Arith) (core : AppCore x) (es : List NodeEvent) (i : ℕ) : Prop :=
  ∃ es₁ es₂, es = es₁ ++ .session i (.store none) :: es₂ ∧ .confirm i ∈ es₁ ∧
    Seen (step ar) (TakesConfirm i) (initial core) es₁ ∧ Seen (step ar) (HearsConfirm i) (initial core) es₁

/-- Every session past the gate had its certificate trusted at the gate, or has completed a pairing that both users have
confirmed. -/
def Authentic (ar : Arith) (core : AppCore x) (es : List NodeEvent) (n : Node x) : Prop :=
  ∀ i, ∀ s ∈ n.session? i, s.phase.pastGate = true →
    Seen (step ar) (TrustedGate i) (initial core) es ∨ PairingConfirmed ar core es i

/-- The gate accepts the id of a Hello on a connection whose certificate is not trusted. -/
def ForgedGate (n : Node x) (e : NodeEvent) : Prop :=
  ∃ i, e = .session i .checkTrust ∧ ∃ s ∈ n.session? i, ∃ info, s.phase = .gate info ∧
    n.core.trust.isTrusted info.id.id = true ∧ n.core.trust.isTrusted (fingerprintHex x s.cert) = false

instance (n : Node x) (e : NodeEvent) : Decidable (ForgedGate n e) :=
  match e with
  | .session i event =>
    if hevent : event = .checkTrust then
      match hs : n.session? i with
      | some s => match hp : s.phase with
        | .gate info => decidable_of_iff
            (n.core.trust.isTrusted info.id.id = true ∧ n.core.trust.isTrusted (fingerprintHex x s.cert) = false)
            (by simp [ForgedGate, hevent, hs, hp])
        | .start | .hello | .greeted _ | .pairing .. | .paired _ | .authenticated _ | .running _ | .closing .. | .ended _ =>
          isFalse (by simp [ForgedGate, hs, hp])
      | none => isFalse (by simp [ForgedGate, hs])
    else isFalse (by simp [ForgedGate, hevent])
  | .ui _ | .confirm _ | .revoke _ | .accept .. | .connected .. | .connectFailed .. | .receive | .visit | .send
  | .command .. | .datagram _ => isFalse (by simp [ForgedGate])

/-- The gate of session `i` accepts. -/
def PassedGate (i : ℕ) (n : Node x) (e : NodeEvent) : Prop :=
  e = .session i .checkTrust ∧ ∃ s ∈ n.session? i, ∃ info, s.phase = .gate info ∧
    n.core.trust.isTrusted info.id.id = true

theorem PairingCompleted.append {core : AppCore x} {es : List NodeEvent} {i : ℕ} (h : PairingCompleted ar core es i)
    (fs : List NodeEvent) : PairingCompleted ar core (es ++ fs) i := by
  obtain ⟨es₁, es₂, rfl, htakes, hhears⟩ := h
  exact ⟨es₁, es₂ ++ fs, by simp, htakes, hhears⟩

/-! ### The history of a phase -/

theorem seen_of_phase {Q : Phase → Prop} {R : Node x → NodeEvent → Prop} {core : AppCore x} {i : ℕ} (hstart : ¬ Q .start)
    (hstep : ∀ n e event s p, n.acts e = some (i, event) → n.session? i = some s →
      s.phase.Moves n.core.trust.isTrusted event p → Q p → Q s.phase ∨ R n e)
    {es : List NodeEvent} {n : Node x} (hrun : run (step ar) (initial core) es = some n) {s : Session}
    (hs : n.session? i = some s) (hQ : Q s.phase) : Seen (step ar) R (initial core) es := by
  refine run_induction (P := fun es n => ∀ s, n.session? i = some s → Q s.phase → Seen (step ar) R (initial core) es)
    ?_ ?_ es n hrun s hs hQ
  · intro s hs
    simp [session?, initial] at hs
  · intro es n e n' hrun ih hnext s hs hQ
    rw [seen_snoc hrun]
    cases hacts : n.acts e with
    | none =>
      rcases session?_of_idle hnext hacts i with hsame | ⟨-, role, ip, key, cert, hnew⟩
      · exact Or.inl (ih s (hsame ▸ hs) hQ)
      · obtain rfl := Option.some.inj (hnew.symm.trans hs)
        exact absurd hQ hstart
    | some act =>
      obtain ⟨k, event⟩ := act
      obtain ⟨t, p, ht, hp, hsessions, -⟩ := step_of_acts hnext hacts
      rw [hsessions i] at hs
      by_cases hik : i = k
      · subst hik
        rw [if_pos rfl] at hs
        cases hs
        exact (hstep n e event t p.2.phase hacts ht (Session.step_moves hp) hQ).imp_left (ih t ht)
      · rw [if_neg hik] at hs
        exact Or.inl (ih s hs hQ)

section History

variable {core : AppCore x} {es : List NodeEvent} {n : Node x} {i : ℕ} {s : Session}

theorem seen_takesConfirm (hrun : run (step ar) (initial core) es = some n) (hs : n.session? i = some s)
    (hlocal : s.phase.localConfirmed = true) : Seen (step ar) (TakesConfirm i) (initial core) es := by
  refine seen_of_phase (Q := fun p => p.localConfirmed = true) (by simp [Phase.localConfirmed]) ?_ hrun hs hlocal
  intro n e event s p hacts hs hmoves hp
  refine (moves_localConfirmed hmoves hp).imp_right ?_
  rintro ⟨info, st, epoch, hphase, hopen, rfl⟩
  exact ⟨epoch, hacts, s, hs, info, st, hphase, hopen⟩

theorem seen_hearsConfirm (hrun : run (step ar) (initial core) es = some n) (hs : n.session? i = some s)
    (hremote : s.phase.remoteConfirmed = true) : Seen (step ar) (HearsConfirm i) (initial core) es := by
  refine seen_of_phase (Q := fun p => p.remoteConfirmed = true) (by simp [Phase.remoteConfirmed]) ?_ hrun hs hremote
  intro n e event s p hacts hs hmoves hp
  refine (moves_remoteConfirmed hmoves hp).imp_right ?_
  rintro ⟨info, st, hphase, rfl⟩
  exact ⟨eq_session_of_acts hacts (by simp), s, hs, info, st, hphase⟩

theorem completed_of_stores (h : Seen (step ar) (StoresPairing i) (initial core) es) : PairingCompleted ar core es i := by
  obtain ⟨es₁, e, es₂, n, rfl, hn, rfl, s, hs, info, hpaired⟩ := h
  exact ⟨es₁, es₂, rfl, seen_takesConfirm hn hs (by rw [hpaired]; rfl), seen_hearsConfirm hn hs (by rw [hpaired]; rfl)⟩

/-- A session past the gate was accepted by it or has completed a pairing. -/
theorem accepted_of_past (hrun : run (step ar) (initial core) es = some n) (hs : n.session? i = some s)
    (hpast : s.phase.pastGate = true) :
    Seen (step ar) (PassedGate i) (initial core) es ∨ PairingCompleted ar core es i := by
  have hseen : Seen (step ar) (fun n e => PassedGate i n e ∨ StoresPairing i n e) (initial core) es := by
    refine seen_of_phase (Q := fun p => p.pastGate = true) (by simp [Phase.pastGate]) ?_ hrun hs hpast
    intro n e event s p hacts hs hmoves hp
    refine (moves_pastGate hmoves hp).imp_right ?_
    rintro (⟨rfl, info, hinfo, htrusted⟩ | ⟨rfl, info, hpaired⟩)
    · exact Or.inl ⟨eq_session_of_acts hacts (by simp), s, hs, info, hinfo, htrusted⟩
    · exact Or.inr ⟨eq_session_of_acts hacts (by simp), s, hs, info, hpaired⟩
  exact (seen_or.mp hseen).imp_right completed_of_stores

end History

theorem beforeGate_of_run {core : AppCore x} {es : List NodeEvent} {n : Node x} {i : ℕ} {s : Session}
    (hrun : run (step ar) (initial core) es = some n) (hs : n.session? i = some s) (hbefore : s.phase.beforeGate = true) :
    ∀ e ∈ es, e ≠ .session i .checkTrust ∧ e ≠ .session i (.store none) := by
  have hall : (∀ s ∈ n.session? i, s.phase.beforeGate = true) →
      ∀ e ∈ es, e ≠ .session i .checkTrust ∧ e ≠ .session i (.store none) := by
    refine run_induction (P := fun es n => (∀ s ∈ n.session? i, s.phase.beforeGate = true) →
      ∀ e ∈ es, e ≠ .session i .checkTrust ∧ e ≠ .session i (.store none)) (by simp) ?_ es n hrun
    intro es n e n' _ ih hstep hbefore e' he'
    cases hacts : n.acts e with
    | none =>
      have hwas : ∀ s ∈ n.session? i, s.phase.beforeGate = true := by
        intro s hs
        rcases session?_of_idle hstep hacts i with hsame | ⟨hnone, -⟩
        · exact hbefore s (hsame ▸ hs)
        · rw [hnone] at hs
          cases hs
      rcases List.mem_append.mp he' with hold | hnew
      · exact ih hwas e' hold
      · rw [List.mem_singleton.mp hnew]
        constructor <;> rintro rfl <;> cases hacts
    | some act =>
      obtain ⟨k, event⟩ := act
      obtain ⟨t, p, ht, hp, hsessions, -⟩ := step_of_acts hstep hacts
      have hmoves := Session.step_moves hp
      by_cases hik : i = k
      · subst hik
        obtain ⟨hwas, hgate, hstore⟩ := moves_beforeGate hmoves (hbefore p.2 (by rw [hsessions i, if_pos rfl]; rfl))
        rcases List.mem_append.mp he' with hold | hnew
        · refine ih (fun s hs => ?_) e' hold
          obtain rfl : t = s := Option.some.inj (ht.symm.trans hs)
          exact hwas
        · rw [List.mem_singleton.mp hnew]
          constructor
          · rintro rfl
            cases hacts
            exact hgate rfl
          · rintro rfl
            cases hacts
            exact hstore rfl
      · rcases List.mem_append.mp he' with hold | hnew
        · exact ih (fun s hs => hbefore s (by rw [hsessions i, if_neg hik]; exact hs)) e' hold
        · rw [List.mem_singleton.mp hnew]
          constructor <;> rintro rfl <;> cases hacts <;> exact hik rfl
  exact hall (fun t ht => by obtain rfl := Option.some.inj (hs.symm.trans ht); exact hbefore)

/-! ### Where an answer comes from -/

/-- Whatever answers a session's prompt, waiting or on its way, the user has given. -/
structure Traced (es : List NodeEvent) (n : Node x) : Prop where
  waiting : ∀ c ∈ n.commands, ∀ i, c.answers = some i → .confirm i ∈ es
  carried : ∀ cmd targets, n.dispatch.carries = some (cmd, targets) → ∀ i, cmd.answers = some i → .confirm i ∈ es
  queued : ∀ k, ∀ q ∈ n.queue k, ∀ i, q.answers = some i → .confirm i ∈ es

theorem mem_commands_of_step {n n' : Node x} {e : NodeEvent} {c : Command} (hstep : step ar n e = some n')
    (hc : c ∈ n'.commands) : c ∈ n.commands ∨ ∀ i, c.answers = some i → e = .confirm i := by
  cases steps_of_step hstep with
  | ui cmd hcmd =>
    refine (List.mem_append.mp hc).imp_right fun hnew i hi => ?_
    rw [List.mem_singleton.mp hnew] at hi
    cases hi
  | confirm k s fingerprint hs hslot =>
    refine (List.mem_append.mp hc).imp_right fun hnew i hi => ?_
    rw [List.mem_singleton.mp hnew] at hi
    rw [Option.some.inj hi]
  | receive d rest hd hcommands =>
    left
    rw [hcommands]
    obtain ⟨com, answers⟩ := d
    cases com <;> exact List.mem_cons_of_mem _ hc
  | visit fingerprint cmd next targets hd =>
    left
    unfold Node.visit at hc
    split at hc <;> exact hc
  | send cmd targets n' hd hsend =>
    left
    unfold sendTo at hsend
    split at hsend
    case h_1 =>
      cases hsend
      exact hc
    case h_2 k rest =>
      split at hsend
      case h_1 => cases hsend
      case h_2 t hh =>
        split_ifs at hsend <;>
        · cases hsend
          exact hc
  | _ => exact Or.inl hc

theorem carries_of_step {n n' : Node x} {e : NodeEvent} {cmd : Queued} {targets : List ℕ}
    (hstep : step ar n e = some n') (hcarries : n'.dispatch.carries = some (cmd, targets)) :
    (∃ targets', n.dispatch.carries = some (cmd, targets')) ∨
      ∃ c ∈ n.commands, ∀ i, cmd.answers = some i → c.answers = some i := by
  cases steps_of_step hstep with
  | receive c rest hd hc =>
    obtain ⟨com, answers⟩ := c
    cases com with
    | connect ip name edge => exact Or.inl ⟨targets, hcarries⟩
    | confirmPairing fingerprint =>
      cases hcarries
      exact Or.inr ⟨_, by rw [hc]; exact List.mem_cons_self, fun i hi => hi⟩
    | _ =>
      cases hcarries
      exact Or.inr ⟨_, by rw [hc]; exact List.mem_cons_self, by simp⟩
  | visit fingerprint cmd' next targets' hd =>
    left
    unfold Node.visit at hcarries
    split at hcarries <;>
    · cases hcarries
      exact ⟨_, by rw [hd]; rfl⟩
  | send cmd' targets' n' hd hsend =>
    left
    unfold sendTo at hsend
    split at hsend
    case h_1 =>
      cases hsend
      cases hcarries
    case h_2 k rest =>
      split at hsend
      case h_1 => cases hsend
      case h_2 t hh =>
        split_ifs at hsend <;>
        · cases hsend
          cases hcarries
          exact ⟨_, by rw [hd]; rfl⟩
  | _ => exact Or.inl ⟨targets, hcarries⟩

theorem step_traced {n n' : Node x} {e : NodeEvent} {es : List NodeEvent} (h : Traced es n)
    (hstep : step ar n e = some n') : Traced (es ++ [e]) n' := by
  refine ⟨fun c hc i hi => ?_, fun cmd targets hcarries i hi => ?_, fun k q hq i hi => ?_⟩
  · rcases mem_commands_of_step hstep hc with hwas | hnow
    · exact List.mem_append_left _ (h.waiting c hwas i hi)
    · exact List.mem_append_right _ (List.mem_singleton.mpr (hnow i hi).symm)
  · rcases carries_of_step hstep hcarries with ⟨targets', hwas⟩ | ⟨c, hc, hanswers⟩
    · exact List.mem_append_left _ (h.carried cmd targets' hwas i hi)
    · exact List.mem_append_left _ (h.waiting c hc i (hanswers i hi))
  · rcases mem_queue_of_step hstep hq with hwas | ⟨rest, hd⟩
    · exact List.mem_append_left _ (h.queued k q hwas i hi)
    · exact List.mem_append_left _ (h.carried q (k :: rest) (by rw [hd]; rfl) i hi)

theorem run_traced {core : AppCore x} {es : List NodeEvent} {n : Node x}
    (hrun : run (step ar) (initial core) es = some n) : Traced es n := by
  refine run_induction (P := Traced) ⟨?_, ?_, ?_⟩ (fun es n e n' _ h hstep => step_traced h hstep) es n hrun
  · intro c hc
    cases hc
  · intro cmd targets hcarries
    cases hcarries
  · intro k q hq
    simp [queue, initial] at hq

/-- A session that takes a `Confirm`, and not another session's, takes the user's answer to its own prompt. -/
theorem confirm_of_takes {core : AppCore x} {es : List NodeEvent} {i : ℕ}
    (hnot : ¬ Seen (step ar) WrongConfirm (initial core) es) {n : Node x}
    (hrun : run (step ar) (initial core) es = some n) (h : Seen (step ar) (TakesConfirm i) (initial core) es) :
    .confirm i ∈ es := by
  obtain ⟨es₁, e, es₂, m, rfl, hm, epoch, hacts, s, hs, info, st, hphase, hlocal⟩ := h
  obtain ⟨m', hm', hrest⟩ := (run_append_eq_some _).mp hrun
  obtain rfl : m = m' := Option.some.inj (hm.symm.trans hm')
  obtain ⟨m₂, hstep, -⟩ := Option.bind_eq_some_iff.mp hrest
  obtain ⟨q, rfl, hq, hcmd⟩ : ∃ q, e = .command i epoch ∧ (m.queue i).head? = some q ∧ q.cmd = .confirm := by
    cases steps_of_step hstep with
    | command j epoch' s' name q queue p hh hp =>
      simp only [acts, hh, Option.some.injEq, Prod.mk.injEq, SessionEvent.cmd.injEq] at hacts
      obtain ⟨rfl, hcmd, rfl⟩ := hacts
      exact ⟨q, rfl, by rw [queue_of_handle hh]; rfl, hcmd⟩
    | session j event s' name queue p hh hevent hp =>
      simp only [acts, Option.some.injEq, Prod.mk.injEq] at hacts
      exact absurd hacts.2 (hevent.1 _ _)
    | _ => cases hacts
  by_cases hanswers : q.answers = some i
  · exact List.mem_append_left _ ((run_traced hm).queued i q (List.mem_of_head? hq) i hanswers)
  · exact absurd ⟨es₁, _, es₂, m, rfl, hm, i, epoch, rfl, ⟨s, hs, info, st, hphase, hlocal⟩, q, hq, hcmd, hanswers⟩ hnot

theorem confirmed_of_completed {core : AppCore x} {es : List NodeEvent} {n : Node x} {i : ℕ}
    (hnot : ¬ Seen (step ar) WrongConfirm (initial core) es) (hrun : run (step ar) (initial core) es = some n)
    (h : PairingCompleted ar core es i) : PairingConfirmed ar core es i := by
  obtain ⟨es₁, es₂, rfl, htakes, hhears⟩ := h
  obtain ⟨m, hm, -⟩ := (run_append_eq_some _).mp hrun
  exact ⟨es₁, es₂, rfl, confirm_of_takes (fun hseen => hnot (hseen.append _)) hm htakes, htakes, hhears⟩

/-! ### When the gate is authentic -/

theorem trusted_of_passed {core : AppCore x} {es : List NodeEvent} {i : ℕ}
    (hnot : ¬ Seen (step ar) ForgedGate (initial core) es) (h : Seen (step ar) (PassedGate i) (initial core) es) :
    Seen (step ar) (TrustedGate i) (initial core) es := by
  obtain ⟨es₁, e, es₂, n, hes, hn, rfl, s, hs, info, hinfo, htrusted⟩ := h
  refine ⟨es₁, _, es₂, n, hes, hn, rfl, s, hs, ?_⟩
  by_contra hcert
  rw [Bool.not_eq_true] at hcert
  exact hnot ⟨es₁, _, es₂, n, hes, hn, i, rfl, s, hs, info, hinfo, htrusted, hcert⟩

/-- After a forged gate the session is past it, and nothing in the run so far justifies that. -/
theorem not_authentic_of_forged {core : AppCore x} {es : List NodeEvent} {n : Node x} {i : ℕ} {s : Session}
    {info : DeviceInfo} (hrun : run (step ar) (initial core) es = some n) (hs : n.session? i = some s)
    (hinfo : s.phase = .gate info) (htrusted : n.core.trust.isTrusted info.id.id = true)
    (hcert : n.core.trust.isTrusted (fingerprintHex x s.cert) = false) {n' : Node x}
    (hstep : step ar n (.session i .checkTrust) = some n') :
    ¬ Authentic ar core (es ++ [.session i .checkTrust]) n' := by
  intro hauth
  have hnone := beforeGate_of_run hrun hs (by rw [hinfo]; rfl)
  obtain ⟨t, p, ht, hp, hsessions, -⟩ := step_of_acts hstep (rfl : acts n (.session i .checkTrust) = _)
  obtain rfl : s = t := Option.some.inj (hs.symm.trans ht)
  have hpast : p.2.phase.pastGate = true := by
    cases Session.steps_of_step hp with
    | checkTrust info' hs' =>
      obtain rfl : info = info' := Phase.gate.inj (hinfo.symm.trans hs')
      simp [Session.checkTrust, htrusted, Phase.pastGate]
  have hafter : p.2 ∈ n'.session? i := by
    rw [hsessions i, if_pos rfl]
    rfl
  rcases hauth i p.2 hafter hpast with hseen | ⟨es₁, es₂, hes, -⟩
  · rcases (seen_snoc hrun).mp hseen with ⟨es₁, e, es₂, m, rfl, hm, rfl, -⟩ | ⟨-, t, ht', htrust⟩
    · exact (hnone _ (List.mem_append_right _ List.mem_cons_self)).1 rfl
    · obtain rfl : s = t := Option.some.inj (hs.symm.trans ht')
      rw [hcert] at htrust
      cases htrust
  · have hmem : NodeEvent.session i (.store none) ∈ es ++ [.session i .checkTrust] := by
      rw [hes]
      exact List.mem_append_right _ List.mem_cons_self
    rcases List.mem_append.mp hmem with hold | hnow
    · exact (hnone _ hold).2 rfl
    · cases List.mem_singleton.mp hnow

/-- In every run. If each session past the gate had its certificate trusted at the gate, or has completed a pairing that
both users have confirmed, throughout the run, then no gate in the run accepted the id of a Hello on a connection whose
certificate was not trusted. And if no gate did, and no session took the answer to another session's prompt for its own,
that holds throughout the run. -/
theorem gate_authentic_iff {core : AppCore x} {es : List NodeEvent} {n : Node x}
    (hrun : run (step ar) (initial core) es = some n) :
    ((∀ es₁ es₂ n₁, es = es₁ ++ es₂ → run (step ar) (initial core) es₁ = some n₁ → Authentic ar core es₁ n₁) →
      ¬ Seen (step ar) ForgedGate (initial core) es) ∧
    (¬ Seen (step ar) ForgedGate (initial core) es → ¬ Seen (step ar) WrongConfirm (initial core) es →
      ∀ es₁ es₂ n₁, es = es₁ ++ es₂ → run (step ar) (initial core) es₁ = some n₁ → Authentic ar core es₁ n₁) := by
  constructor
  · rintro hauth ⟨es₁, e, es₂, n₁, rfl, hn₁, i, rfl, s, hs, info, hinfo, htrusted, hcert⟩
    obtain ⟨n₁', hn₁', hrest⟩ := (run_append_eq_some _).mp hrun
    obtain rfl : n₁ = n₁' := Option.some.inj (hn₁.symm.trans hn₁')
    obtain ⟨n₂, hstep, -⟩ := Option.bind_eq_some_iff.mp hrest
    refine not_authentic_of_forged hn₁ hs hinfo htrusted hcert hstep (hauth _ es₂ n₂ (by simp) ?_)
    exact (run_snoc_eq_some _).mpr ⟨n₁, hn₁, hstep⟩
  · rintro hforged hwrong es₁ es₂ n₁ rfl hn₁ i s hs hpast
    refine (accepted_of_past hn₁ hs hpast).imp (trusted_of_passed fun h => hforged (h.append es₂)) ?_
    exact confirmed_of_completed (fun h => hwrong (h.append es₂)) hn₁

/-! ### A forged Hello -/

/-- What Alice says in its Hello, and Mallory repeats. -/
def aliceInfo : DeviceInfo := (demoCore certAlice "alice" []).deviceInfo

/-- A device connects to Bob with this certificate and says Alice's Hello. -/
def aliceHello (cert : Bytes) : List NodeEvent :=
  [.accept (.v4 0x0A000002) (Vector.replicate 32 9) cert, .session 0 .sayHello,
    .session 0 (.recv (.hello PROTOCOL_VERSION aliceInfo)), .session 0 .setSlot]

/-- Bob, who has paired with Alice. -/
def bobTrustsAlice : AppCore demoCrates := demoCore certBob "bob" [fpAlice]

/-- Mallory is past the gate: its certificate was never trusted, and no pairing took place. -/
theorem forged_hello_passes :
    ∃ n, run (step .exact) (initial bobTrustsAlice) (aliceHello certMallory ++ [.session 0 .checkTrust]) = some n ∧
      ¬ Authentic .exact bobTrustsAlice (aliceHello certMallory ++ [.session 0 .checkTrust]) n := by
  have hhello : ∃ n s, run (step .exact) (initial bobTrustsAlice) (aliceHello certMallory) = some n ∧
      n.session? 0 = some s ∧ s.phase = .gate aliceInfo ∧ n.core.trust.isTrusted aliceInfo.id.id = true ∧
      n.core.trust.isTrusted (fingerprintHex demoCrates s.cert) = false ∧
      (step .exact n (.session 0 .checkTrust)).isSome :=
    ⟨_, _, rfl, rfl, rfl, by decide, by decide, by decide⟩
  obtain ⟨n, s, hrun, hs, hinfo, htrusted, hcert, hsome⟩ := hhello
  obtain ⟨n', hstep⟩ := Option.isSome_iff_exists.mp hsome
  exact ⟨n', (run_snoc_eq_some _).mpr ⟨n, hrun, hstep⟩,
    not_authentic_of_forged hrun hs hinfo htrusted hcert hstep⟩

/-- Alice connects to Bob with its own certificate; then Mallory connects under its own name and pairs with Bob. -/
def aliceThenMallory : List NodeEvent :=
  aliceHello certAlice ++ [.session 0 .checkTrust] ++ comesToPairing 1 certMallory malloryInfo ++
    [.confirm 1, .receive, .visit, .visit, .visit, .send, .send, .command 1 0, .session 1 (.recv .pairConfirm),
      .session 1 (.store none)]

/-- Alice is past the gate by its certificate, and Mallory by a pairing that both users have confirmed. -/
theorem gate_authentic_iff_alice :
    ∃ n, run (step .exact) (initial bobTrustsAlice) aliceThenMallory = some n ∧
      (n.session? 0).map Session.phase = some (.authenticated aliceInfo) ∧
      (n.session? 1).map Session.phase = some (.authenticated malloryInfo) ∧
      ∀ es₁ es₂ n₁, aliceThenMallory = es₁ ++ es₂ →
        run (step .exact) (initial bobTrustsAlice) es₁ = some n₁ → Authentic .exact bobTrustsAlice es₁ n₁ := by
  obtain ⟨n, hrun, halice, hmallory⟩ : ∃ n, run (step .exact) (initial bobTrustsAlice) aliceThenMallory = some n ∧
      (n.session? 0).map Session.phase = some (.authenticated aliceInfo) ∧
      (n.session? 1).map Session.phase = some (.authenticated malloryInfo) := ⟨_, rfl, rfl, rfl⟩
  exact ⟨n, hrun, halice, hmallory, (gate_authentic_iff hrun).2 (by decide +kernel) (by decide +kernel)⟩

end Node

end ScreenLink

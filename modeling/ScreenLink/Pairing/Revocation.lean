import ScreenLink.Pairing.Gate

/-!
# Revocation

The user unpairs a device: its fingerprint `F` leaves the trust store, and then a `Disconnect` for `F` is routed. Once
that route is finished and the sessions have emptied their queues, no session whose peer is `F` is past the pairing
gate, unless a pairing for `F` has completed since, or has failed to be saved (`revocation_complete`): `trust` inserts the
device before it saves, and a session that ends by the save's error leaves it trusted (`unsaved_pairing_passes`).

After the revoke no session newly passes the gate for `F`, so the sessions to catch only become fewer (`active_step`).
Each of them the dispatcher's filter has still to visit, or has as a target, or it has the command in its queue
(`Pursued`, `pursued_step`).
-/

namespace ScreenLink

namespace Phase

/-- The peer's id of a session past the gate that has not left its main loop. -/
def activeId? : Phase → Option String
  | .authenticated info | .running info => some info.id.id
  | _ => none

theorem named?_of_activeId? {p : Phase} {F : String} (h : p.activeId? = some F) : p.named? = some F := by
  cases p <;> simp_all [activeId?, named?]

theorem finished_of_activeId? {p : Phase} {F : String} (h : p.activeId? = some F) : p.finished = false := by
  cases p <;> simp_all [activeId?, finished]

theorem activeId?_afterSelect (info : DeviceInfo) (st : PairingState) :
    (Session.afterSelect info st).activeId? = none := by
  unfold Session.afterSelect
  split_ifs <;> rfl

theorem activeId?_of_moves {trusted : String → Bool} {p p' : Phase} {event : SessionEvent} {F : String}
    (h : p.Moves trusted event p') (hp' : p'.activeId? = some F) :
    p.activeId? = some F ∨ trusted F = true ∨
      (event = .store none ∧ ∃ info, p = .paired info ∧ info.id.id = F) := by
  cases h with
  | trusted info htrusted =>
    obtain rfl : info.id.id = F := Option.some.inj hp'
    exact Or.inr (Or.inl htrusted)
  | stored info => exact Or.inr (Or.inr ⟨rfl, info, rfl, Option.some.inj hp'⟩)
  | remoteBegin info st | remoteConfirm info st | localConfirm info st epoch | otherCmd info st cmd epoch hcmd =>
    rw [activeId?_afterSelect] at hp'
    cases hp'
  | wired | running | thread => exact Or.inl hp'
  | _ => cases hp'

/-- The main loop has been left and the teardown has not been done. -/
def closes : Phase → Bool
  | .closing .. => true
  | _ => false

end Phase

namespace Node

open Machine

variable {x : Crates} {ar : Arith}

/-! ### The sessions to catch -/

/-- Session `i` is past the gate with the peer `F`, and has not left its main loop. -/
def Active (F : String) (n : Node x) (i : ℕ) : Prop := ∃ s ∈ n.session? i, s.phase.activeId? = some F

/-- A pairing for `F` completes: the peer is stored, and the store is saved. -/
def Completes (F : String) (n : Node x) (e : NodeEvent) : Prop :=
  ∃ i, e = .session i (.store none) ∧ ∃ s ∈ n.session? i, ∃ info, s.phase = .paired info ∧ info.id.id = F

/-- A pairing for `F` ends because the store cannot be saved. -/
def SaveFails (F : String) (n : Node x) (e : NodeEvent) : Prop :=
  ∃ i err, e = .session i (.store (some err)) ∧ ∃ s ∈ n.session? i, ∃ info, s.phase = .paired info ∧ info.id.id = F

/-- A session trusts `F`, whether the store is then saved or not. -/
def Stores (F : String) (n : Node x) (e : NodeEvent) : Prop :=
  ∃ i err, e = .session i (.store err) ∧ ∃ s ∈ n.session? i, ∃ info, s.phase = .paired info ∧ info.id.id = F

theorem not_stores {F : String} {n : Node x} {es : List NodeEvent} (hdone : ¬ Seen (step ar) (Completes F) n es)
    (hfails : ¬ Seen (step ar) (SaveFails F) n es) : ¬ Seen (step ar) (Stores F) n es := by
  intro hseen
  refine (seen_or.mp (hseen.mono (Q := fun n e => Completes F n e ∨ SaveFails F n e) ?_)).elim hdone hfails
  rintro n e ⟨i, err, rfl, hpaired⟩
  cases err with
  | none => exact Or.inl ⟨i, rfl, hpaired⟩
  | some err => exact Or.inr ⟨i, err, rfl, hpaired⟩

/-- A `Disconnect` waits in the queue of session `i`. -/
def Told (n : Node x) (i : ℕ) : Prop := ∃ q ∈ n.queue i, q.cmd = .disconnect

theorem step_untrusted {n n' : Node x} {e : NodeEvent} {F : String} (hF : n.core.trust.isTrusted F = false)
    (hnot : ¬ Stores F n e) (hstep : step ar n e = some n') : n'.core.trust.isTrusted F = false := by
  cases hacts : n.acts e with
  | none =>
    rw [(core_of_idle hstep hacts).1]
    cases e with
    | revoke fingerprint => simp [trustAfter, TrustStore.isTrusted_revoke, hF]
    | _ => exact hF
  | some act =>
    obtain ⟨k, event⟩ := act
    obtain ⟨s, p, hs, hp, -, htrust, -⟩ := step_of_acts hstep hacts
    rw [htrust]
    by_cases hstore : ∃ err, event = .store err
    · obtain ⟨err, rfl⟩ := hstore
      obtain ⟨info, hinfo, hinsert, -⟩ := Session.step_store hp
      have hne : F ≠ info.id.id := fun heq =>
        hnot ⟨k, err, eq_session_of_acts hacts (by simp), s, hs, info, hinfo, heq.symm⟩
      rw [hinsert, TrustStore.isTrusted_trust, hF, Bool.or_false, decide_eq_false hne]
    · by_cases hslot : event = .setSlot
      · subst hslot
        obtain ⟨info, -, rfl⟩ := Session.step_setSlot hp
        exact hF
      · rw [(Session.step_frame hp hslot fun err heq => hstore ⟨err, heq⟩).trust]
        exact hF

/-- While `F` is untrusted and no session trusts it, the active sessions of `F` become fewer, and the ones
that stay keep the `Disconnect` in their queues. -/
theorem active_step {n n' : Node x} {e : NodeEvent} {F : String} {i : ℕ} (hF : n.core.trust.isTrusted F = false)
    (hnot : ¬ Stores F n e) (hstep : step ar n e = some n') (hactive : Active F n' i) :
    Active F n i ∧ (Told n i → Told n' i) := by
  obtain ⟨s', hs', hid⟩ := hactive
  have htold : (∀ epoch, e = .command i epoch → n.acts e ≠ some (i, .cmd .disconnect epoch)) →
      Told n i → Told n' i := by
    rintro hother ⟨q, hq, hcmd⟩
    rcases mem_queue_step hstep hq with hstays | ⟨epoch, he, hacts⟩
    · exact ⟨q, hstays, hcmd⟩
    · rw [hcmd] at hacts
      exact absurd hacts (hother epoch he)
  cases hacts : n.acts e with
  | none =>
    rcases session?_of_idle hstep hacts i with heq | ⟨-, role, ip, key, cert, hnew⟩
    · exact ⟨⟨s', heq ▸ hs', hid⟩, htold fun epoch _ h => by rw [hacts] at h; cases h⟩
    · rw [hnew] at hs'
      cases hs'
      cases hid
  | some act =>
    obtain ⟨k, event⟩ := act
    obtain ⟨s, p, hs, hp, hsessions, -⟩ := step_of_acts hstep hacts
    rw [hsessions i] at hs'
    by_cases hik : i = k
    · subst hik
      rw [if_pos rfl] at hs'
      cases hs'
      have hmoves := Session.step_moves hp
      have hwas : s.phase.activeId? = some F := by
        rcases Phase.activeId?_of_moves hmoves hid with hwas | htrusted | ⟨rfl, info, hinfo, hinfoF⟩
        · exact hwas
        · rw [hF] at htrusted
          cases htrusted
        · exact absurd ⟨i, none, eq_session_of_acts hacts (by simp), s, hs, info, hinfo, hinfoF⟩ hnot
      refine ⟨⟨s, hs, hwas⟩, htold fun epoch _ h => ?_⟩
      -- an active session that takes a `Disconnect` leaves its main loop
      rw [hacts] at h
      cases h
      cases Session.steps_of_step hp with
      | pairingCmd info st cmd epoch hs' =>
        rw [hs'] at hwas
        cases hwas
      | runningCmd info cmd epoch hs' => cases hid
    · rw [if_neg hik] at hs'
      refine ⟨⟨s', hs', hid⟩, htold fun epoch _ h => ?_⟩
      rw [hacts] at h
      cases h
      exact hik rfl

/-! ### The route -/

/-- The dispatcher is on its way to session `i` with a `Disconnect` for `F`. -/
def Pursued (F : String) (i : ℕ) (d : Dispatch) : Prop := EnRoute (·.cmd = .disconnect) F i d

/-- One step of the route: an active session of `F` is not lost sight of. -/
theorem pursued_step {n n' : Node x} {e : NodeEvent} {F : String} {i : ℕ} (hslot : SlotInv n)
    (hactive : Active F n i) (hpursued : Pursued F i n.dispatch) (hstep : step ar n e = some n') :
    Pursued F i n'.dispatch ∨ Told n' i := by
  obtain ⟨s, hs, hid⟩ := hactive
  exact enRoute_step hs ((hslot i s hs).named F (Phase.named?_of_activeId? hid)) (Phase.finished_of_activeId? hid)
    hpursued hstep

/-! ### Runs -/

/-- Every active session of `F` has a `Disconnect` waiting. -/
def AllTold (F : String) (n : Node x) : Prop := ∀ i, Active F n i → Told n i

/-- Every active session of `F` has a `Disconnect` waiting, or the dispatcher is on its way to it with one. -/
def AllPursued (F : String) (n : Node x) : Prop := ∀ i, Active F n i → Told n i ∨ Pursued F i n.dispatch

/-- What holds of the run from `n₀` on as long as no session trusts `F` holds in the end. -/
theorem run_without_stores {F : String} {P : Node x → Prop} {n₀ n : Node x} {es : List NodeEvent} (h₀ : P n₀)
    (hkeep : ∀ n n' e, P n → ¬ Stores F n e → step ar n e = some n' → P n')
    (hnot : ¬ Seen (step ar) (Stores F) n₀ es) (hrun : run (step ar) n₀ es = some n) : P n := by
  revert hnot
  refine run_induction (P := fun es n => ¬ Seen (step ar) (Stores F) n₀ es → P n) (fun _ => h₀) ?_ es n hrun
  intro es t e u ht ih hstep hseen
  rw [seen_snoc ht, not_or] at hseen
  exact hkeep t u e (ih hseen.1) hseen.2 hstep

theorem step_allTold {n n' : Node x} {e : NodeEvent} {F : String} (hF : n.core.trust.isTrusted F = false)
    (h : AllTold F n) (hnot : ¬ Stores F n e) (hstep : step ar n e = some n') : AllTold F n' := by
  intro i hactive
  obtain ⟨hwas, hstays⟩ := active_step hF hnot hstep hactive
  exact hstays (h i hwas)

theorem step_allPursued {n n' : Node x} {e : NodeEvent} {F : String} (hF : n.core.trust.isTrusted F = false)
    (hslot : SlotInv n) (h : AllPursued F n) (hnot : ¬ Stores F n e) (hstep : step ar n e = some n') :
    AllPursued F n' := by
  intro i hactive
  obtain ⟨hwas, hstays⟩ := active_step hF hnot hstep hactive
  rcases h i hwas with htold | hpursued
  · exact Or.inl (hstays htold)
  · exact (pursued_step hslot hwas hpursued hstep).symm

/-- Every session has processed the commands queued to it. -/
def Settled (n : Node x) : Prop :=
  ∀ i, ∀ s ∈ n.session? i, s.phase.finished = false →
    n.queue i = [] ∧ ∀ info result, s.phase ≠ .closing info result

theorem settled_of_handles {n : Node x}
    (h : ∀ t ∈ n.handles, t.queue = [] ∧ (t.session?.any fun s => s.phase.closes) = false) : Settled n := by
  intro i s hs _
  obtain ⟨t, ht, hts⟩ := session?_eq_some.mp hs
  obtain ⟨hqueue, hclosing⟩ := h t (List.mem_of_getElem? ht)
  refine ⟨(queue_of_handle ht).trans hqueue, fun info result hphase => ?_⟩
  simp [hts, hphase, Phase.closes] at hclosing

theorem untrusted_after_revoke {n₀ n₁ : Node x} {F : String} {es : List NodeEvent}
    (hnot : ¬ Seen (step ar) (Stores F) n₀ (.revoke F :: es)) (hrun : run (step ar) n₀ (.revoke F :: es) = some n₁) :
    n₁.core.trust.isTrusted F = false := by
  obtain ⟨n₀', hstep, hrest⟩ := Option.bind_eq_some_iff.mp hrun
  refine run_without_stores (P := fun n => n.core.trust.isTrusted F = false) ?_
    (fun _ _ _ h hnot hstep => step_untrusted h hnot hstep) (fun h => hnot (seen_cons.mpr (Or.inr ⟨n₀', hstep, h⟩)))
    hrest
  cases hstep
  simp [TrustStore.isTrusted_revoke]

theorem allTold_after_route {n₁ n₂ : Node x} {F : String} {es : List NodeEvent} {answers : Option ℕ}
    {rest : List Command} (hF : n₁.core.trust.isTrusted F = false) (hslot : SlotInv n₁)
    (htaken : n₁.dispatch = .idle ∧ n₁.commands = ⟨.disconnect F, answers⟩ :: rest)
    (hnot : ¬ Seen (step ar) (Stores F) n₁ (.receive :: es))
    (hroute : run (step ar) n₁ (.receive :: es) = some n₂) (hrouted : n₂.dispatch = .idle) :
    AllTold F n₂ ∧ n₂.core.trust.isTrusted F = false := by
  obtain ⟨n₁', hstep, hrest⟩ := Option.bind_eq_some_iff.mp hroute
  have hnot' : ¬ Seen (step ar) (Stores F) n₁' es := fun h => hnot (seen_cons.mpr (Or.inr ⟨n₁', hstep, h⟩))
  have hstart : n₁'.core.trust.isTrusted F = false ∧ SlotInv n₁' ∧ AllPursued F n₁' := by
    refine ⟨step_untrusted hF (fun h => hnot (seen_cons.mpr (Or.inl h))) hstep, step_slotInv hslot hstep, ?_⟩
    intro i _
    right
    have heq : n₁' = { n₁ with commands := rest, dispatch := .filtering (some F) ⟨.disconnect, none⟩ 0 [] } := by
      simp only [step, htaken.1, htaken.2, Option.some.injEq] at hstep
      exact hstep.symm
    rw [heq]
    exact ⟨rfl, rfl, Or.inl (Nat.zero_le i)⟩
  obtain ⟨hF₂, -, hpursued⟩ := run_without_stores
    (P := fun n => n.core.trust.isTrusted F = false ∧ SlotInv n ∧ AllPursued F n) hstart
    (fun n n' e h hnot hstep => ⟨step_untrusted h.1 hnot hstep, step_slotInv h.2.1 hstep,
      step_allPursued h.1 h.2.1 h.2.2 hnot hstep⟩) hnot' hrest
  refine ⟨fun i hactive => (hpursued i hactive).resolve_right ?_, hF₂⟩
  rw [hrouted]
  exact id

/-- Unpairing `F` is complete: after `TrustStore::revoke`, a `Disconnect` for `F` that the dispatcher takes and routes
to the end, and any further steps, with no pairing for `F` completing since the revoke, and none that fails to be saved,
when every session has processed its queue no session with the peer `F` is past the pairing gate. -/
theorem revocation_complete {core : AppCore x} {F : String} {es₁ es₂ es₃ es₄ : List NodeEvent}
    {n₀ n₁ n₂ n : Node x} {answers : Option ℕ} {rest : List Command}
    (hbefore : run (step ar) (initial core) es₁ = some n₀)
    (hrevoke : run (step ar) n₀ (.revoke F :: es₂) = some n₁)
    (htaken : n₁.dispatch = .idle ∧ n₁.commands = ⟨.disconnect F, answers⟩ :: rest)
    (hroute : run (step ar) n₁ (.receive :: es₃) = some n₂) (hrouted : n₂.dispatch = .idle)
    (hafter : run (step ar) n₂ es₄ = some n)
    (hdone : ¬ Seen (step ar) (Completes F) n₀ ((.revoke F :: es₂) ++ ((.receive :: es₃) ++ es₄)))
    (hfails : ¬ Seen (step ar) (SaveFails F) n₀ ((.revoke F :: es₂) ++ ((.receive :: es₃) ++ es₄)))
    (hsettled : Settled n) :
    ∀ i, ∀ s ∈ n.session? i, ∀ info, s.phase.info? = some info → info.id.id = F → s.phase.pastGate = false := by
  have hnot := not_stores hdone hfails
  have hnot₁ : ¬ Seen (step ar) (Stores F) n₀ (.revoke F :: es₂) := fun h => hnot (h.append _)
  have hnot₂ : ¬ Seen (step ar) (Stores F) n₁ ((.receive :: es₃) ++ es₄) := fun h => hnot (h.prepend hrevoke)
  have hslot₁ : SlotInv n₁ :=
    run_slotInv ((run_append_eq_some (step ar)).mpr ⟨n₀, hbefore, hrevoke⟩)
  obtain ⟨htold₂, hF₂⟩ := allTold_after_route (untrusted_after_revoke hnot₁ hrevoke) hslot₁ htaken
    (fun h => hnot₂ (h.append _)) hroute hrouted
  obtain ⟨-, htold⟩ := run_without_stores (P := fun n => n.core.trust.isTrusted F = false ∧ AllTold F n) ⟨hF₂, htold₂⟩
    (fun n n' e ⟨hF, h⟩ hnot hstep => ⟨step_untrusted hF hnot hstep, step_allTold hF h hnot hstep⟩)
    (fun h => hnot₂ (h.prepend hroute)) hafter
  intro i s hs info hinfo hinfoF
  by_contra hpast
  rw [Bool.not_eq_false] at hpast
  have hlive : s.phase.finished = false := by
    cases hphase : s.phase <;> simp_all [Phase.finished, Phase.pastGate]
  obtain ⟨hempty, hclosing⟩ := hsettled i s hs hlive
  have hactive : Active F n i := by
    refine ⟨s, hs, ?_⟩
    cases hphase : s.phase <;> simp_all [Phase.activeId?, Phase.pastGate, Phase.info?]
  obtain ⟨q, hq, -⟩ := htold i hactive
  rw [hempty] at hq
  cases hq

/-- Alice controls Bob; Bob's user unpairs Alice. -/
def aliceConnects : List NodeEvent :=
  [.accept (.v4 0x0A000003) (Vector.replicate 32 1) certAlice, .session 0 .sayHello,
    .session 0 (.recv (.hello PROTOCOL_VERSION aliceInfo)), .session 0 .setSlot,
    .session 0 .checkTrust, .session 0 (.wire 0 ⟨0, 0, 1920, 1080⟩ none)]

/-- Bob's user unpairs Alice while its session is in the main loop; Alice comes back, and does not get past the gate. -/
theorem revocation_complete_alice :
    ∃ n, run (step .exact) (initial (demoCore certBob "bob" [fpAlice]))
        (aliceConnects ++ ((.revoke fpAlice :: [.ui (.disconnect fpAlice)]) ++
          ((.receive :: [.visit, .visit, .send, .send]) ++
            ([.command 0 0, .session 0 .teardown] ++ comesToPairing 1 certAlice aliceInfo)))) = some n ∧
      (n.session? 1).map Session.phase = some (.pairing aliceInfo ⟨false, false⟩) ∧
      ∀ i, ∀ s ∈ n.session? i, ∀ info, s.phase.info? = some info → info.id.id = fpAlice →
        s.phase.pastGate = false := by
  obtain ⟨n₀, n₁, n₂, n, h₀, h₁, htaken, h₂, hrouted, h₃, hback, hsettled⟩ : ∃ n₀ n₁ n₂ n : Node demoCrates,
      run (step .exact) (initial (demoCore certBob "bob" [fpAlice])) aliceConnects = some n₀ ∧
      run (step .exact) n₀ (.revoke fpAlice :: [.ui (.disconnect fpAlice)]) = some n₁ ∧
      (n₁.dispatch = .idle ∧ n₁.commands = ⟨.disconnect fpAlice, none⟩ :: []) ∧
      run (step .exact) n₁ (.receive :: [.visit, .visit, .send, .send]) = some n₂ ∧ n₂.dispatch = .idle ∧
      run (step .exact) n₂ ([.command 0 0, .session 0 .teardown] ++ comesToPairing 1 certAlice aliceInfo) = some n ∧
      (n.session? 1).map Session.phase = some (.pairing aliceInfo ⟨false, false⟩) ∧
      ∀ h ∈ n.handles, h.queue = [] ∧ (h.session?.any fun s => s.phase.closes) = false :=
    ⟨_, _, _, _, rfl, rfl, ⟨rfl, rfl⟩, rfl, rfl, rfl, rfl, by decide +kernel⟩
  refine ⟨n, ?_, hback, revocation_complete h₀ h₁ htaken h₂ hrouted h₃ ?_ ?_ (settled_of_handles hsettled)⟩
  · exact (run_append_eq_some _).mpr ⟨n₀, h₀, (run_append_eq_some _).mpr ⟨n₁, h₁, (run_append_eq_some _).mpr
      ⟨n₂, h₂, h₃⟩⟩⟩
  · rintro ⟨fs, e, gs, m, hes, -, i, rfl, -⟩
    have hmem := List.mem_append_right fs (List.mem_cons_self (a := NodeEvent.session i (.store none)) (l := gs))
    rw [← hes] at hmem
    simp [comesToPairing] at hmem
  · rintro ⟨fs, e, gs, m, hes, -, i, err, rfl, -⟩
    have hmem := List.mem_append_right fs (List.mem_cons_self (a := NodeEvent.session i (.store (some err))) (l := gs))
    rw [← hes] at hmem
    simp [comesToPairing] at hmem

/-! ### A pairing that is not saved -/

/-- Unpaired, Alice pairs with Bob again, but Bob's trust store cannot be written and the session ends; Alice comes back. -/
def pairsUnsaved : List NodeEvent :=
  [.command 0 0, .session 0 .teardown] ++ comesToPairing 1 certAlice aliceInfo ++
    [.confirm 1, .receive, .visit, .visit, .visit, .send, .send, .command 1 0, .session 1 (.recv .pairConfirm),
      .session 1 (.store (some (.io "disk full")))] ++ comesToPairing 2 certAlice aliceInfo

/-- `trust` has put Alice into the store in memory, so its next session passes the gate, although no pairing has completed
since the revoke. -/
theorem unsaved_pairing_passes :
    ∃ n₀ n₁ n₂ n : Node demoCrates,
      run (step .exact) (initial (demoCore certBob "bob" [fpAlice])) aliceConnects = some n₀ ∧
      run (step .exact) n₀ (.revoke fpAlice :: [.ui (.disconnect fpAlice)]) = some n₁ ∧
      (n₁.dispatch = .idle ∧ n₁.commands = ⟨.disconnect fpAlice, none⟩ :: []) ∧
      run (step .exact) n₁ (.receive :: [.visit, .visit, .send, .send]) = some n₂ ∧ n₂.dispatch = .idle ∧
      run (step .exact) n₂ pairsUnsaved = some n ∧
      ¬ Seen (step .exact) (Completes fpAlice) n₀ ((.revoke fpAlice :: [.ui (.disconnect fpAlice)]) ++
        ((.receive :: [.visit, .visit, .send, .send]) ++ pairsUnsaved)) ∧
      Settled n ∧ ∃ s ∈ n.session? 2, s.phase.info? = some aliceInfo ∧ aliceInfo.id.id = fpAlice ∧
        s.phase.pastGate = true := by
  refine ⟨_, _, _, _, rfl, rfl, ⟨rfl, rfl⟩, rfl, rfl, rfl, ?_, settled_of_handles (by decide +kernel), _, rfl, rfl,
    by decide, rfl⟩
  rintro ⟨fs, e, gs, m, hes, -, i, rfl, -⟩
  have hmem := List.mem_append_right fs (List.mem_cons_self (a := NodeEvent.session i (.store none)) (l := gs))
  rw [← hes] at hmem
  simp [pairsUnsaved, comesToPairing] at hmem

end Node

end ScreenLink

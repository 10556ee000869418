import ScreenLink.Lib.Machine
import ScreenLink.Session.Moves
import ScreenLink.Session.Node

/-!
# What one step of the process can do

`Node.Steps` is `Node.step` as a relation (`steps_of_step`). A step either is a step of one session (`acts`), which
leaves the other sessions alone, or leaves every session alone and perhaps starts a new one (`session?_of_idle`).
-/

namespace ScreenLink.Node

variable {x : Crates} {ar : Arith} {n n' : Node x} {e : NodeEvent}

/-- The branches of `step`. -/
inductive Steps (ar : Arith) (n : Node x) : NodeEvent → Node x → Prop
  | ui (cmd : NetCommand) (hcmd : ∀ fingerprint, cmd ≠ .confirmPairing fingerprint) :
    Steps ar n (.ui cmd) { n with commands := n.commands ++ [⟨cmd, none⟩] }
  | confirm (i : ℕ) (s : Session) (fingerprint : String) (hs : n.session? i = some s)
    (hslot : s.slot = some fingerprint) :
    Steps ar n (.confirm i) { n with commands := n.commands ++ [⟨.confirmPairing fingerprint, some i⟩] }
  | revoke (fingerprint : String) :
    Steps ar n (.revoke fingerprint) { n with core := { n.core with trust := n.core.trust.revoke fingerprint } }
  | accept (ip : IpAddr) (key : SessionKey) (cert : Bytes)
    (hd : ∀ fingerprint cmd next targets, n.dispatch ≠ .filtering fingerprint cmd next targets) :
    Steps ar n (.accept ip key cert)
      { n with handles := n.handles ++ [⟨.session (.new .controlled ip key cert), "", []⟩] }
  | connected (i : ℕ) (key : SessionKey) (cert : Bytes) (ip : IpAddr) (edge : ScreenEdge) (name : String)
    (queue : List Queued) (hh : n.handles[i]? = some ⟨.connecting ip edge, name, queue⟩) :
    Steps ar n (.connected i key cert)
      { n with handles := n.handles.set i ⟨.session (.new (.controller ip edge) ip key cert), name, queue⟩ }
  | connectFailed (i : ℕ) (error : Error) (ip : IpAddr) (edge : ScreenEdge) (name : String)
    (queue : List Queued) (hh : n.handles[i]? = some ⟨.connecting ip edge, name, queue⟩) :
    Steps ar n (.connectFailed i error) { n with
      core := n.core.emit (.peerState "" name (.error error.text))
      handles := n.handles.set i ⟨.connectFailed, name, queue⟩ }
  | receive (c : Command) (rest : List Command) (hd : n.dispatch = .idle) (hc : n.commands = c :: rest) :
    Steps ar n .receive ({ n with commands := rest }.dispatchCommand c)
  | visit (fingerprint : Option String) (cmd : Queued) (next : ℕ) (targets : List ℕ)
    (hd : n.dispatch = .filtering fingerprint cmd next targets) :
    Steps ar n .visit (n.visit fingerprint cmd next targets)
  | send (cmd : Queued) (targets : List ℕ) (n' : Node x) (hd : n.dispatch = .sending cmd targets)
    (hsend : n.sendTo cmd targets = some n') : Steps ar n .send n'
  | command (i : ℕ) (epoch : BitVec 64) (s : Session) (name : String) (q : Queued) (queue : List Queued)
    (p : AppCore x × Session) (hh : n.handles[i]? = some ⟨.session s, name, q :: queue⟩)
    (hstep : s.step ar n.core (.cmd q.cmd epoch) = some p) :
    Steps ar n (.command i epoch) (n.afterStep i name s queue (.cmd q.cmd epoch) p)
  | session (i : ℕ) (event : SessionEvent) (s : Session) (name : String) (queue : List Queued)
    (p : AppCore x × Session) (hh : n.handles[i]? = some ⟨.session s, name, queue⟩)
    (hevent : (∀ cmd epoch, event ≠ .cmd cmd epoch) ∧ event ≠ .cmdClosed)
    (hstep : s.step ar n.core event = some p) :
    Steps ar n (.session i event) (n.afterStep i name s queue event p)
  | datagram (packet : Bytes) : Steps ar n (.datagram packet) { n with core := Node.datagram n.core packet }

theorem steps_of_step (h : step ar n e = some n') : Steps ar n e n' := by
  cases e with
  | ui cmd =>
    cases cmd with
    | confirmPairing fingerprint => cases h
    | _ => exact Option.some.inj h ▸ .ui _ (by simp)
  | confirm i =>
    simp only [step] at h
    split at h
    case h_1 fingerprint hfp =>
      obtain ⟨s, hs, hslot⟩ := Option.bind_eq_some_iff.mp hfp
      split_ifs at h
      exact Option.some.inj h ▸ .confirm i s fingerprint hs hslot
    case h_2 => cases h
  | revoke fingerprint => exact Option.some.inj h ▸ .revoke fingerprint
  | accept ip key cert =>
    simp only [step] at h
    split at h
    case h_1 => cases h
    case h_2 hd => exact Option.some.inj h ▸ .accept ip key cert hd
  | connected i key cert =>
    simp only [step] at h
    split at h
    case h_1 ip edge name queue hh => exact Option.some.inj h ▸ .connected i key cert ip edge name queue hh
    case h_2 => cases h
  | connectFailed i error =>
    simp only [step] at h
    split at h
    case h_1 ip edge name queue hh => exact Option.some.inj h ▸ .connectFailed i error ip edge name queue hh
    case h_2 => cases h
  | receive =>
    simp only [step] at h
    split at h
    case h_1 c rest hd hc => exact Option.some.inj h ▸ .receive c rest hd hc
    case h_2 => cases h
  | visit =>
    simp only [step] at h
    split at h
    case h_1 fingerprint cmd next targets hd => exact Option.some.inj h ▸ .visit fingerprint cmd next targets hd
    case h_2 => cases h
  | send =>
    simp only [step] at h
    split at h
    case h_1 cmd targets hd => exact .send cmd targets n' hd h
    case h_2 => cases h
  | command i epoch =>
    simp only [step] at h
    split at h
    case h_1 s name q queue hh =>
      obtain ⟨p, hstep, heq⟩ := Option.map_eq_some_iff.mp h
      exact heq ▸ .command i epoch s name q queue p hh hstep
    case h_2 => cases h
  | session i event =>
    simp only [step] at h
    split at h
    case h_1 | h_2 => cases h
    case h_3 s name queue hcmd hclosed hh =>
      obtain ⟨p, hstep, heq⟩ := Option.map_eq_some_iff.mp h
      exact heq ▸ .session i _ s name queue p hh ⟨hcmd, hclosed⟩ hstep
    case h_4 => cases h
    case h_5 => cases h
  | datagram packet => exact Option.some.inj h ▸ .datagram packet

/-! ### Sessions -/

theorem session?_of_handle {i : ℕ} {h : Handle} (hh : n.handles[i]? = some h) : n.session? i = h.session? := by
  rw [session?, hh, Option.bind_some]

theorem session?_eq_some {i : ℕ} {s : Session} :
    n.session? i = some s ↔ ∃ h, n.handles[i]? = some h ∧ h.session? = some s :=
  Option.bind_eq_some_iff

theorem session?_set {i j : ℕ} {h : Handle} (hi : i < n.handles.length)
    (hn' : n'.handles = n.handles.set i h) : n'.session? j = if j = i then h.session? else n.session? j := by
  unfold session?
  rw [hn', List.getElem?_set]
  by_cases hij : i = j
  · subst hij
    simp [hi]
  · simp [hij, Ne.symm hij]

theorem session?_push {j : ℕ} {h : Handle} (hn' : n'.handles = n.handles ++ [h]) :
    n'.session? j = if j = n.handles.length then h.session? else n.session? j := by
  unfold session?
  rw [hn', List.getElem?_append]
  rcases Nat.lt_trichotomy j n.handles.length with hlt | rfl | hgt
  · simp [hlt, hlt.ne]
  · simp
  · have hlast : [h][j - n.handles.length]? = none := List.getElem?_eq_none (by simp; omega)
    simp [hlast, hgt.ne', hgt.le]

/-- The session and its event, if the event is a step of a session. -/
def acts (n : Node x) : NodeEvent → Option (ℕ × SessionEvent)
  | .command i epoch => match n.handles[i]? with
    | some ⟨_, _, q :: _⟩ => some (i, .cmd q.cmd epoch)
    | _ => none
  | .session i event => some (i, event)
  | _ => none

theorem eq_session_of_acts {i : ℕ} {event : SessionEvent} (hacts : n.acts e = some (i, event))
    (hcmd : ∀ cmd epoch, event ≠ .cmd cmd epoch) : e = .session i event := by
  cases e with
  | command j epoch =>
    simp only [acts] at hacts
    split at hacts
    · simp only [Option.some.injEq, Prod.mk.injEq] at hacts
      exact absurd hacts.2.symm (hcmd _ _)
    · cases hacts
  | session j event' =>
    simp only [acts, Option.some.injEq, Prod.mk.injEq] at hacts
    obtain ⟨rfl, rfl⟩ := hacts
    rfl
  | _ => cases hacts

theorem session?_afterStep {i j : ℕ} {s : Session} {name : String} {queue : List Queued} {event : SessionEvent}
    {p : AppCore x × Session} (hi : i < n.handles.length) :
    (n.afterStep i name s queue event p).session? j = if j = i then some p.2 else n.session? j :=
  session?_set (h := ⟨.session p.2, name, queue⟩) hi rfl

theorem trust_report (core : AppCore x) (name : String) (s : Session) : (report core name s).trust = core.trust := by
  unfold report
  split <;> rfl

theorem inboundRt_report (core : AppCore x) (name : String) (s : Session) :
    (report core name s).inboundRt = core.inboundRt := by
  unfold report
  split <;> rfl

theorem step_of_acts (h : step ar n e = some n') {i : ℕ} {event : SessionEvent} (hacts : n.acts e = some (i, event)) :
    ∃ s p, n.session? i = some s ∧ s.step ar n.core event = some p ∧
      (∀ j, n'.session? j = if j = i then some p.2 else n.session? j) ∧
      n'.core.trust = p.1.trust ∧ n'.core.inboundRt = p.1.inboundRt ∧
      n'.opener = (match s.opens event with
        | some epoch => some (i, epoch)
        | none => n.opener) ∧
      n'.dispatch = n.dispatch ∧ n'.commands = n.commands ∧ n'.handles.length = n.handles.length := by
  have hcore : ∀ (s : Session) (name : String) (queue : List Queued) (event : SessionEvent)
      (p : AppCore x × Session), (n.afterStep i name s queue event p).core.trust = p.1.trust ∧
        (n.afterStep i name s queue event p).core.inboundRt = p.1.inboundRt := by
    intro s name queue event p
    unfold afterStep
    dsimp only
    split_ifs
    · exact ⟨rfl, rfl⟩
    · exact ⟨trust_report .., inboundRt_report ..⟩
  cases steps_of_step h with
  | command j epoch s name q queue p hh hstep =>
    simp only [acts, hh, Option.some.injEq, Prod.mk.injEq] at hacts
    obtain ⟨rfl, rfl⟩ := hacts
    have hlt := (List.getElem?_eq_some_iff.mp hh).1
    exact ⟨s, p, session?_of_handle hh, hstep, fun k => session?_afterStep hlt, (hcore ..).1, (hcore ..).2,
      rfl, rfl, rfl, List.length_set⟩
  | session j event' s name queue p hh hevent hstep =>
    simp only [acts, Option.some.injEq, Prod.mk.injEq] at hacts
    obtain ⟨rfl, rfl⟩ := hacts
    have hlt := (List.getElem?_eq_some_iff.mp hh).1
    exact ⟨s, p, session?_of_handle hh, hstep, fun k => session?_afterStep hlt, (hcore ..).1, (hcore ..).2,
      rfl, rfl, rfl, List.length_set⟩
  | _ => cases hacts

/-- Any other step keeps the sessions there are. -/
theorem session?_of_idle (h : step ar n e = some n') (hacts : n.acts e = none) (j : ℕ) :
    n'.session? j = n.session? j ∨
      (n.session? j = none ∧ ∃ role ip key cert, n'.session? j = some (.new role ip key cert)) := by
  cases steps_of_step h with
  | accept ip key cert hd =>
    have hpush := session?_push (n := n) (j := j) (rfl : ({ n with
      handles := n.handles ++ [⟨.session (.new .controlled ip key cert), "", []⟩] } : Node x).handles = _)
    by_cases hj : j = n.handles.length
    · rw [if_pos hj] at hpush
      exact Or.inr ⟨by simp [session?, hj], .controlled, ip, key, cert, hpush⟩
    · rw [if_neg hj] at hpush
      exact Or.inl hpush
  | connected i key cert ip edge name queue hh =>
    have hset := session?_set (j := j) (List.getElem?_eq_some_iff.mp hh).1 (rfl : ({ n with
      handles := n.handles.set i
        ⟨.session (.new (.controller ip edge) ip key cert), name, queue⟩ } : Node x).handles = _)
    by_cases hji : j = i
    · subst hji
      rw [if_pos rfl] at hset
      exact Or.inr ⟨session?_of_handle hh, _, ip, key, cert, hset⟩
    · rw [if_neg hji] at hset
      exact Or.inl hset
  | connectFailed i error ip edge name queue hh =>
    left
    rw [session?_set (List.getElem?_eq_some_iff.mp hh).1 rfl]
    split_ifs with hji
    · subst hji
      exact (session?_of_handle hh).symm
    · rfl
  | receive c rest hd hc =>
    left
    obtain ⟨cmd, answers⟩ := c
    cases cmd with
    | connect ip name edge =>
      rw [session?_push (n := n) rfl]
      split_ifs with hj
      · simp [session?, hj, Handle.session?]
      · rfl
    | _ => rfl
  | visit fingerprint cmd next targets hd =>
    left
    unfold Node.visit
    split <;> rfl
  | send cmd targets n' hd hsend =>
    left
    unfold sendTo at hsend
    split at hsend
    case h_1 => exact Option.some.inj hsend ▸ rfl
    case h_2 i rest =>
      split at hsend
      case h_1 => cases hsend
      case h_2 t hh =>
        split_ifs at hsend
        · exact Option.some.inj hsend ▸ rfl
        · rw [← Option.some.inj hsend, session?_set (List.getElem?_eq_some_iff.mp hh).1 rfl]
          split_ifs with hji
          · subst hji
            exact (session?_of_handle hh).symm
          · rfl
  | command i epoch s name q queue p hh hstep => simp [acts, hh] at hacts
  | session i event s name queue p hh hevent hstep => cases hacts
  | _ => exact Or.inl rfl

/-! ### Queues -/

/-- The commands waiting for session `i`. -/
def queue (n : Node x) (i : ℕ) : List Queued := (n.handles[i]?.map Handle.queue).getD []

theorem queue_of_handle {i : ℕ} {h : Handle} (hh : n.handles[i]? = some h) : n.queue i = h.queue := by
  rw [queue, hh, Option.map_some, Option.getD_some]

theorem queue_set {i j : ℕ} {h : Handle} (hi : i < n.handles.length)
    (hn' : n'.handles = n.handles.set i h) : n'.queue j = if j = i then h.queue else n.queue j := by
  unfold queue
  rw [hn', List.getElem?_set]
  by_cases hij : i = j
  · subst hij
    simp [hi]
  · simp [hij, Ne.symm hij]

theorem queue_push {i : ℕ} {h : Handle} (hn' : n'.handles = n.handles ++ [h]) {q : Queued} (hq : q ∈ n.queue i) :
    q ∈ n'.queue i := by
  unfold queue at hq ⊢
  rw [hn']
  cases hh : n.handles[i]? with
  | none => simp [hh] at hq
  | some g =>
    rw [List.getElem?_append_left (List.getElem?_eq_some_iff.mp hh).1, hh]
    rwa [hh] at hq

theorem mem_queue_set {i j : ℕ} {g h : Handle} (hh : n.handles[i]? = some g)
    (hn' : n'.handles = n.handles.set i h) (hsub : ∀ q ∈ g.queue, q ∈ h.queue) {q : Queued} (hq : q ∈ n.queue j) :
    q ∈ n'.queue j := by
  rw [queue_set (List.getElem?_eq_some_iff.mp hh).1 hn']
  split_ifs with hji
  · subst hji
    rw [queue_of_handle hh] at hq
    exact hsub q hq
  · exact hq

theorem mem_queue_step (h : step ar n e = some n') {i : ℕ} {q : Queued} (hq : q ∈ n.queue i) :
    q ∈ n'.queue i ∨ ∃ epoch, e = .command i epoch ∧ n.acts e = some (i, .cmd q.cmd epoch) := by
  cases steps_of_step h with
  | accept ip key cert hd => exact Or.inl (queue_push rfl hq)
  | connected j key cert ip edge name queue hh => exact Or.inl (mem_queue_set hh rfl (by exact fun _ h => h) hq)
  | connectFailed j error ip edge name queue hh => exact Or.inl (mem_queue_set hh rfl (by exact fun _ h => h) hq)
  | receive c rest hd hc =>
    left
    obtain ⟨cmd, answers⟩ := c
    cases cmd with
    | connect ip name edge => exact queue_push rfl hq
    | _ => exact hq
  | visit fingerprint cmd next targets hd =>
    left
    unfold Node.visit
    split <;> exact hq
  | send cmd targets n' hd hsend =>
    left
    unfold sendTo at hsend
    split at hsend
    case h_1 => exact Option.some.inj hsend ▸ hq
    case h_2 k rest =>
      split at hsend
      case h_1 => cases hsend
      case h_2 t hh =>
        split_ifs at hsend
        · exact Option.some.inj hsend ▸ hq
        · rw [← Option.some.inj hsend]
          exact mem_queue_set hh rfl (fun _ h => List.mem_append_left _ h) hq
  | command k epoch s name q' queue p hh hstep =>
    by_cases hik : i = k
    · subst hik
      rw [queue_of_handle hh] at hq
      rcases List.mem_cons.mp hq with rfl | htail
      · exact Or.inr ⟨epoch, rfl, by simp [acts, hh]⟩
      · left
        rw [queue_set (List.getElem?_eq_some_iff.mp hh).1 rfl, if_pos rfl]
        exact htail
    · left
      rwa [queue_set (List.getElem?_eq_some_iff.mp hh).1 rfl, if_neg hik]
  | session k event s name queue p hh hevent hstep => exact Or.inl (mem_queue_set hh rfl (by exact fun _ h => h) hq)
  | _ => exact Or.inl hq

theorem mem_queue_of_step (h : step ar n e = some n') {i : ℕ} {q : Queued} (hq : q ∈ n'.queue i) :
    q ∈ n.queue i ∨ ∃ rest, n.dispatch = .sending q (i :: rest) := by
  have hset : ∀ {k : ℕ} {g t : Handle} {m : Node x}, n.handles[k]? = some g → m.handles = n.handles.set k t →
      (∀ q ∈ t.queue, q ∈ g.queue) → q ∈ m.queue i → q ∈ n.queue i := by
    intro k g t m hh hm hsub hq
    rw [queue_set (List.getElem?_eq_some_iff.mp hh).1 hm] at hq
    split_ifs at hq with hik
    · subst hik
      rw [queue_of_handle hh]
      exact hsub q hq
    · exact hq
  have hpush : ∀ {t : Handle} {m : Node x}, m.handles = n.handles ++ [t] → t.queue = [] → q ∈ m.queue i →
      q ∈ n.queue i := by
    intro t m hm hempty hq
    unfold queue at hq ⊢
    rw [hm, List.getElem?_append] at hq
    split_ifs at hq with hlt
    · exact hq
    · rcases hindex : i - n.handles.length with _ | d <;> simp [hindex, hempty] at hq
  cases steps_of_step h with
  | accept ip key cert hd => exact Or.inl (hpush rfl rfl hq)
  | connected k key cert ip edge name queue hh => exact Or.inl (hset hh rfl (by exact fun _ h => h) hq)
  | connectFailed k error ip edge name queue hh => exact Or.inl (hset hh rfl (by exact fun _ h => h) hq)
  | receive c rest hd hc =>
    left
    obtain ⟨cmd, answers⟩ := c
    cases cmd with
    | connect ip name edge => exact hpush rfl rfl hq
    | _ => exact hq
  | visit fingerprint cmd next targets hd =>
    left
    unfold Node.visit at hq
    split at hq <;> exact hq
  | send cmd targets n' hd hsend =>
    unfold sendTo at hsend
    split at hsend
    case h_1 =>
      cases hsend
      exact Or.inl hq
    case h_2 k rest =>
      split at hsend
      case h_1 => cases hsend
      case h_2 t hh =>
        split_ifs at hsend
        · cases hsend
          exact Or.inl hq
        · cases hsend
          rw [queue_set (List.getElem?_eq_some_iff.mp hh).1 rfl] at hq
          split_ifs at hq with hik
          · subst hik
            rcases List.mem_append.mp hq with hold | hnew
            · rw [queue_of_handle hh]
              exact Or.inl hold
            · rw [List.mem_singleton.mp hnew]
              exact Or.inr ⟨rest, hd⟩
          · exact Or.inl hq
  | command k epoch s name q' queue p hh hstep =>
    exact Or.inl (hset hh rfl (by exact fun q h => List.mem_cons_of_mem _ h) hq)
  | session k event s name queue p hh hevent hstep => exact Or.inl (hset hh rfl (by exact fun _ h => h) hq)
  | _ => exact Or.inl hq

/-! ### What is shared -/

/-- What an event that is no session's does to the trust store. -/
def trustAfter (trust : TrustStore) : NodeEvent → TrustStore
  | .revoke fingerprint => trust.revoke fingerprint
  | _ => trust

/-- What an event that is no session's does to the inbound channel. -/
def inboundAfter (x : Crates) (inbound : Option RealtimeCrypto) : NodeEvent → Option RealtimeCrypto
  | .datagram packet => inbound.map fun rt => (rt.open x packet).1
  | _ => inbound

theorem core_of_idle (h : step ar n e = some n') (hacts : n.acts e = none) :
    n'.core.trust = trustAfter n.core.trust e ∧ n'.core.inboundRt = inboundAfter x n.core.inboundRt e ∧
      n'.opener = n.opener := by
  cases steps_of_step h with
  | receive c rest hd hc =>
    obtain ⟨cmd, answers⟩ := c
    cases cmd <;> exact ⟨rfl, rfl, rfl⟩
  | visit fingerprint cmd next targets hd =>
    unfold Node.visit
    split <;> exact ⟨rfl, rfl, rfl⟩
  | send cmd targets n' hd hsend =>
    unfold sendTo at hsend
    split at hsend
    case h_1 => exact Option.some.inj hsend ▸ ⟨rfl, rfl, rfl⟩
    case h_2 i rest =>
      split at hsend
      case h_1 => cases hsend
      case h_2 t hh =>
        split_ifs at hsend
        · exact Option.some.inj hsend ▸ ⟨rfl, rfl, rfl⟩
        · exact Option.some.inj hsend ▸ ⟨rfl, rfl, rfl⟩
  | command i epoch s name q queue p hh hstep => simp [acts, hh] at hacts
  | session i event s name queue p hh hevent hstep => cases hacts
  | datagram packet =>
    unfold Node.datagram inboundAfter
    cases hin : n.core.inboundRt with
    | none => exact ⟨rfl, hin, rfl⟩
    | some rt =>
      dsimp only
      split
      · exact ⟨rfl, rfl, rfl⟩
      · split <;> exact ⟨rfl, rfl, rfl⟩
  | _ => exact ⟨rfl, rfl, rfl⟩

end ScreenLink.Node

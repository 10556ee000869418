import ScreenLink.Session.Types
import Mathlib.Data.List.TakeWhile

/-!
# Two-sided confirmation

What the pairing loops are for, without the code around them: two parties, each with a user who confirms or cancels,
and messages that arrive in order. A party that has confirmed and has heard the other's confirmation is `through`, and
may then send anything (`data`); data that reaches a party still in its loop breaks its handshake.

If no party trusts the other beforehand, no handshake is broken (`unbroken_of_untrusted`), since what a party sends
once it is through comes after its confirmation. When both are done, both are through or neither is, unless both users
have confirmed and exactly one of them has cancelled afterwards, or a party's last messages, its confirmation among
them, were thrown away when it was done (`agreement_iff`).
-/

namespace ScreenLink.Handshake

inductive Msg
  | begin
  | confirm
  | cancel
  | data
  deriving DecidableEq

inductive Stage
  | early
  | loop (mine theirs : Bool)
  | through
  | failed
  | broken
  deriving DecidableEq

structure Party where
  stage : Stage
  /-- Sent and not yet read. -/
  out : List Msg
  writer : Bool
  /-- History: the user has confirmed in the loop. -/
  confirmed : Bool
  /-- History: the user has cancelled in the loop. -/
  cancelled : Bool
  /-- History: the stream has ended in the loop, before the other's confirmation was read. -/
  lost : Bool

abbrev State := Side → Party

def State.initial : State := fun _ => ⟨.early, [], true, false, false, false⟩

namespace Stage

/-- Not done with the handshake. -/
def waiting : Stage → Bool
  | .early | .loop _ _ => true
  | _ => false

/-- The other's confirmation has arrived. -/
def theirs : Stage → Bool
  | .loop _ theirs => theirs
  | _ => false

/-- The loop's test. -/
def settle (mine theirs : Bool) : Stage := if mine && theirs then .through else .loop mine theirs

/-- What a message does to a party. -/
def receive : Stage → Msg → Stage
  | .loop mine theirs, .begin => settle mine theirs
  | .loop mine _, .confirm => settle mine true
  | .loop _ _, .cancel => .failed
  | .loop _ _, .data => .broken
  | stage, _ => stage

/-- In the loop, with the other's confirmation among what has not arrived. -/
def misses (stage : Stage) (out : List Msg) : Bool :=
  match stage with
  | .loop _ _ => decide (.confirm ∈ out)
  | _ => false

end Stage

/-- The stream ends, with `out` unread. -/
def Party.close (p : Party) (out : List Msg) : Party :=
  { p with stage := .failed, lost := p.lost || p.stage.misses out }

def Party.send (p : Party) (msgs : List Msg) : Party := { p with out := if p.writer then p.out ++ msgs else p.out }

/-- Set both parties. -/
def State.put (a : State) (side : Side) (p q : Party) : State :=
  fun s => if s = side then p else if s = side.other then q else a s

/-- One step. `trusts` says who trusts the other beforehand. On a `reliable` connection a party sees its end only when
the other is done and the rest has arrived, or the other was through and has thrown the rest away; and only who writes
to a party that is done loses messages otherwise. -/
inductive Step (trusts : Side → Bool) (reliable : Prop) (a : State) : State → Prop
  | enter (side : Side) (hstage : (a side).stage = .early) (htrust : trusts side = false) :
    Step trusts reliable a
      (a.put side { (a side).send [.begin] with stage := .loop false false } (a side.other))
  | pass (side : Side) (hstage : (a side).stage = .early) (htrust : trusts side = true) :
    Step trusts reliable a (a.put side { a side with stage := .through } (a side.other))
  | confirm (side : Side) (mine theirs : Bool) (hstage : (a side).stage = .loop mine theirs) :
    Step trusts reliable a (a.put side
      { (a side).send [.confirm] with stage := .settle true theirs, confirmed := true } (a side.other))
  | cancel (side : Side) (mine theirs : Bool) (hstage : (a side).stage = .loop mine theirs) :
    Step trusts reliable a
      (a.put side { (a side).send [.cancel] with stage := .failed, cancelled := true } (a side.other))
  | deliver (side : Side) (msg : Msg) (rest : List Msg) (hstage : (a side).stage ≠ .early)
    (hout : (a side.other).out = msg :: rest) :
    Step trusts reliable a (a.put side { a side with stage := (a side).stage.receive msg }
      { a side.other with out := rest })
  | data (side : Side) (n : ℕ) (hstage : (a side).stage = .through) :
    Step trusts reliable a (a.put side ((a side).send (List.replicate n .data)) (a side.other))
  | close (side : Side) (hstage : (a side).stage.waiting = true)
    (hguard : reliable → (a side.other).stage.waiting = false ∧
      ((a side.other).out = [] ∨ (a side.other).stage = .through)) :
    Step trusts reliable a (a.put side ((a side).close (a side.other).out) (a side.other))
  | lose (side : Side) (hguard : reliable → (a side.other).stage.waiting = false) :
    Step trusts reliable a (a.put side { a side with writer := false, out := [] } (a side.other))

inductive Reach (trusts : Side → Bool) (reliable : Prop) : State → Prop
  | initial : Reach trusts reliable .initial
  | step (a a' : State) (h : Reach trusts reliable a) (hstep : Step trusts reliable a a') : Reach trusts reliable a'

/-! ### What precedes the confirmation -/

/-- The message is sent before any confirmation in the queue. -/
def Before (out : List Msg) (msg : Msg) : Prop := msg ∈ out.takeWhile (· ≠ .confirm)

theorem before_append {out msgs : List Msg} {msg : Msg} (h : Before (out ++ msgs) msg) :
    Before out msg ∨ (Msg.confirm ∉ out ∧ msg ∈ msgs) := by
  unfold Before at h ⊢
  rw [List.takeWhile_append] at h
  split_ifs at h with hall
  · have hout : out.takeWhile (· ≠ .confirm) = out := (List.takeWhile_prefix _).eq_of_length hall
    rcases List.mem_append.mp h with hold | hnew
    · exact Or.inl (by rwa [hout])
    · refine Or.inr ⟨fun hmem => ?_, List.takeWhile_subset _ hnew⟩
      rw [← hout] at hmem
      simpa using List.mem_takeWhile_imp hmem
  · exact Or.inl h

theorem before_tail {head msg : Msg} {rest : List Msg} (hhead : head ≠ .confirm) (h : Before rest msg) :
    Before (head :: rest) msg := by
  unfold Before at h ⊢
  rw [List.takeWhile_cons_of_pos (by simpa using hhead)]
  exact List.mem_cons_of_mem _ h

theorem before_head {head : Msg} {rest : List Msg} (hhead : head ≠ .confirm) : Before (head :: rest) head := by
  unfold Before
  rw [List.takeWhile_cons_of_pos (by simpa using hhead)]
  exact List.mem_cons_self

/-! ### The invariant -/

/-- What holds of a party `p` and what it has sent to the party `q`, when neither trusts the other beforehand. -/
structure PartyInv (reliable : Prop) (p q : Party) : Prop where
  early : p.stage = .early → p.out = [] ∧ p.confirmed = false ∧ p.cancelled = false
  loop : ∀ mine theirs, p.stage = .loop mine theirs →
    p.confirmed = mine ∧ p.cancelled = false ∧ (mine = true → theirs = false)
  through : p.stage = .through → p.confirmed = true ∧ p.cancelled = false ∧ q.confirmed = true
  unbroken : p.stage ≠ .broken
  theirs : p.stage.theirs = true → q.confirmed = true
  said : Msg.confirm ∈ p.out → p.confirmed = true
  data : Msg.data ∈ p.out → p.stage = .through
  cancel : Msg.cancel ∈ p.out → p.stage = .failed ∧ p.cancelled = true
  /-- Before `q` knows of the confirmation, data does not arrive, nor does a cancellation after one. -/
  order : q.stage.waiting = true → q.stage.theirs = false →
    ¬ Before p.out .data ∧ (Before p.out .cancel → p.confirmed = false)
  heard : q.stage.waiting = true → p.writer = true → p.confirmed = true →
    q.stage.theirs = true ∨ Msg.confirm ∈ p.out
  alive : reliable → q.stage.waiting = true → p.writer = true
  told : reliable → q.stage.waiting = true → p.cancelled = true → Msg.cancel ∈ p.out
  /-- Who failed has cancelled, or the other has, or the other's confirmation was lost. -/
  failed : reliable → p.stage = .failed →
    p.cancelled = true ∨ (q.cancelled = true ∧ (q.confirmed = true → p.confirmed = false)) ∨ p.lost = true
  lost : p.lost = true → p.stage = .failed ∧
    (reliable → p.confirmed = true ∧ p.cancelled = false ∧ q.stage = .through)

def Inv (reliable : Prop) (a : State) : Prop := ∀ side, PartyInv reliable (a side) (a side.other)

theorem inv_initial (reliable : Prop) : Inv reliable .initial := by
  intro side
  constructor <;> simp [State.initial, Stage.theirs, Before]

theorem inv_put {reliable : Prop} {a : State} {side : Side} {p q : Party} (hp : PartyInv reliable p q)
    (hq : PartyInv reliable q p) : Inv reliable (a.put side p q) := by
  intro s
  rcases Side.eq_or_eq_other side s with rfl | rfl <;> simpa [State.put]

variable {reliable : Prop} {p q : Party}

theorem mem_send {p : Party} {msgs : List Msg} {msg : Msg} (h : msg ∈ (p.send msgs).out) :
    msg ∈ p.out ∨ msg ∈ msgs := by
  unfold Party.send at h
  dsimp only at h
  split_ifs at h
  · exact List.mem_append.mp h
  · exact Or.inl h

theorem before_send {p : Party} {msgs : List Msg} {msg : Msg} (h : Before (p.send msgs).out msg) :
    Before p.out msg ∨ (p.writer = true ∧ Msg.confirm ∉ p.out ∧ msg ∈ msgs) := by
  unfold Party.send at h
  dsimp only at h
  split_ifs at h with hwriter
  · exact (before_append h).imp_right fun hnew => ⟨hwriter, hnew⟩
  · exact Or.inl h

theorem mem_send_of_mem {p : Party} {msgs : List Msg} {msg : Msg} (h : msg ∈ p.out) : msg ∈ (p.send msgs).out := by
  unfold Party.send
  dsimp only
  split_ifs
  · exact List.mem_append_left _ h
  · exact h

theorem mem_send_new {p : Party} {msgs : List Msg} {msg : Msg} (hwriter : p.writer = true) (h : msg ∈ msgs) :
    msg ∈ (p.send msgs).out := by
  unfold Party.send
  dsimp only
  rw [if_pos hwriter]
  exact List.mem_append_right _ h

theorem PartyInv.view {q' : Party} (h : PartyInv reliable p q) (hthrough : q.stage = .through → q'.stage = .through)
    (hconfirmed : q.confirmed = true → q'.confirmed = true)
    (hcancelled : q.cancelled = true → q'.cancelled = true ∧ q'.confirmed = q.confirmed)
    (hwaiting : q'.stage.waiting = true → q.stage.waiting = true ∧ q'.stage.theirs = q.stage.theirs) :
    PartyInv reliable p q' where
  early := h.early
  loop := h.loop
  through hstage := ⟨(h.through hstage).1, (h.through hstage).2.1, hconfirmed (h.through hstage).2.2⟩
  unbroken := h.unbroken
  theirs htheirs := hconfirmed (h.theirs htheirs)
  said := h.said
  data := h.data
  cancel := h.cancel
  order hwait htheirs := h.order (hwaiting hwait).1 ((hwaiting hwait).2.symm.trans htheirs)
  heard hwait hwriter hsaid := by
    rw [(hwaiting hwait).2]
    exact h.heard (hwaiting hwait).1 hwriter hsaid
  alive hrel hwait := h.alive hrel (hwaiting hwait).1
  told hrel hwait := h.told hrel (hwaiting hwait).1
  failed hrel hstage := by
    rcases h.failed hrel hstage with hmine | ⟨hq, himp⟩ | hlost
    · exact Or.inl hmine
    · rw [(hcancelled hq).2]
      exact Or.inr (Or.inl ⟨(hcancelled hq).1, himp⟩)
    · exact Or.inr (Or.inr hlost)
  lost hlost := (h.lost hlost).imp_right fun hrel hr => ⟨(hrel hr).1, (hrel hr).2.1, hthrough (hrel hr).2.2⟩

/-! ### Steps of a party -/

theorem enter_inv (hp : PartyInv reliable p q) (hq : PartyInv reliable q p) (hstage : p.stage = .early) :
    PartyInv reliable { p.send [.begin] with stage := .loop false false } q ∧
      PartyInv reliable q { p.send [.begin] with stage := .loop false false } := by
  obtain ⟨hout, hconfirmed, hcancelled⟩ := hp.early hstage
  have hbegin : ∀ msg ∈ (p.send [.begin]).out, msg = .begin := by
    intro msg hmem
    rcases mem_send hmem with hold | hnew
    · rw [hout] at hold
      cases hold
    · exact List.mem_singleton.mp hnew
  constructor
  · constructor
    case early => exact nofun
    case loop =>
      rintro mine theirs ⟨⟩
      exact ⟨hconfirmed, hcancelled, fun _ => rfl⟩
    case through => exact nofun
    case unbroken => exact nofun
    case theirs => exact nofun
    case said => exact fun hmem => nomatch hbegin _ hmem
    case data => exact fun hmem => nomatch hbegin _ hmem
    case cancel => exact fun hmem => nomatch hbegin _ hmem
    case order =>
      refine fun _ _ => ⟨fun hb => ?_, fun _ => hconfirmed⟩
      cases hbegin _ (List.takeWhile_subset _ hb)
    case heard => exact fun _ _ hsaid => nomatch hconfirmed.symm.trans hsaid
    case alive => exact hp.alive
    case told => exact fun _ _ hsaid => nomatch hcancelled.symm.trans hsaid
    case failed => exact nofun
    case lost => exact fun h => nomatch hstage.symm.trans (hp.lost h).1
  · refine hq.view (fun h => nomatch hstage.symm.trans h) id (fun h => ⟨h, rfl⟩) fun _ => ?_
    rw [hstage]
    exact ⟨rfl, rfl⟩

theorem waiting_settle {mine theirs : Bool} (h : (Stage.settle mine theirs).waiting = true) :
    Stage.settle mine theirs = .loop mine theirs := by
  unfold Stage.settle at h ⊢
  split_ifs at h ⊢ with hboth
  · cases h
  · rfl

theorem confirm_inv (hp : PartyInv reliable p q) (hq : PartyInv reliable q p) {mine theirs : Bool}
    (hstage : p.stage = .loop mine theirs) :
    PartyInv reliable { p.send [.confirm] with stage := .settle true theirs, confirmed := true } q ∧
      PartyInv reliable q { p.send [.confirm] with stage := .settle true theirs, confirmed := true } := by
  obtain ⟨hmine, hcancelled, hnot⟩ := hp.loop mine theirs hstage
  have hsettle : Stage.settle true theirs = if theirs then .through else .loop true false := by
    cases theirs <;> rfl
  have hold : ∀ msg ∈ (p.send [.confirm]).out, msg ≠ .confirm → msg ∈ p.out := by
    intro msg hmem hne
    exact (mem_send hmem).resolve_right fun hnew => hne (List.mem_singleton.mp hnew)
  constructor
  · constructor
    case early =>
      intro h
      rw [hsettle] at h
      cases theirs <;> cases h
    case loop =>
      intro m t h
      rw [hsettle] at h
      cases theirs <;> cases h
      exact ⟨rfl, hcancelled, fun _ => rfl⟩
    case through =>
      intro h
      rw [hsettle] at h
      cases theirs with
      | false => cases h
      | true => exact ⟨rfl, hcancelled, hp.theirs (by rw [hstage]; rfl)⟩
    case unbroken =>
      rw [hsettle]
      cases theirs <;> exact nofun
    case theirs =>
      intro h
      rw [hsettle] at h
      cases theirs <;> cases h
    case said => exact fun _ => rfl
    case data =>
      intro hmem
      have := hp.data (hold _ hmem nofun)
      rw [hstage] at this
      cases this
    case cancel =>
      intro hmem
      have := (hp.cancel (hold _ hmem nofun)).1
      rw [hstage] at this
      cases this
    case order =>
      intro hwait htheirs
      have hbefore : ∀ msg, msg ≠ .confirm → Before (p.send [.confirm]).out msg → Before p.out msg :=
        fun msg hne h => (before_send h).resolve_right fun hnew => hne (List.mem_singleton.mp hnew.2.2)
      refine ⟨fun hb => (hp.order hwait htheirs).1 (hbefore _ nofun hb), fun hb => ?_⟩
      -- a party in its loop has not cancelled
      have := (hp.cancel (List.takeWhile_subset _ (hbefore _ nofun hb))).1
      rw [hstage] at this
      cases this
    case heard => exact fun _ hwriter _ => Or.inr (mem_send_new hwriter (List.mem_singleton_self _))
    case alive => exact hp.alive
    case told => exact fun _ _ hsaid => nomatch hcancelled.symm.trans hsaid
    case failed =>
      intro _ h
      rw [hsettle] at h
      cases theirs <;> cases h
    case lost => exact fun h => nomatch hstage.symm.trans (hp.lost h).1
  · refine hq.view (fun h => nomatch hstage.symm.trans h) (fun _ => rfl)
      (fun h => nomatch hcancelled.symm.trans h) fun hwait => ?_
    dsimp only at hwait ⊢
    rw [waiting_settle hwait, hstage]
    exact ⟨rfl, rfl⟩

theorem cancel_inv (hp : PartyInv reliable p q) (hq : PartyInv reliable q p) {mine theirs : Bool}
    (hstage : p.stage = .loop mine theirs) :
    PartyInv reliable { p.send [.cancel] with stage := .failed, cancelled := true } q ∧
      PartyInv reliable q { p.send [.cancel] with stage := .failed, cancelled := true } := by
  obtain ⟨hmine, hcancelled, hnot⟩ := hp.loop mine theirs hstage
  have hold : ∀ msg ∈ (p.send [.cancel]).out, msg ≠ .cancel → msg ∈ p.out := by
    intro msg hmem hne
    exact (mem_send hmem).resolve_right fun hnew => hne (List.mem_singleton.mp hnew)
  constructor
  · constructor
    case early => exact nofun
    case loop => exact nofun
    case through => exact nofun
    case unbroken => exact nofun
    case theirs => exact nofun
    case said => exact fun hmem => hp.said (hold _ hmem nofun)
    case data =>
      intro hmem
      have := hp.data (hold _ hmem nofun)
      rw [hstage] at this
      cases this
    case cancel => exact fun _ => ⟨rfl, rfl⟩
    case order =>
      intro hwait htheirs
      constructor
      · intro hb
        refine (hp.order hwait htheirs).1 ((before_send hb).resolve_right fun hnew => ?_)
        cases List.mem_singleton.mp hnew.2.2
      · intro hb
        rcases before_send hb with hbefore | ⟨hwriter, hno, -⟩
        · exact (hp.order hwait htheirs).2 hbefore
        · -- the confirmation would be in the queue
          by_contra hsaid
          rw [Bool.not_eq_false] at hsaid
          rcases hp.heard hwait hwriter hsaid with hheard | hmem
          · exact Bool.noConfusion (htheirs.symm.trans hheard)
          · exact hno hmem
    case heard => exact fun hwait hwriter hsaid => (hp.heard hwait hwriter hsaid).imp_right mem_send_of_mem
    case alive => exact hp.alive
    case told => exact fun hrel hwait _ => mem_send_new (hp.alive hrel hwait) (List.mem_singleton_self _)
    case failed => exact fun _ _ => Or.inl rfl
    case lost => exact fun h => nomatch hstage.symm.trans (hp.lost h).1
  · exact hq.view (fun h => nomatch hstage.symm.trans h) id (fun h => nomatch hcancelled.symm.trans h) nofun

theorem data_inv (hp : PartyInv reliable p q) (hq : PartyInv reliable q p) (n : ℕ) (hstage : p.stage = .through) :
    PartyInv reliable (p.send (List.replicate n .data)) q ∧ PartyInv reliable q (p.send (List.replicate n .data)) := by
  obtain ⟨hconfirmed, hcancelled, hother⟩ := hp.through hstage
  have hold : ∀ msg ∈ (p.send (List.replicate n .data)).out, msg ≠ .data → msg ∈ p.out := by
    intro msg hmem hne
    exact (mem_send hmem).resolve_right fun hnew => hne (List.eq_of_mem_replicate hnew)
  refine ⟨?_, hq.view id id (fun h => ⟨h, rfl⟩) fun h => ⟨h, rfl⟩⟩
  constructor
  case early => exact fun h => nomatch hstage.symm.trans h
  case loop => exact hp.loop
  case through => exact hp.through
  case unbroken => exact hp.unbroken
  case theirs => exact hp.theirs
  case said => exact fun _ => hconfirmed
  case data => exact fun _ => hstage
  case cancel => exact fun hmem => hp.cancel (hold _ hmem nofun)
  case order =>
    intro hwait htheirs
    constructor
    · intro hb
      rcases before_send hb with hbefore | ⟨hwriter, hno, -⟩
      · exact (hp.order hwait htheirs).1 hbefore
      · -- the confirmation would be in the queue
        rcases hp.heard hwait hwriter hconfirmed with hheard | hmem
        · exact Bool.noConfusion (htheirs.symm.trans hheard)
        · exact hno hmem
    · intro hb
      refine (hp.order hwait htheirs).2 ((before_send hb).resolve_right fun hnew => ?_)
      cases List.eq_of_mem_replicate hnew.2.2
  case heard => exact fun hwait hwriter hsaid => (hp.heard hwait hwriter hsaid).imp_right mem_send_of_mem
  case alive => exact hp.alive
  case told => exact fun hrel hwait hsaid => mem_send_of_mem (hp.told hrel hwait hsaid)
  case failed => exact hp.failed
  case lost => exact hp.lost

theorem closed_facts (hp : PartyInv reliable p q) (hq : PartyInv reliable q p) (hrel : reliable)
    (hstage : p.stage.waiting = true) (hdone : q.stage.waiting = false) (hout : q.out = [] ∨ q.stage = .through) :
    q.stage = .through ∧ p.confirmed = true ∧ p.cancelled = false ∧ p.stage.misses q.out = true := by
  have hnotcancelled : p.cancelled = false := by
    cases hp' : p.stage with
    | early => exact (hp.early hp').2.2
    | loop mine theirs => exact (hp.loop mine theirs hp').2.1
    | through | failed | broken => rw [hp'] at hstage; cases hstage
  cases hq' : q.stage with
  | early | loop mine theirs => rw [hq'] at hdone; cases hdone
  | through =>
    obtain ⟨hconfirmed, -, hother⟩ := hq.through hq'
    refine ⟨rfl, hother, hnotcancelled, ?_⟩
    have hheard := hq.heard hstage (hq.alive hrel hstage) hconfirmed
    cases hp' : p.stage with
    | early => exact Bool.noConfusion ((hp.early hp').2.1.symm.trans hother)
    | loop mine theirs =>
      obtain ⟨hmine, -, hnot⟩ := hp.loop mine theirs hp'
      rw [hp'] at hheard
      -- who has confirmed and heard the other is not in its loop
      exact decide_eq_true (hheard.resolve_left fun htheirs =>
        Bool.noConfusion (htheirs.symm.trans (hnot (hmine.symm.trans hother))))
    | through | failed | broken => rw [hp'] at hstage; cases hstage
  | failed =>
    have hempty : q.out = [] := hout.resolve_right fun h => nomatch hq'.symm.trans h
    rcases hq.failed hrel hq' with hcancelled | ⟨hcancelled, -⟩ | hlost
    · have hmem := hq.told hrel hstage hcancelled
      rw [hempty] at hmem
      cases hmem
    · exact Bool.noConfusion (hnotcancelled.symm.trans hcancelled)
    · have hthrough := ((hq.lost hlost).2 hrel).2.2
      rw [hthrough] at hstage
      cases hstage
  | broken => exact absurd hq' hq.unbroken

theorem close_inv (hp : PartyInv reliable p q) (hq : PartyInv reliable q p) (hstage : p.stage.waiting = true)
    (hguard : reliable → q.stage.waiting = false ∧ (q.out = [] ∨ q.stage = .through)) :
    PartyInv reliable (p.close q.out) q ∧ PartyInv reliable q (p.close q.out) := by
  have hfacts := fun hrel => closed_facts hp hq hrel hstage (hguard hrel).1 (hguard hrel).2
  refine ⟨?_, hq.view (fun h => ?_) id (fun h => ⟨h, rfl⟩) nofun⟩
  · constructor
    case early => exact nofun
    case loop => exact nofun
    case through => exact nofun
    case unbroken => exact nofun
    case theirs => exact nofun
    case said => exact hp.said
    case data =>
      intro hmem
      rw [hp.data hmem] at hstage
      cases hstage
    case cancel => exact fun hmem => ⟨rfl, (hp.cancel hmem).2⟩
    case order => exact hp.order
    case heard => exact hp.heard
    case alive => exact hp.alive
    case told => exact hp.told
    case failed => exact fun hrel _ => Or.inr (Or.inr (Bool.or_eq_true_iff.mpr (Or.inr (hfacts hrel).2.2.2)))
    case lost =>
      refine fun _ => ⟨rfl, fun hrel => ?_⟩
      obtain ⟨hthrough, hconfirmed, hcancelled, -⟩ := hfacts hrel
      exact ⟨hconfirmed, hcancelled, hthrough⟩
  · rw [h] at hstage
    cases hstage

theorem lose_inv (hp : PartyInv reliable p q) (hq : PartyInv reliable q p)
    (hguard : reliable → q.stage.waiting = false) :
    PartyInv reliable { p with writer := false, out := [] } q ∧
      PartyInv reliable q { p with writer := false, out := [] } := by
  refine ⟨?_, hq.view id id (fun h => ⟨h, rfl⟩) fun h => ⟨h, rfl⟩⟩
  constructor
  case early => exact fun h => ⟨rfl, (hp.early h).2⟩
  case loop => exact hp.loop
  case through => exact hp.through
  case unbroken => exact hp.unbroken
  case theirs => exact hp.theirs
  case said => exact nofun
  case data => exact nofun
  case cancel => exact nofun
  case order => exact fun _ _ => ⟨nofun, nofun⟩
  case heard => exact nofun
  case alive => exact fun hrel hwait => nomatch (hguard hrel).symm.trans hwait
  case told => exact fun hrel hwait => nomatch (hguard hrel).symm.trans hwait
  case failed => exact hp.failed
  case lost => exact hp.lost

/-! ### Deliveries -/

theorem waiting_receive {stage : Stage} {msg : Msg} (hearly : stage ≠ .early)
    (h : (stage.receive msg).waiting = true) :
    stage.waiting = true ∧ msg ≠ .cancel ∧
      (stage.receive msg).theirs = (stage.theirs || decide (msg = .confirm)) := by
  cases stage with
  | early => exact absurd rfl hearly
  | loop mine theirs =>
    cases msg with
    | begin =>
      refine ⟨rfl, nofun, ?_⟩
      rw [Stage.receive] at h ⊢
      rw [waiting_settle h]
      simp [Stage.theirs]
    | confirm =>
      refine ⟨rfl, nofun, ?_⟩
      rw [Stage.receive] at h ⊢
      rw [waiting_settle h]
      simp [Stage.theirs]
    | cancel => cases h
    | data => cases h
  | through => cases h
  | failed => cases h
  | broken => cases h

theorem delivered_inv (hq : PartyInv reliable q p) {msg : Msg} {rest : List Msg}
    (hearly : p.stage ≠ .early) (hout : q.out = msg :: rest) :
    PartyInv reliable { q with out := rest } { p with stage := p.stage.receive msg } := by
  have hmem : ∀ m ∈ rest, m ∈ q.out := fun m hm => hout ▸ List.mem_cons_of_mem _ hm
  constructor
  case early =>
    intro h
    rw [(hq.early h).1] at hout
    cases hout
  case loop => exact hq.loop
  case through => exact hq.through
  case unbroken => exact hq.unbroken
  case theirs => exact hq.theirs
  case said => exact fun h => hq.said (hmem _ h)
  case data => exact fun h => hq.data (hmem _ h)
  case cancel => exact fun h => hq.cancel (hmem _ h)
  case order =>
    intro hwait htheirs
    obtain ⟨hwait', -, heq⟩ := waiting_receive hearly hwait
    dsimp only at htheirs
    rw [heq, Bool.or_eq_false_iff, decide_eq_false_iff_not] at htheirs
    obtain ⟨hdata, hcancel⟩ := hq.order hwait' htheirs.1
    rw [hout] at hdata hcancel
    exact ⟨fun hb => hdata (before_tail htheirs.2 hb), fun hb => hcancel (before_tail htheirs.2 hb)⟩
  case heard =>
    intro hwait hwriter hsaid
    obtain ⟨hwait', -, heq⟩ := waiting_receive hearly hwait
    dsimp only
    rw [heq]
    rcases hq.heard hwait' hwriter hsaid with hheard | hin
    · exact Or.inl (by rw [hheard]; rfl)
    · rw [hout] at hin
      rcases List.mem_cons.mp hin with rfl | hin
      · exact Or.inl (by simp)
      · exact Or.inr hin
  case alive => exact fun hrel hwait => hq.alive hrel (waiting_receive hearly hwait).1
  case told =>
    intro hrel hwait hcancelled
    obtain ⟨hwait', hne, -⟩ := waiting_receive hearly hwait
    have hin := hq.told hrel hwait' hcancelled
    rw [hout] at hin
    exact (List.mem_cons.mp hin).resolve_left hne.symm
  case failed => exact hq.failed
  case lost =>
    intro hlost
    obtain ⟨hfailed, hrel⟩ := hq.lost hlost
    refine ⟨hfailed, fun hr => ⟨(hrel hr).1, (hrel hr).2.1, ?_⟩⟩
    rw [(hrel hr).2.2]
    rfl

/-- What `p` has sent stays as it is; `hstage` is what the message has made of `p`. -/
theorem PartyInv.listener {stage : Stage} (hp : PartyInv reliable p q) {rest : List Msg} (hwas : p.stage.waiting = true)
    (hloop : ∀ mine theirs, stage = .loop mine theirs → p.confirmed = mine ∧ p.cancelled = false ∧
      (mine = true → theirs = false))
    (hearly : stage ≠ .early) (hbroken : stage ≠ .broken)
    (hthrough : stage = .through → p.confirmed = true ∧ p.cancelled = false ∧ q.confirmed = true)
    (htheirs : stage.theirs = true → q.confirmed = true)
    (hfailed : stage = .failed → q.cancelled = true ∧ (q.confirmed = true → p.confirmed = false)) :
    PartyInv reliable { p with stage := stage } { q with out := rest } where
  early h := absurd h hearly
  loop := hloop
  through := hthrough
  unbroken := hbroken
  theirs := htheirs
  said := hp.said
  data hmem := by
    rw [hp.data hmem] at hwas
    cases hwas
  cancel hmem := by
    rw [(hp.cancel hmem).1] at hwas
    cases hwas
  order := hp.order
  heard := hp.heard
  alive := hp.alive
  told := hp.told
  failed _ h := Or.inr (Or.inl (hfailed h))
  lost hlost := by
    rw [(hp.lost hlost).1] at hwas
    cases hwas

theorem received_inv (hp : PartyInv reliable p q) (hq : PartyInv reliable q p) {msg : Msg} {rest : List Msg}
    {mine theirs : Bool} (hstage : p.stage = .loop mine theirs) (hout : q.out = msg :: rest) :
    PartyInv reliable { p with stage := p.stage.receive msg } { q with out := rest } := by
  obtain ⟨hmine, hcancelled, hnot⟩ := hp.loop mine theirs hstage
  have hwas : p.stage.waiting = true := by rw [hstage]; rfl
  have hmem : msg ∈ q.out := by rw [hout]; exact List.mem_cons_self
  have horder := hq.order hwas
  have hheard := hp.theirs
  rw [hstage] at horder hheard ⊢
  cases msg with
  | begin =>
    have hsame : Stage.receive (.loop mine theirs) .begin = .loop mine theirs := by
      cases mine
      · rfl
      · rw [hnot rfl]
        rfl
    rw [hsame]
    refine hp.listener hwas ?_ nofun nofun nofun hheard nofun
    rintro _ _ ⟨⟩
    exact ⟨hmine, hcancelled, hnot⟩
  | confirm =>
    have hsaid := hq.said hmem
    cases mine with
    | true => exact hp.listener hwas nofun nofun nofun (fun _ => ⟨hmine, hcancelled, hsaid⟩) nofun nofun
    | false =>
      refine hp.listener hwas ?_ nofun nofun nofun (fun _ => hsaid) nofun
      rintro _ _ ⟨⟩
      exact ⟨hmine, hcancelled, nofun⟩
  | cancel =>
    refine hp.listener hwas nofun nofun nofun nofun nofun fun _ => ⟨(hq.cancel hmem).2, fun hsaid => ?_⟩
    -- a cancellation after a confirmation arrives after it
    cases theirs with
    | true =>
      cases mine
      · exact hmine
      · cases hnot rfl
    | false =>
      have := (horder rfl).2 (by rw [hout]; exact before_head nofun)
      rw [hsaid] at this
      cases this
  | data =>
    exfalso
    cases theirs with
    | true =>
      -- the other is through, so `p` has confirmed and is not in its loop any more
      have := (hq.through (hq.data hmem)).2.2
      cases hnot (hmine.symm.trans this)
    | false => exact (horder rfl).1 (by rw [hout]; exact before_head nofun)

theorem deliver_inv (hp : PartyInv reliable p q) (hq : PartyInv reliable q p) {msg : Msg} {rest : List Msg}
    (hearly : p.stage ≠ .early) (hout : q.out = msg :: rest) :
    PartyInv reliable { p with stage := p.stage.receive msg } { q with out := rest } := by
  cases hstage : p.stage with
  | early => exact absurd hstage hearly
  | loop mine theirs =>
    have := received_inv hp hq hstage hout
    rwa [hstage] at this
  | through | failed | broken =>
    have : PartyInv reliable p { q with out := rest } := hp.view id id (fun h => ⟨h, rfl⟩) fun h => ⟨h, rfl⟩
    rwa [Stage.receive, ← hstage] <;> exact nofun

theorem step_inv {trusts : Side → Bool} (htrusts : ∀ side, trusts side = false) {a a' : State}
    (h : Inv reliable a) (hstep : Step trusts reliable a a') : Inv reliable a' := by
  have hother : ∀ side : Side, PartyInv reliable (a side.other) (a side) := by
    intro side
    have := h side.other
    rwa [Side.other_other] at this
  cases hstep with
  | enter side hstage htrust =>
    obtain ⟨hp, hq⟩ := enter_inv (h side) (hother side) hstage
    exact inv_put hp hq
  | pass side hstage htrust =>
    rw [htrusts] at htrust
    cases htrust
  | confirm side mine theirs hstage =>
    obtain ⟨hp, hq⟩ := confirm_inv (h side) (hother side) hstage
    exact inv_put hp hq
  | cancel side mine theirs hstage =>
    obtain ⟨hp, hq⟩ := cancel_inv (h side) (hother side) hstage
    exact inv_put hp hq
  | deliver side msg rest hstage hout =>
    exact inv_put (deliver_inv (h side) (hother side) hstage hout) (delivered_inv (hother side) hstage hout)
  | data side n hstage =>
    obtain ⟨hp, hq⟩ := data_inv (h side) (hother side) n hstage
    exact inv_put hp hq
  | close side hstage hguard =>
    obtain ⟨hp, hq⟩ := close_inv (h side) (hother side) hstage hguard
    exact inv_put hp hq
  | lose side hguard =>
    obtain ⟨hp, hq⟩ := lose_inv (h side) (hother side) hguard
    exact inv_put hp hq

theorem reach_inv {trusts : Side → Bool} (htrusts : ∀ side, trusts side = false) {a : State}
    (h : Reach trusts reliable a) : Inv reliable a := by
  induction h with
  | initial => exact inv_initial reliable
  | step a a' h hstep ih => exact step_inv htrusts ih hstep

/-! ### Results -/

theorem unbroken_of_untrusted {trusts : Side → Bool} (htrusts : ∀ side, trusts side = false) {a : State}
    (h : Reach trusts reliable a) (side : Side) : (a side).stage ≠ .broken :=
  (reach_inv htrusts h side).unbroken

theorem unbroken_of_trusted {trusts : Side → Bool} (htrusts : ∀ side, trusts side = true) {a : State}
    (h : Reach trusts reliable a) (side : Side) : (a side).stage ≠ .broken := by
  have hstages : ∀ side, (a side).stage = .early ∨ (a side).stage = .through ∨ (a side).stage = .failed := by
    induction h with
    | initial => exact fun _ => Or.inl rfl
    | step a a' h hstep ih =>
      have hput : ∀ (side : Side) (p q : Party), (p.stage = .early ∨ p.stage = .through ∨ p.stage = .failed) →
          q.stage = (a side.other).stage → ∀ s, (a.put side p q s).stage = .early ∨
            (a.put side p q s).stage = .through ∨ (a.put side p q s).stage = .failed := by
        intro side p q hp hq s
        rcases Side.eq_or_eq_other side s with rfl | rfl
        · simpa [State.put] using hp
        · simpa [State.put, hq] using ih side.other
      cases hstep with
      | enter side hstage htrust =>
        rw [htrusts] at htrust
        cases htrust
      | pass side hstage htrust => exact hput side _ _ (Or.inr (Or.inl rfl)) rfl
      | confirm side mine theirs hstage | cancel side mine theirs hstage =>
        rcases ih side with hs | hs | hs <;> rw [hs] at hstage <;> cases hstage
      | deliver side msg rest hstage hout =>
        refine hput side _ _ ?_ rfl
        rcases ih side with hs | hs | hs
        · exact absurd hs hstage
        · exact Or.inr (Or.inl (by simp [hs, Stage.receive]))
        · exact Or.inr (Or.inr (by simp [hs, Stage.receive]))
      | data side n hstage => exact hput side _ _ (Or.inr (Or.inl hstage)) rfl
      | close side hstage hguard => exact hput side _ _ (Or.inr (Or.inr rfl)) rfl
      | lose side hguard => exact hput side _ _ (ih side) rfl
  rcases hstages side with h | h | h <;> rw [h] <;> exact nofun

/-- What stays so when `side` trusts the other and the other does not trust it. -/
structure OneSided (side : Side) (a : State) : Prop where
  admitted : ∀ mine theirs, (a side).stage ≠ .loop mine theirs
  silent : Msg.confirm ∉ (a side).out
  alone : (a side.other).stage.theirs = false ∧ (a side.other).stage ≠ .through

theorem oneSided_put {side : Side} {a : State} (h : OneSided side a) {s : Side} {p q : Party}
    (hside : s = side → (∀ mine theirs, p.stage ≠ .loop mine theirs) ∧
      (Msg.confirm ∈ p.out → Msg.confirm ∈ (a side).out))
    (hother : s = side.other → p.stage.theirs = false ∧ p.stage ≠ .through)
    (hq : q.stage = (a s.other).stage ∧ (Msg.confirm ∈ q.out → Msg.confirm ∈ (a s.other).out)) :
    OneSided side (a.put s p q) := by
  rcases Side.eq_or_eq_other side s with rfl | rfl
  · obtain ⟨hstage, hout⟩ := hside rfl
    constructor <;> simp only [State.put, if_true, if_neg (Side.other_ne _)]
    · exact hstage
    · exact fun hmem => h.silent (hout hmem)
    · rw [hq.1]
      exact h.alone
  · rw [Side.other_other] at hq
    constructor <;> simp only [State.put, if_true, if_neg (Side.other_ne _).symm, Side.other_other]
    · rw [hq.1]
      exact h.admitted
    · exact fun hmem => h.silent (hq.2 hmem)
    · exact hother rfl

theorem oneSided_of_reach {trusts : Side → Bool} {side : Side} (hside : trusts side = true)
    (hother : trusts side.other = false) {a : State} (h : Reach trusts reliable a) : OneSided side a := by
  induction h with
  | initial => exact ⟨nofun, nofun, rfl, nofun⟩
  | step a a' h hstep ih =>
    have hsame : ∀ s : Side, (a s.other).stage = (a s.other).stage ∧
        (Msg.confirm ∈ (a s.other).out → Msg.confirm ∈ (a s.other).out) := fun s => ⟨rfl, id⟩
    cases hstep with
    | enter s hstage htrust =>
      refine oneSided_put ih ?_ (fun _ => ⟨rfl, nofun⟩) (hsame s)
      rintro rfl
      exact Bool.noConfusion (htrust.symm.trans hside)
    | pass s hstage htrust =>
      refine oneSided_put ih (fun heq => ⟨nofun, heq ▸ id⟩) ?_ (hsame s)
      rintro rfl
      exact Bool.noConfusion (hother.symm.trans htrust)
    | confirm s mine theirs hstage =>
      refine oneSided_put ih ?_ ?_ (hsame s)
      · rintro rfl
        exact absurd hstage (ih.admitted mine theirs)
      · rintro rfl
        have htheirs : theirs = false := by simpa [hstage, Stage.theirs] using ih.alone.1
        rw [htheirs]
        exact ⟨rfl, nofun⟩
    | cancel s mine theirs hstage =>
      refine oneSided_put ih ?_ (fun _ => ⟨rfl, nofun⟩) (hsame s)
      rintro rfl
      exact absurd hstage (ih.admitted mine theirs)
    | deliver s msg rest hstage hout =>
      have hmem : ∀ m, m ∈ rest → m ∈ (a s.other).out := fun m hm => hout ▸ List.mem_cons_of_mem _ hm
      refine oneSided_put ih ?_ ?_ ⟨rfl, hmem _⟩
      · rintro rfl
        refine ⟨fun mine theirs => ?_, id⟩
        cases hwas : (a s).stage with
        | early => exact absurd hwas hstage
        | loop m t => exact absurd hwas (ih.admitted m t)
        | through | failed | broken => exact nofun
      · rintro rfl
        obtain ⟨htheirs, hthrough⟩ := ih.alone
        rw [Side.other_other] at hout
        have hne : msg ≠ .confirm := by
          rintro rfl
          exact ih.silent (by rw [hout]; exact List.mem_cons_self)
        cases hwas : (a side.other).stage with
        | early => exact absurd hwas hstage
        | loop mine theirs =>
          rw [hwas] at htheirs
          obtain rfl : theirs = false := htheirs
          cases msg with
          | confirm => exact absurd rfl hne
          | begin => cases mine <;> exact ⟨rfl, nofun⟩
          | cancel | data => exact ⟨rfl, nofun⟩
        | through => exact absurd hwas hthrough
        | failed | broken => exact ⟨rfl, nofun⟩
    | data s n hstage =>
      refine oneSided_put ih ?_ ?_ (hsame s)
      · rintro rfl
        refine ⟨fun mine theirs heq => (nomatch hstage.symm.trans heq), fun hmem => ?_⟩
        exact (mem_send hmem).resolve_right fun hnew => nomatch List.eq_of_mem_replicate hnew
      · rintro rfl
        exact absurd hstage ih.alone.2
    | close s hstage => exact oneSided_put ih (fun heq => ⟨nofun, heq ▸ id⟩) (fun _ => ⟨rfl, nofun⟩) (hsame s)
    | lose s =>
      refine oneSided_put ih (fun heq => ⟨?_, nofun⟩) (fun heq => ?_) (hsame s)
      · subst heq
        exact ih.admitted
      · subst heq
        exact ih.alone

theorem failed_of_done {a : State} (hinv : Inv reliable a) {side : Side} (hdone : (a side).stage.waiting = false)
    (hnot : (a side).stage ≠ .through) : (a side).stage = .failed := by
  cases hstage : (a side).stage with
  | early | loop mine theirs => rw [hstage] at hdone; cases hdone
  | through => exact absurd hstage hnot
  | failed => rfl
  | broken => exact absurd hstage (hinv side).unbroken

/-- Two done parties, one through and one not: both have confirmed, and the other has cancelled or lost the
confirmation. -/
theorem lost_of_disagreement {a : State} (hinv : Inv True a) {side : Side} (hthrough : (a side).stage = .through)
    (hfailed : (a side.other).stage = .failed) :
    (a side).confirmed = true ∧ (a side.other).confirmed = true ∧ (a side).cancelled = false ∧
      ((a side.other).cancelled = true ∨ (a side.other).lost = true) := by
  obtain ⟨hconfirmed, hcancelled, hother⟩ := (hinv side).through hthrough
  refine ⟨hconfirmed, hother, hcancelled, ?_⟩
  have := (hinv side.other).failed trivial hfailed
  rw [Side.other_other] at this
  rcases this with h | ⟨h, -⟩ | h
  · exact Or.inl h
  · exact Bool.noConfusion (hcancelled.symm.trans h)
  · exact Or.inr h

theorem disagreement_of_cancelled {a : State} (hinv : Inv True a) (hdone : ∀ side, (a side).stage.waiting = false)
    {side : Side} (hconfirmed : ∀ side, (a side).confirmed = true) (hcancelled : (a side).cancelled = true)
    (hnot : (a side.other).cancelled = false) :
    (a side).stage ≠ .through ∧ (a side.other).stage = .through := by
  have hnotthrough : (a side).stage ≠ .through :=
    fun h => nomatch hcancelled.symm.trans ((hinv side).through h).2.1
  refine ⟨hnotthrough, by_contra fun hother => ?_⟩
  have := (hinv side.other).failed trivial (failed_of_done hinv (hdone side.other) hother)
  rw [Side.other_other] at this
  rcases this with h | ⟨-, himp⟩ | hlost
  · exact Bool.noConfusion (hnot.symm.trans h)
  · exact Bool.noConfusion ((hconfirmed side.other).symm.trans (himp (hconfirmed side)))
  · have hthrough := (((hinv side.other).lost hlost).2 trivial).2.2
    rw [Side.other_other] at hthrough
    exact hnotthrough hthrough

/-- When both parties are done, on a reliable connection: both are through or neither is, if and only if it is not the
case that both users have confirmed and exactly one of them has cancelled, and no confirmation was lost. -/
theorem agreement_iff {trusts : Side → Bool} (htrusts : ∀ side, trusts side = false) {a : State}
    (h : Reach trusts True a) (hdone : ∀ side, (a side).stage.waiting = false) :
    ((a .a).stage = .through ↔ (a .b).stage = .through) ↔
      ¬ ((a .a).confirmed = true ∧ (a .b).confirmed = true ∧ (a .a).cancelled ≠ (a .b).cancelled) ∧
        ∀ side, (a side).lost = false := by
  have hinv := reach_inv htrusts h
  constructor
  · intro hagree
    have hsame : ∀ side, (a side.other).stage = .through → (a side).stage = .through := by
      intro side
      cases side
      · exact hagree.mpr
      · exact hagree.mp
    refine ⟨?_, fun side => ?_⟩
    · rintro ⟨hconfirmed, hconfirmed', hone⟩
      have hall : ∀ side, (a side).confirmed = true := fun side => by cases side <;> assumption
      have hcontra : ∀ side, (a side).cancelled = true → (a side.other).cancelled = false → False := by
        intro side hcancelled hnot
        obtain ⟨hnotthrough, hother⟩ := disagreement_of_cancelled hinv hdone hall hcancelled hnot
        exact hnotthrough (hsame side hother)
      cases ha : (a .a).cancelled <;> cases hb : (a .b).cancelled
      · exact hone (ha.trans hb.symm)
      · exact hcontra .b hb ha
      · exact hcontra .a ha hb
      · exact hone (ha.trans hb.symm)
    · by_contra hlost
      obtain ⟨hfailed, hrel⟩ := (hinv side).lost (Bool.not_eq_false _ ▸ hlost)
      exact nomatch hfailed.symm.trans (hsame side (hrel trivial).2.2)
  · rintro ⟨hnot, hlost⟩
    have hboth : ∀ side, (a side).stage = .through → (a side.other).stage = .through := by
      intro side hthrough
      by_contra hother
      obtain ⟨hs, hs', hc, hc' | hc'⟩ :=
        lost_of_disagreement hinv hthrough (failed_of_done hinv (hdone side.other) hother)
      · cases side with
        | a => exact hnot ⟨hs, hs', fun heq => nomatch hc.symm.trans (heq.trans hc')⟩
        | b => exact hnot ⟨hs', hs, fun heq => nomatch hc.symm.trans (heq.symm.trans hc')⟩
      · exact Bool.noConfusion ((hlost side.other).symm.trans hc')
    exact ⟨hboth .a, hboth .b⟩

end ScreenLink.Handshake

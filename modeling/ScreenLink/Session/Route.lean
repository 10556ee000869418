import ScreenLink.Session.NodeMoves

/-!
# Routing a command

A session sets its slot before it asks the trust store, and never again (`SlotInv`). So while the dispatcher routes a
command for the fingerprint `F`, a session with `F` in its slot is not missed: it is still to be visited, or a target,
or has the command in its queue (`enRoute_step`).
-/

namespace ScreenLink

namespace Phase

/-- The peer's id, from the moment the slot is set. -/
def named? : Phase → Option String
  | .gate info | .pairing info _ | .paired info | .authenticated info | .running info | .closing info _ =>
    some info.id.id
  | _ => none

/-- The slot is not set yet. -/
def unnamed : Phase → Bool
  | .start | .hello | .greeted _ => true
  | _ => false

theorem named?_afterSelect (info : DeviceInfo) (st : PairingState) :
    (Session.afterSelect info st).named? = some info.id.id := by
  unfold Session.afterSelect
  split_ifs <;> rfl

theorem unnamed_afterSelect (info : DeviceInfo) (st : PairingState) :
    (Session.afterSelect info st).unnamed = false := by
  unfold Session.afterSelect
  split_ifs <;> rfl

theorem named?_of_moves {trusted : String → Bool} {p p' : Phase} {event : SessionEvent} {F : String}
    (h : p.Moves trusted event p') (hp' : p'.named? = some F) : p.named? = some F ∨ event = .setSlot := by
  cases h with
  | setSlot info => exact Or.inr rfl
  | remoteBegin info st | remoteConfirm info st | localConfirm info st epoch | otherCmd info st cmd epoch hcmd =>
    rw [named?_afterSelect] at hp'
    exact Or.inl hp'
  | trusted | untrusted | stored | wired | running | leave | thread => exact Or.inl hp'
  | _ => cases hp'

theorem unnamed_of_moves {trusted : String → Bool} {p p' : Phase} {event : SessionEvent}
    (h : p.Moves trusted event p') (hp' : p'.unnamed = true) : p.unnamed = true ∧ event ≠ .setSlot := by
  cases h with
  | sayHello | greeted => exact ⟨rfl, by simp⟩
  | thread p event hthread =>
    refine ⟨hp', ?_⟩
    rintro rfl
    cases hthread
  | remoteBegin info st | remoteConfirm info st | localConfirm info st epoch | otherCmd info st cmd epoch hcmd =>
    rw [unnamed_afterSelect] at hp'
    cases hp'
  | _ => cases hp'

end Phase

namespace Session

/-- The slot holds the name of a session that has one, and nothing before that. -/
structure SlotOk (s : Session) : Prop where
  named : ∀ F, s.phase.named? = some F → s.slot = some F
  unnamed : s.phase.unnamed = true → s.slot = none

variable {x : Crates} {ar : Arith} {core : AppCore x} {s : Session} {event : SessionEvent} {p : AppCore x × Session}

theorem step_slot (hstep : s.step ar core event = some p) (hslot : event ≠ .setSlot) : p.2.slot = s.slot := by
  by_cases hstore : ∃ err, event = .store err
  · obtain ⟨err, rfl⟩ := hstore
    obtain ⟨-, -, -, -, -, -, -, -, hsame⟩ := step_store hstep
    exact hsame
  · exact (step_frame hstep hslot fun err heq => hstore ⟨err, heq⟩).slot

theorem step_slotOk (hstep : s.step ar core event = some p) (h : s.SlotOk) : p.2.SlotOk := by
  by_cases hslot : event = .setSlot
  · subst hslot
    obtain ⟨info, -, rfl⟩ := step_setSlot hstep
    exact ⟨fun F hF => hF, fun hunnamed => by cases hunnamed⟩
  · have hmoves := step_moves hstep
    constructor
    · intro F hF
      rw [step_slot hstep hslot]
      exact h.named F ((Phase.named?_of_moves hmoves hF).resolve_right hslot)
    · intro hunnamed
      rw [step_slot hstep hslot]
      exact h.unnamed (Phase.unnamed_of_moves hmoves hunnamed).1

end Session

namespace Node

open Machine

variable {x : Crates} {ar : Arith}

/-! ### The slot -/

def SlotInv (n : Node x) : Prop := ∀ i, ∀ s ∈ n.session? i, s.SlotOk

theorem step_slotInv {n n' : Node x} {e : NodeEvent} (h : SlotInv n) (hstep : step ar n e = some n') :
    SlotInv n' := by
  intro i s' hs'
  cases hacts : n.acts e with
  | none =>
    rcases session?_of_idle hstep hacts i with heq | ⟨-, role, ip, key, cert, hnew⟩
    · exact h i s' (heq ▸ hs')
    · rw [hnew] at hs'
      cases hs'
      exact ⟨fun F hF => (nomatch hF), fun _ => rfl⟩
  | some act =>
    obtain ⟨k, event⟩ := act
    obtain ⟨s, p, hs, hp, hsessions, -⟩ := step_of_acts hstep hacts
    rw [hsessions i] at hs'
    by_cases hik : i = k
    · subst hik
      rw [if_pos rfl] at hs'
      cases hs'
      exact Session.step_slotOk hp (h i s hs)
    · rw [if_neg hik] at hs'
      exact h i s' hs'

theorem run_slotInv {core : AppCore x} {es : List NodeEvent} {n : Node x}
    (hrun : run (step ar) (initial core) es = some n) : SlotInv n :=
  run_invariant (P := SlotInv) (fun i s hs => by simp [session?, initial] at hs) (fun _ _ _ => step_slotInv) es n hrun

/-! ### The route -/

/-- The dispatcher is on its way to session `i` with a command for `F` that satisfies `P`. -/
def EnRoute (P : Queued → Prop) (F : String) (i : ℕ) : Dispatch → Prop
  | .filtering fingerprint cmd next targets => fingerprint = some F ∧ P cmd ∧ (next ≤ i ∨ i ∈ targets)
  | .sending cmd targets => P cmd ∧ i ∈ targets
  | .idle => False

/-- One step of the route: a session with `F` in its slot is not lost sight of. -/
theorem enRoute_step {n n' : Node x} {e : NodeEvent} {P : Queued → Prop} {F : String} {i : ℕ} {s : Session}
    (hs : n.session? i = some s) (hslot : s.slot = some F) (hlive : s.phase.finished = false)
    (hroute : EnRoute P F i n.dispatch) (hstep : step ar n e = some n') :
    EnRoute P F i n'.dispatch ∨ ∃ q ∈ n'.queue i, P q := by
  obtain ⟨h, hh, hhs⟩ := session?_eq_some.mp hs
  have hslot' : h.slot = some F := by
    rw [Handle.slot, hhs, Option.bind_some, hslot]
  have hopen : h.closed = false := by
    unfold Handle.session? at hhs
    unfold Handle.closed
    split at hhs
    case h_1 t heq =>
      cases hhs
      rw [heq]
      exact hlive
    case h_2 => cases hhs
  cases steps_of_step hstep with
  | receive c rest hd hc =>
    rw [hd] at hroute
    cases hroute
  | visit fingerprint cmd next targets hd =>
    left
    rw [hd] at hroute
    obtain ⟨rfl, hcmd, hi⟩ := hroute
    unfold Node.visit
    cases hnext : n.handles[next]? with
    | none =>
      have hlen := List.getElem?_eq_none_iff.mp hnext
      have hlt := (List.getElem?_eq_some_iff.mp hh).1
      exact ⟨hcmd, hi.resolve_left (by omega)⟩
    | some g =>
      refine ⟨rfl, hcmd, ?_⟩
      rcases hi with hle | hmem
      · rcases Nat.eq_or_lt_of_le hle with rfl | hlt
        · -- the filter is at this handle, whose slot matches
          rw [hh] at hnext
          cases hnext
          right
          simp [matchesHandle, hslot']
        · exact Or.inl hlt
      · right
        split_ifs
        · exact List.mem_append_left _ hmem
        · exact hmem
  | send cmd targets n' hd hsend =>
    rw [hd] at hroute
    obtain ⟨hcmd, hmem⟩ := hroute
    unfold sendTo at hsend
    split at hsend
    case h_1 => cases hmem
    case h_2 k rest =>
      split at hsend
      case h_1 => cases hsend
      case h_2 g hg =>
        rcases List.mem_cons.mp hmem with rfl | hrest
        · rw [hh] at hg
          cases hg
          rw [hopen, if_neg Bool.false_ne_true] at hsend
          split_ifs at hsend
          right
          refine ⟨cmd, ?_, hcmd⟩
          rw [← Option.some.inj hsend, queue_set (List.getElem?_eq_some_iff.mp hh).1 rfl, if_pos rfl]
          exact List.mem_append_right _ (List.mem_singleton_self _)
        · left
          split_ifs at hsend
          · exact Option.some.inj hsend ▸ ⟨hcmd, hrest⟩
          · exact Option.some.inj hsend ▸ ⟨hcmd, hrest⟩
  | _ => exact Or.inl hroute

end Node

end ScreenLink

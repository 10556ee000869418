import ScreenLink.Input.Capture

/-!
# What the local applications believe is down

They see the events that are not eaten. While control is local that is all of them, so what they believe changes with
the keyboard; while control is remote they see nothing. A key or button held while control crosses is down for them
until control is home, whatever happens to it in between. So nothing that is physically up is down for them while
control is local iff, whenever control comes home, no key or button that was down for them has been released during
the visit (`local_os_iff`). A drag across the edge is enough (`drag_stuck`).
-/

namespace ScreenLink

open HeldKeys Machine HostInput

namespace Capture

/-- Control is on the host: the detector says so, or the loop has exited. -/
def ControlLocal (s : Capture) : Prop := s.exited = true ∨ s.host.det.site = .local

instance (s : Capture) : Decidable s.ControlLocal := inferInstanceAs (Decidable (_ ∨ _))

/-- If control is local, what is physically up is not down for the local applications. -/
def NoneStuck (s : Capture) : Prop :=
  s.ControlLocal → ∀ stroke, ¬ Down s.physical stroke → ¬ Down s.osSaw stroke

/-- Control comes home, and something that is down for the local applications has been released during the visit. -/
def ReleasedAway (x : Crates) (ar : Arith) (desktop : Rect) (s : Capture) (e : CaptureEvent) : Prop :=
  ¬ s.ControlLocal ∧ (∃ t, step x ar desktop s e = some t ∧ t.ControlLocal) ∧
    ∃ stroke, Down s.osSaw stroke ∧ Up s.visit stroke

/-- While control is remote: of what is down for the local applications, that has been released which was released
during the visit. -/
def AwayKnown (s : Capture) : Prop :=
  ¬ s.ControlLocal → ∀ stroke, Down s.osSaw stroke → (¬ Down s.physical stroke ↔ Up s.visit stroke)

variable {x : Crates} {ar : Arith} {desktop : Rect} {s t : Capture}

theorem suppress_iff (hflag : FlagRight s) : s.suppress = true ↔ ¬ s.ControlLocal := by
  rw [FlagRight] at hflag
  rw [hflag, ControlLocal]
  cases s.exited <;> cases s.host.det.site <;> simp

@[simp] theorem controlLocal_hook (s : Capture) (event : CapturedEvent) :
    (s.hook event).ControlLocal ↔ s.ControlLocal := by
  simp [ControlLocal]

theorem noneStuck_hook (hflag : FlagRight s) (hlocal : s.ControlLocal) (hgood : NoneStuck s) (event : CapturedEvent) :
    NoneStuck (s.hook event) := by
  have hoff : s.suppress = false := by
    rw [← Bool.not_eq_true, suppress_iff hflag]
    exact not_not.mpr hlocal
  intro _ stroke
  simp only [hook, hoff, Bool.false_eq_true, if_false]
  rcases event.stroke? with _ | ⟨pressed, b⟩
  · simpa using hgood hlocal stroke
  · rw [Option.toList_some, down_snoc, down_snoc]
    split_ifs
    · exact id
    · exact hgood hlocal stroke

theorem awayKnown_hook (hflag : FlagRight s) (haway : AwayKnown s) (event : CapturedEvent) :
    AwayKnown (s.hook event) := by
  intro hremote stroke
  rw [controlLocal_hook] at hremote
  have hon : s.suppress = true := (suppress_iff hflag).mpr hremote
  simp only [hook, hon, if_true]
  rcases event.stroke? with _ | ⟨pressed, b⟩
  · simpa using haway hremote stroke
  · rw [Option.toList_some, down_snoc, up_snoc]
    split_ifs
    · simp
    · exact haway hremote stroke

theorem logs_of_turn {e : CaptureEvent} (hturn : LoopTurn x ar desktop s e t) :
    t.physical = s.physical ∧ t.osSaw = s.osSaw ∧
      (s.ControlLocal ∧ ¬ t.ControlLocal → t.visit = []) ∧ (¬ s.ControlLocal → t.visit = s.visit) := by
  rcases hturn with @⟨edge, snapUi, hrunning⟩ | @⟨edgeNow, hrunning⟩ | hrunning
  · refine ⟨rfl, rfl, ?_, fun _ => rfl⟩
    rintro ⟨hlocal, hremote⟩
    have hsite : s.host.det.site = .local := by simpa [ControlLocal, hrunning] using hlocal
    refine absurd (Or.inr ?_) hremote
    have hturn := hostHead_turn x s.host edge snapUi
    generalize hostHead x s.host edge snapUi = h' at hturn
    rcases hturn with _ | ⟨hsite', -, -, -⟩
    · exact hsite
    · rw [hsite] at hsite'
      cases hsite'
  · refine ⟨rfl, rfl, ?_, ?_⟩
    · rintro ⟨hlocal, hremote⟩
      have hsite : s.host.det.site = .local := by simpa [ControlLocal, hrunning] using hlocal
      have hsite' : (s.poll x ar desktop edgeNow).host.det.site = .remote := by
        cases heq : (s.poll x ar desktop edgeNow).host.det.site with
        | «local» => exact absurd (Or.inr heq) hremote
        | remote => rfl
      exact if_pos ⟨hsite, hsite'⟩
    · intro hremote
      exact if_neg fun hcross => hremote (Or.inr hcross.1)
  · exact ⟨rfl, rfl, fun h => absurd (Or.inl rfl) h.2, fun _ => rfl⟩

theorem noneStuck_step {e : CaptureEvent} (hflag : FlagRight s) (hgood : NoneStuck s) (haway : AwayKnown s)
    (hstep : step x ar desktop s e = some t) :
    (NoneStuck t ↔ ¬ ReleasedAway x ar desktop s e) ∧ (NoneStuck t → AwayKnown t) := by
  rcases step_cases hstep with ⟨event, rfl, rfl⟩ | hwheel | hturn
  · have hnot : ¬ ReleasedAway x ar desktop s (.hook event) := by
      rintro ⟨hremote, ⟨u, hu, hlocal⟩, -⟩
      obtain rfl := Option.some.inj hu
      exact hremote ((controlLocal_hook s event).mp hlocal)
    refine ⟨iff_of_true ?_ hnot, fun _ => awayKnown_hook hflag haway event⟩
    by_cases hlocal : s.ControlLocal
    · exact noneStuck_hook hflag hlocal hgood event
    · exact fun hlocal' => absurd ((controlLocal_hook s event).mp hlocal') hlocal
  · obtain ⟨hhost, hexited, -⟩ := hwheel.beside
    obtain ⟨hphysical, hosSaw, hvisit⟩ := hwheel.logs
    have hlocal : t.ControlLocal ↔ s.ControlLocal := by rw [ControlLocal, ControlLocal, hhost, hexited]
    refine ⟨iff_of_true ?_ ?_, fun _ => ?_⟩
    · rw [NoneStuck, hlocal, hphysical, hosSaw]
      exact hgood
    · rintro ⟨hremote, ⟨u, hu, hhome⟩, -⟩
      obtain rfl : t = u := Option.some.inj (hstep.symm.trans hu)
      exact hremote (hlocal.mp hhome)
    · rw [AwayKnown, hlocal, hphysical, hosSaw, hvisit]
      exact haway
  obtain ⟨hphysical, hosSaw, hcross, hstays⟩ := logs_of_turn hturn
  by_cases hlocal : s.ControlLocal
  · -- control is local: nothing is stuck, and a crossing starts a visit
    have hnone := hgood hlocal
    refine ⟨iff_of_true ?_ fun h => h.1 hlocal, fun _ hremote stroke hdown => ?_⟩
    · intro _ stroke
      rw [hphysical, hosSaw]
      exact hnone stroke
    · rw [hosSaw] at hdown
      rw [hphysical, hcross ⟨hlocal, hremote⟩]
      exact iff_of_false (fun hup => hnone stroke hup hdown) (not_up_nil stroke)
  · have hknown := haway hlocal
    refine ⟨?_, fun _ _ stroke hdown => ?_⟩
    · constructor
      · rintro hnone ⟨-, ⟨u, hu, hhome⟩, stroke, hdown, hup⟩
        obtain rfl : t = u := Option.some.inj (hstep.symm.trans hu)
        refine hnone hhome stroke ?_ (hosSaw ▸ hdown)
        rw [hphysical]
        exact (hknown stroke hdown).mpr hup
      · intro hnot hhome stroke hup hdown
        rw [hphysical] at hup
        rw [hosSaw] at hdown
        exact hnot ⟨hlocal, ⟨t, hstep, hhome⟩, stroke, hdown, (hknown stroke hdown).mp hup⟩
    · rw [hosSaw] at hdown
      rw [hphysical, hstays hlocal]
      exact hknown stroke hdown

theorem exists_down_iff (s : Capture) :
    (∃ stroke, Down s.osSaw stroke ∧ Up s.visit stroke) ↔
      ∃ entry ∈ s.osSaw, Down s.osSaw entry.1 ∧ Up s.visit entry.1 := by
  constructor
  · rintro ⟨stroke, hdown, hup⟩
    exact ⟨(stroke, true), List.mem_of_mem_filter (List.mem_of_getLast? hdown), hdown, hup⟩
  · rintro ⟨entry, -, hboth⟩
    exact ⟨entry.1, hboth⟩

instance (s : Capture) (e : CaptureEvent) : Decidable (ReleasedAway x ar desktop s e) :=
  decidable_of_iff
    (¬ s.ControlLocal ∧ (step x ar desktop s e).any (fun t => decide t.ControlLocal) = true ∧
      ∃ entry ∈ s.osSaw, Down s.osSaw entry.1 ∧ Up s.visit entry.1)
    (by simp only [ReleasedAway, exists_down_iff, Option.any_eq_true, decide_eq_true_eq])

end Capture

open Capture in
/-- For every interleaving of physical presses and releases with the loop: in every state in which control is local,
nothing that is physically up is down for the local applications, iff whenever control comes home nothing that was
down for them has been released during the visit. -/
theorem local_os_iff (x : Crates) (ar : Arith) (desktop : Rect) (edge : ScreenEdge) (hysteresis : Int)
    (rt : RealtimeCrypto) (es : List CaptureEvent) (s : Capture)
    (hrun : run (step x ar desktop) (start (.start edge hysteresis rt)) es = some s) :
    (∀ front back t, es = front ++ back →
        run (step x ar desktop) (start (.start edge hysteresis rt)) front = some t → NoneStuck t) ↔
      ¬ Seen (step x ar desktop) (ReleasedAway x ar desktop) (start (.start edge hysteresis rt)) es := by
  refine always_good_iff (A := fun t => FlagRight t ∧ AwayKnown t) ?_ ?_ ?_ hrun
  · exact fun _ stroke _ => not_down_nil stroke
  · exact ⟨by rfl, fun hremote => absurd (Or.inr rfl) hremote⟩
  · rintro t e u hgood ⟨hflag, haway⟩ hstep
    have hnext := noneStuck_step hflag hgood haway hstep
    exact ⟨hnext.1, fun hgood' => ⟨flagRight_step hflag hstep, hnext.2 hgood'⟩⟩

/-- Capture starts with control on the host. -/
def captureStart : Capture := .start (.start .right 25 (RealtimeCrypto.new (Vector.replicate 32 7) 1 true))

/-- The left button is clicked, the cursor crosses, the button goes down and up again there, and the user asks to snap
home. -/
def clickAway : List CaptureEvent :=
  [.hook (.input (.mouseButton .left true)), .hook (.input (.mouseButton .left false)), .head .right false,
    .poll .right, .head .right false, .poll .right, .hook (.move 5 0 1919 540), .head .right false, .poll .right,
    .hook (.input (.mouseButton .left true)), .hook (.input (.mouseButton .left false)), .head .right true]

theorem local_os_iff_clickAway :
    ∃ s, run (Capture.step shiftCrates .exact ⟨0, 0, 1920, 1080⟩) captureStart clickAway = some s ∧
      ∀ front back t, clickAway = front ++ back →
        run (Capture.step shiftCrates .exact ⟨0, 0, 1920, 1080⟩) captureStart front = some t → t.NoneStuck := by
  obtain ⟨s, hrun, -⟩ : ∃ s, run (Capture.step shiftCrates .exact ⟨0, 0, 1920, 1080⟩) captureStart clickAway = some s ∧
      s.exited = false := exists_run (by decide +kernel)
  exact ⟨s, hrun, (local_os_iff shiftCrates .exact ⟨0, 0, 1920, 1080⟩ .right 25 _ clickAway s hrun).mpr
    (by decide +kernel)⟩

/-- The left button goes down, the cursor crosses, the button comes up there, and the user asks to snap home. -/
def dragAway : List CaptureEvent :=
  [.hook (.input (.mouseButton .left true)), .head .right false, .poll .right, .hook (.move 5 0 1919 540),
    .head .right false, .poll .right, .hook (.input (.mouseButton .left false)), .head .right true]

/-- The local applications are left with the button down. -/
theorem drag_stuck :
    ∃ s, run (Capture.step shiftCrates .exact ⟨0, 0, 1920, 1080⟩) captureStart dragAway = some s ∧ ¬ s.NoneStuck := by
  obtain ⟨s, hrun, hlocal, hup, hdown⟩ :
      ∃ s, run (Capture.step shiftCrates .exact ⟨0, 0, 1920, 1080⟩) captureStart dragAway = some s ∧
        s.ControlLocal ∧ ¬ Down s.physical (.button .left) ∧ Down s.osSaw (.button .left) :=
    exists_run (by decide +kernel)
  exact ⟨s, hrun, fun hnone => hnone hlocal _ hup hdown⟩

end ScreenLink

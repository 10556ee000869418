import ScreenLink.Session.Settles
import ScreenLink.Session.Stall

/-!
# A connection that is stuck

The two main loops can come to wait for each other: each waits for room to send, and the queues ahead of it are full up to
the other, which takes nothing while it waits. From then on neither takes a message, a tick or a command, until the
connection breaks. So many pings of both ends are enough, sent while neither handles what the other sends
(`gridlock_for_good`).
-/

namespace ScreenLink

open Machine BoundedChannel

namespace Duplex

variable {x : Crates} {ar : Arith} {capacity : ℕ} {d d' t : Duplex x} {e : DuplexEvent} {side : Side} {k : ℕ}

/-! ### Into a gridlock -/

theorem exists_tick (ar : Arith) (capacity : ℕ) (hd : Flowing d) (hfree : ¬ d.MainWaits side) :
    ∃ t, step ar capacity d (.link (.act side .tick)) = some t ∧ Flowing t ∧
      t.lane side = { d.lane side with line := (d.lane side).line ++ [.main] } ∧
      t.lane side.other = d.lane side.other := by
  obtain ⟨info, hphase⟩ := hd.running side
  have hwriter : (d.link.session side).writer = true := hd.writer side
  have htick : (d.link.session side).tick info = { d.link.session side with
      pingNonce := (d.link.session side).pingNonce + 1
      pingSent := (d.link.session side).pingSent ++ [(d.link.session side).pingNonce + 1]
      out := (d.link.session side).out ++ [.ping ((d.link.session side).pingNonce + 1)] } := by
    simp [Session.tick, Session.send, hwriter]
  have hready : d.ready side .tick = true := by
    rw [MainWaits] at hfree
    simp [ready, SessionEvent.task, hfree]
  have hstep : step ar capacity d (.link (.act side .tick)) = some (d.afterAct side .tick
      (d.link.set side (d.link.core side, (d.link.session side).tick info))) := by
    have hsession : (d.link.session side).step ar (d.link.core side) .tick =
        some (d.link.core side, (d.link.session side).tick info) := by
      unfold Session.step
      rw [session] at hphase
      rw [hphase]
    simp [step, stepLink, Link.acts, hready, Link.step, SessionEvent.ofStream, Link.stepSide, hsession]
  have hfits := step_fits hstep hd.fits
  refine ⟨_, hstep,
    ⟨hd.holds, fun side' => ?_, fun side' => ?_, fun side' => ?_, fun side' msg hmsg => ?_, hfits⟩, ?_, ?_⟩
  · rcases Side.eq_or_eq_other side side' with rfl | rfl
    · exact ⟨info, by simpa [afterAct, session, Link.set, htick] using hphase⟩
    · simpa [afterAct, session, Link.set] using hd.running side.other
  · rcases Side.eq_or_eq_other side side' with rfl | rfl
    · simpa [afterAct, session, Link.set, htick] using hd.slot side'
    · simpa [afterAct, session, Link.set] using hd.slot side.other
  · rcases Side.eq_or_eq_other side side' with rfl | rfl
    · simpa [afterAct, session, Link.set, htick] using hd.writer side'
    · simpa [afterAct, session, Link.set] using hd.writer side.other
  · rcases Side.eq_or_eq_other side side' with rfl | rfl
    · simp only [afterAct, session, Link.set, Function.update_self, htick, List.mem_append, List.mem_singleton] at hmsg
      rcases hmsg with hold | rfl
      · exact hd.accepted side' msg hold
      · rfl
    · refine hd.accepted side.other msg ?_
      simpa [afterAct, session, Link.set] using hmsg
  · simp [afterAct, session, Link.set, htick, Lane.sent, SessionEvent.task]
  · simp [afterAct, Lane.handled]

/-- A lane of which only the queues matter, with nothing but pings in line. -/
structure Filled (side : Side) (line wire inn : ℕ) (other : Lane) (d : Duplex x) : Prop where
  flowing : Flowing d
  lane : d.lane side = ⟨List.replicate line .main, wire, inn⟩
  other : d.lane side.other = other

theorem not_mainWaits_of_filled {line wire inn : ℕ} {other : Lane} (hd : Filled side line wire inn other d)
    (hline : line ≤ OUTBOX) : ¬ d.MainWaits side := by
  rw [mainWaits_iff hd.flowing, hd.lane, Waits]
  dsimp only
  rw [List.drop_of_length_le (by rwa [List.length_replicate])]
  exact List.not_mem_nil

theorem filled_tick (ar : Arith) (capacity : ℕ) {line wire inn : ℕ} {other : Lane}
    (hd : Filled side line wire inn other d) (hline : line ≤ OUTBOX) :
    ∃ t, run (step ar capacity) d [.link (.act side .tick)] = some t ∧ Filled side (line + 1) wire inn other t := by
  obtain ⟨t, ht, hflowing, hlane, hother⟩ := exists_tick ar capacity hd.flowing (not_mainWaits_of_filled hd hline)
  refine ⟨t, by rw [run, ht]; rfl, hflowing, ?_, hother.trans hd.other⟩
  rw [hlane, hd.lane, List.replicate_succ']

theorem filled_write (ar : Arith) {wire inn : ℕ} {other : Lane} (hd : Filled side 1 wire inn other d)
    (hwire : wire < capacity) :
    ∃ t, run (step ar capacity) d [.write side] = some t ∧ Filled side 0 (wire + 1) inn other t := by
  have hflow : Flow capacity d (.write side) (d.onLane side Lane.write) := by
    refine .write side ?_ ?_
    · simp [hd.lane]
    · simpa [hd.lane] using hwire
  refine ⟨_, by rw [run, (step_of_flow ar hd.flowing hflow).2]; rfl, flowing_of_flow hd.flowing hflow, ?_, ?_⟩
  · rw [onLane_lane, hd.lane]
    rfl
  · rw [onLane_lane_other]
    exact hd.other

theorem filled_read (ar : Arith) (capacity : ℕ) {inn : ℕ} {other : Lane} (hd : Filled side 0 1 inn other d)
    (hinn : inn < INBOX + 1) :
    ∃ t, run (step ar capacity) d [.read side.other] = some t ∧ Filled side 0 0 (inn + 1) other t := by
  have hflow : Flow capacity d (.read side.other) (d.onLane side.other.other Lane.read) := by
    refine .read side.other ?_ ?_
    · simp [hd.lane]
    · simpa [hd.lane] using hinn
  refine ⟨_, by rw [run, (step_of_flow ar hd.flowing hflow).2]; rfl, flowing_of_flow hd.flowing hflow, ?_, ?_⟩
  · rw [Side.other_other, onLane_lane, hd.lane]
    rfl
  · rw [Side.other_other, onLane_lane_other]
    exact hd.other

/-- The pings of `side` alone, when the other end handles none, fill all that is ahead of its main loop. -/
theorem exists_filled (ar : Arith) (side : Side) {other : Lane} (hd : Filled side 0 0 0 other d) (hpos : 0 < capacity) :
    ∃ es t, run (step ar capacity) d es = some t ∧ Filled side (OUTBOX + 1) capacity (INBOX + 1) other t := by
  have htrans : ∀ {s t u : Duplex x} {es fs : List DuplexEvent}, run (step ar capacity) s es = some t →
      run (step ar capacity) t fs = some u → run (step ar capacity) s (es ++ fs) = some u :=
    fun ht hu => (run_append_eq_some _).mpr ⟨_, ht, hu⟩
  obtain ⟨es₁, t₁, hrun₁, h₁⟩ : ∃ es t, run (step ar capacity) d es = some t ∧ Filled side 0 0 (INBOX + 1) other t := by
    refine exists_run_of_rounds (P := fun k t => Filled side 0 0 k other t) (fun k s hk hs => ?_) hd
    obtain ⟨t, ht, hticked⟩ := filled_tick ar capacity hs (Nat.zero_le _)
    obtain ⟨u, hu, hwritten⟩ := filled_write ar hticked hpos
    obtain ⟨v, hv, hread⟩ := filled_read ar capacity hwritten hk
    exact ⟨_, v, htrans (htrans ht hu) hv, hread⟩
  obtain ⟨es₂, t₂, hrun₂, h₂⟩ :
      ∃ es t, run (step ar capacity) t₁ es = some t ∧ Filled side 0 capacity (INBOX + 1) other t := by
    refine exists_run_of_rounds (P := fun k t => Filled side 0 k (INBOX + 1) other t) (fun k s hk hs => ?_) h₁
    obtain ⟨t, ht, hticked⟩ := filled_tick ar capacity hs (Nat.zero_le _)
    obtain ⟨u, hu, hwritten⟩ := filled_write ar hticked hk
    exact ⟨_, u, htrans ht hu, hwritten⟩
  obtain ⟨es₃, t₃, hrun₃, h₃⟩ :
      ∃ es t, run (step ar capacity) t₂ es = some t ∧ Filled side (OUTBOX + 1) capacity (INBOX + 1) other t := by
    refine exists_run_of_rounds (P := fun k t => Filled side k capacity (INBOX + 1) other t) (fun k s hk hs => ?_) h₂
    obtain ⟨t, ht, hticked⟩ := filled_tick ar capacity hs (Nat.le_of_lt_succ hk)
    exact ⟨_, t, ht, hticked⟩
  exact ⟨_, t₃, htrans (htrans hrun₁ hrun₂) hrun₃, h₃⟩

theorem exists_gridlock (ar : Arith) (hd : Flowing d) (hdrained : d.Drained) (hpos : 0 < capacity) :
    ∃ es t, run (step ar capacity) d es = some t ∧ Flowing t ∧ t.Gridlock capacity ∧ t.underway = LOCKING capacity := by
  have hempty : ∀ side, d.lane side = ⟨[], 0, 0⟩ := by
    intro side
    obtain ⟨hline, hwire, hinn⟩ := (drained_iff hd).mp hdrained side
    rcases hlane : d.lane side with ⟨line, wire, inn⟩
    simp_all
  obtain ⟨es, t, ht, hmine⟩ := exists_filled ar .a ⟨hd, hempty .a, hempty .b⟩ hpos
  have hturned : Filled .b 0 0 0 ⟨List.replicate (OUTBOX + 1) .main, capacity, INBOX + 1⟩ t :=
    ⟨hmine.flowing, hmine.other, hmine.lane⟩
  obtain ⟨fs, u, hu, htheirs⟩ := exists_filled ar .b hturned hpos
  have hlane : ∀ side, u.lane side = ⟨List.replicate (OUTBOX + 1) .main, capacity, INBOX + 1⟩ := by
    intro side
    cases side with
    | a => exact htheirs.other
    | b => exact htheirs.lane
  refine ⟨es ++ fs, u, (run_append_eq_some _).mpr ⟨t, ht, hu⟩, htheirs.flowing, fun side => ⟨?_, ?_, ?_⟩, ?_⟩
  · rw [mainWaits_iff htheirs.flowing, hlane, Waits]
    simp
  · rw [hlane]
  · rw [hlane]
  · unfold underway LOCKING
    rw [htheirs.flowing.fits .a, htheirs.flowing.fits .b, hlane, hlane]
    simp only [List.length_replicate]
    omega

/-! ### Out of a gridlock -/

theorem gridlock_of_step (hd : Flowing d) (hlocked : d.Gridlock capacity) (h : step ar capacity d e = some d')
    (hbreaks : e ≠ .link .breaks) :
    (∃ side event, e = .link (.act side event) ∧ event.task ≠ some .main) ∧ Flowing d' ∧
      d'.Gridlock capacity := by
  have hfits := step_fits h hd.fits
  cases steps_of_step h with
  | breaks => exact absurd rfl hbreaks
  | write side hwriter hline hwire => exact absurd (hlocked side).2.1 (by omega)
  | read side hphase hwire hinn =>
    rw [inbox_eq hd] at hinn
    exact absurd (hlocked side.other).2.2 (by omega)
  | act e side event link hacts hready hlink =>
    obtain ⟨p, hp, -, hsession, -, hother, hbroken⟩ := Link.step_of_acts hlink hacts
    -- the main task waits, and no stream has ended
    have hthread : event.task ≠ some .main := by
      intro hmain
      have hwaits : Waits (d.room side) (d.lane side).line .main := (hlocked side).1
      simp [ready, hmain, hwaits] at hready
    have hrunning : ∀ side, (d.link.session side).phase.finished = false := by
      intro side
      obtain ⟨info, hs⟩ := hd.running side
      rw [session] at hs
      rw [hs]
      rfl
    have hdied : event ≠ .writerDied := by
      rintro rfl
      rcases Link.stream_of_acts hlink hacts rfl with ⟨msg, heq, -⟩ | ⟨err, heq, -⟩ | ⟨-, hgone | hgone⟩
      · cases heq
      · cases heq
      · cases hd.holds.symm.trans hgone
      · cases (hrunning side.other).symm.trans hgone
    have hstream : event.ofStream = false := by
      cases event with
      | writerDied => exact absurd rfl hdied
      | recv | closed | cmdClosed => exact absurd rfl hthread
      | _ => rfl
    obtain rfl := Link.eq_act_of_acts hacts hstream
    obtain ⟨hphase, -, hwriter⟩ := Dispatching.thread_step hp hthread hdied
    obtain ⟨hout, -⟩ := Session.step_messages hp hdied
    have hslot : p.2.slot = (d.link.session side).slot :=
      Session.step_slot hp (by rintro rfl; exact hthread rfl)
    have hsame : Link.outAfter event (d.link.session side.other).out = (d.link.session side.other).out := by
      cases event <;> first | rfl | exact absurd rfl hthread
    rw [hsame] at hother
    have hflowing : Flowing (d.afterAct side event link) := by
      refine ⟨hbroken.trans hd.holds, fun side' => ?_, fun side' => ?_, fun side' => ?_, fun side' msg hmsg => ?_, hfits⟩
      · rcases Side.eq_or_eq_other side side' with rfl | rfl
        · simpa only [afterAct, session, hsession, hphase] using hd.running side'
        · simpa only [afterAct, session, hother] using hd.running side.other
      · rcases Side.eq_or_eq_other side side' with rfl | rfl
        · simpa only [afterAct, session, hsession, hslot] using hd.slot side'
        · simpa only [afterAct, session, hother] using hd.slot side.other
      · rcases Side.eq_or_eq_other side side' with rfl | rfl
        · simpa only [afterAct, session, hsession, hwriter] using hd.writer side'
        · simpa only [afterAct, session, hother] using hd.writer side.other
      · rcases Side.eq_or_eq_other side side' with rfl | rfl
        · simp only [afterAct, session, hsession, hout] at hmsg
          rcases List.mem_append.mp hmsg with hold | hnew
          · exact hd.accepted side' msg hold
          · split_ifs at hnew
            · by_contra hreject
              have hleft := Session.left_of_reject hp hnew (Bool.eq_true_of_not_eq_false hreject)
              obtain ⟨info, hs⟩ := hd.running side'
              rw [session] at hs
              rw [hphase, hs] at hleft
              cases hleft
            · cases hnew
        · simp only [afterAct, session, hother] at hmsg
          exact hd.accepted side.other msg hmsg
    refine ⟨⟨side, event, rfl, hthread⟩, hflowing, fun side' => ?_⟩
    obtain ⟨hwaits, hwire, hinn⟩ := hlocked side'
    rw [mainWaits_iff hd] at hwaits
    rw [mainWaits_iff hflowing]
    rcases Side.eq_or_eq_other side side' with rfl | rfl
    · simp only [afterAct, Function.update_self, Lane.sent_of_ne hdied]
      exact ⟨hwaits.append _, hwire, hinn⟩
    · have hlane : (d.lane side.other).handled event = d.lane side.other := by
        cases event <;> first | rfl | exact absurd rfl hthread
      simp only [afterAct, Function.update_of_ne (Side.other_ne side), hlane]
      exact ⟨hwaits, hwire, hinn⟩

/-- In every run of the two ends: from a state in which both are in their main loops and everything has been handled
they can come to a gridlock, with no more messages underway than any takes. Once in a gridlock, as long as the
connection does not break, they stay in it: there are steps of threads only, and neither main loop takes a message, a
tick or a command. -/
theorem gridlock_for_good {core : Side → AppCore x} {ip peer : IpAddr} {edge : ScreenEdge} {key : SessionKey}
    {es : List DuplexEvent} (hrun : run (step ar capacity) (initial core ip edge peer key) es = some d)
    (hconnected : d.Connected) (hpos : 0 < capacity) :
    (d.Drained → ∃ fs t, run (step ar capacity) d fs = some t ∧ t.Connected ∧ t.Gridlock capacity ∧
        t.underway = LOCKING capacity) ∧
      (d.Gridlock capacity → ∀ fs t, run (step ar capacity) d fs = some t → .link .breaks ∉ fs →
        t.Connected ∧ t.Gridlock capacity ∧
          ∀ f ∈ fs, ∃ side event, f = .link (.act side event) ∧ event.task ≠ some .main) := by
  have hd := flowing_of_run hrun hconnected
  constructor
  · intro hdrained
    obtain ⟨fs, t, ht, hflowing, hlocked, hunderway⟩ := exists_gridlock ar hd hdrained hpos
    exact ⟨fs, t, ht, connected_of_flowing hflowing, hlocked, hunderway⟩
  · intro hlocked fs t ht hholds
    have hkept : .link .breaks ∉ fs → Flowing t ∧ t.Gridlock capacity ∧
        ∀ f ∈ fs, ∃ side event, f = .link (.act side event) ∧ event.task ≠ some .main := by
      refine run_induction (P := fun fs t => .link .breaks ∉ fs → Flowing t ∧ t.Gridlock capacity ∧
        ∀ f ∈ fs, ∃ side event, f = .link (.act side event) ∧ event.task ≠ some .main)
        (fun _ => ⟨hd, hlocked, fun f hf => absurd hf List.not_mem_nil⟩) ?_ fs t ht
      intro fs t e u _ ih hstep hnot
      rw [List.mem_append, List.mem_singleton, not_or] at hnot
      obtain ⟨hflowing, hlocked', hall⟩ := ih hnot.1
      obtain ⟨hact, hflowing', hlocked''⟩ := gridlock_of_step hflowing hlocked' hstep (Ne.symm hnot.2)
      refine ⟨hflowing', hlocked'', fun f hf => ?_⟩
      rcases List.mem_append.mp hf with hf | hf
      · exact hall f hf
      · exact List.mem_singleton.mp hf ▸ hact
    obtain ⟨hflowing, hlocked', hall⟩ := hkept hholds
    exact ⟨connected_of_flowing hflowing, hlocked', hall⟩

/-- A message goes from the line of the other end to the main loop of `side`. -/
def pass (side : Side) : List DuplexEvent := [.write side.other, .read side, .link (.deliver side)]

/-- Alice and Bob, once all is handled, and in a gridlock that they come to. -/
theorem gridlock_for_good_meeting :
    ∃ es d, run (step .exact 1) meeting es = some d ∧ d.Gridlock 1 ∧ d.underway = LOCKING 1 ∧
      ∀ fs t, run (step .exact 1) d fs = some t → .link .breaks ∉ fs → t.Gridlock 1 := by
  obtain ⟨d, hrun, hdrained, hholds, hphases⟩ :
      ∃ d, run (step .exact 1) meeting (meet ++ pass .b ++ pass .b ++ pass .a) = some d ∧
        (∀ side, (d.session side).out = []) ∧ d.link.broken = false ∧
        ∀ side, (d.session side).phase.isRunning = true := exists_run (by decide +kernel)
  obtain ⟨fs, t, ht, hconnected, hlocked, hunderway⟩ :=
    (gridlock_for_good hrun ⟨hholds, hphases⟩ Nat.one_pos).1 hdrained
  have hrun' := (run_append_eq_some (step .exact 1)).mpr ⟨d, hrun, ht⟩
  refine ⟨_, t, hrun', hlocked, hunderway, fun gs u hu hnot => ?_⟩
  exact ((gridlock_for_good hrun' hconnected Nat.one_pos).2 hlocked gs u hu hnot).2.1

end Duplex

end ScreenLink

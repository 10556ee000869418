import ScreenLink.Clipboard.Manager
import ScreenLink.Lib.Forest
import ScreenLink.Lib.Machine
import Mathlib.Combinatorics.SimpleGraph.Star

/-!
# The clipboards of many devices

Each session has a clipboard thread at both its ends, with a `last_seen` of its own, over the one clipboard of its device;
so a text that arrives over one session is a local change for the threads of the others, and goes on. Where the connected
devices form a forest (and the sessions stay up) the texts run dry: over each link, however long the devices run, go no
more texts than users have copied, writes of the clipboard have failed, and devices are there. Around a cycle of devices
two copied texts can go for ever (`forest_runs_dry_iff`).
-/

namespace ScreenLink

structure ClipboardNet (D : Type*) where
  /-- What the OS clipboards hold. -/
  cb : D → Option String
  /-- `last_seen` of the first device's thread for its session with the second. -/
  lastSeen : D → D → Option String
  /-- The texts that the first device has pushed and the second has not applied. -/
  flight : D → D → List String
  /-- History: how many texts the first device has pushed to the second. -/
  sent : D → D → ℕ

inductive ClipboardNetEvent (D : Type*)
  | copy (d : D) (content : Option String)
  /-- The thread of `d` for its session with `e` polls. -/
  | poll (d e : D) (readable : Bool)
  /-- The thread of `d` applies the next text from `e`; `set_text` may fail. -/
  | apply (d e : D) (error : Option String)
  deriving DecidableEq

namespace ClipboardNet

open Machine Forest SimpleGraph

variable {D : Type*} [DecidableEq D]

/-- All threads have just started, with these clipboards. -/
def initial (cb : D → Option String) : ClipboardNet D := ⟨cb, fun _ _ => none, fun _ _ => [], fun _ _ => 0⟩

/-- The manager of the thread of `d` for its session with `e`. -/
def mgr (t : ClipboardNet D) (d e : D) : ClipboardManager := ⟨t.cb d, t.lastSeen d e⟩

def update₂ {α : Type*} (f : D → D → α) (d e : D) (v : α) : D → D → α := Function.update f d (Function.update (f d) e v)

def setMgr (t : ClipboardNet D) (d e : D) (m : ClipboardManager) : ClipboardNet D :=
  { t with cb := Function.update t.cb d m.cb, lastSeen := update₂ t.lastSeen d e m.lastSeen }

def push (t : ClipboardNet D) (d e : D) (text : String) : ClipboardNet D :=
  { t with flight := update₂ t.flight d e (t.flight d e ++ [text]), sent := update₂ t.sent d e (t.sent d e + 1) }

def poll (t : ClipboardNet D) (d e : D) (readable : Bool) : ClipboardNet D :=
  let (m, change) := (t.mgr d e).pollLocalChange readable
  let t := t.setMgr d e m
  match change with
  | some text => t.push d e text
  | none => t

/-- `d` applies `text` from `e`, and `rest` stays on its way. -/
def receive (t : ClipboardNet D) (d e : D) (text : String) (rest : List String) (error : Option String) :
    ClipboardNet D :=
  { t.setMgr d e ((t.mgr d e).applyRemote text error).1 with flight := update₂ t.flight e d rest }

variable (G : SimpleGraph D) [DecidableRel G.Adj]

/-- One step of devices with these sessions; `none` if the event cannot happen now. -/
def step (t : ClipboardNet D) (e : ClipboardNetEvent D) : Option (ClipboardNet D) :=
  match e with
  | .copy d content => some { t with cb := Function.update t.cb d content }
  | .poll d e readable => if G.Adj d e then some (t.poll d e readable) else none
  | .apply d e error => match t.flight e d with
    | [] => none
    | text :: rest => some (t.receive d e text rest error)

variable {G} {t t' : ClipboardNet D} {a b c d e : D} {ev : ClipboardNetEvent D} {es : List (ClipboardNetEvent D)}

theorem update₂_apply {α : Type*} (f : D → D → α) (d e : D) (v : α) (a b : D) :
    update₂ f d e v a b = if a = d ∧ b = e then v else f a b := by
  unfold update₂
  by_cases had : a = d
  · subst had
    by_cases hbe : b = e
    · subst hbe
      simp
    · simp [hbe]
  · simp [had]

/-- A copy, or a text that could not be written. -/
def isNews : ClipboardNetEvent D → Bool
  | .copy .. => true
  | .apply _ _ (some _) => true
  | _ => false

/-! ### A cycle of devices -/

/-- `d` has applied `text` from `e`, and has pushed it to `b`. -/
def passOn (t : ClipboardNet D) (d e b : D) (text : String) (rest : List String) : ClipboardNet D where
  cb := Function.update t.cb d (some text)
  lastSeen := update₂ (update₂ t.lastSeen d e (some text)) d b (some text)
  flight := update₂ (update₂ t.flight e d rest) d b (t.flight d b ++ [text])
  sent := update₂ t.sent d b (t.sent d b + 1)

theorem run_passOn {text : String} {rest : List String} (hed : G.Adj d e) (hdb : G.Adj d b) (hbe : b ≠ e)
    (htext : text ≠ "") (hflight : t.flight e d = text :: rest) (hseen : t.lastSeen d b ≠ some text) :
    run (step G) t [.apply d e none, .poll d b true] = some (t.passOn d e b text rest) := by
  have happly : step G t (.apply d e none) = some (t.receive d e text rest none) := by
    simp only [step, hflight]
  have hpush : step G (t.receive d e text rest none) (.poll d b true) = some (t.passOn d e b text rest) := by
    have hde : d ≠ e := hed.ne
    simp [step, hdb, ClipboardNet.poll, ClipboardManager.pollLocalChange, mgr, setMgr, push, ClipboardNet.receive,
      ClipboardManager.applyRemote, update₂_apply, htext, hseen, hbe, hde, passOn]
  simp only [run, happly, hpush, Option.bind_some]

/-- The texts `x` and `y` are on their way from `a` to `b`, and no others. -/
structure Chase (x y : String) (a b : D) (t : ClipboardNet D) : Prop where
  flight : ∀ d e, t.flight d e = if d = a ∧ e = b then [x, y] else []
  /-- A thread that pushed last pushed `y`. -/
  seen : ∀ d e, t.lastSeen d e ≠ some x

variable {x y : String} {f : ℕ → D} {m : ℕ}

theorem Chase.hop (hx : x ≠ "") (hy : y ≠ "") (hxy : x ≠ y) (hab : G.Adj a b) (hbc : G.Adj b c) (hca : c ≠ a)
    (h : Chase x y a b t) :
    ∃ es t', run (step G) t es = some t' ∧ es.countP isNews = 0 ∧ Chase x y b c t' ∧
      (∀ d e, t.sent d e ≤ t'.sent d e) ∧ t.sent b c < t'.sent b c := by
  have hne : b ≠ a := hab.ne.symm
  have hne' : b ≠ c := hbc.ne
  have hfirst : run (step G) t [.apply b a none, .poll b c true] = some (t.passOn b a c x [y]) :=
    run_passOn hab.symm hbc hca hx (by simp [h.flight]) (h.seen b c)
  have hsecond : run (step G) (t.passOn b a c x [y]) [.apply b a none, .poll b c true] =
      some ((t.passOn b a c x [y]).passOn b a c y []) :=
    run_passOn hab.symm hbc hca hy (by simp [passOn, update₂_apply, hne.symm])
      (by simp [passOn, update₂_apply, hxy])
  refine ⟨[.apply b a none, .poll b c true] ++ [.apply b a none, .poll b c true],
    (t.passOn b a c x [y]).passOn b a c y [], ?_, rfl, ⟨fun d e => ?_, fun d e => ?_⟩, fun d e => ?_, ?_⟩
  · rw [run_append, hfirst, Option.bind_some, hsecond]
  · simp only [passOn, update₂_apply, h.flight]
    grind
  · have hseen := h.seen d e
    simp only [passOn, update₂_apply]
    grind
  · simp only [passOn, update₂_apply]
    grind
  · simp [passOn, update₂_apply]

theorem Chase.hops (hx : x ≠ "") (hy : y ≠ "") (hxy : x ≠ y) (hadj : ∀ i, G.Adj (f i) (f (i + 1)))
    (hback : ∀ i, f (i + 2) ≠ f i) (h : Chase x y (f 0) (f 1) t) (n : ℕ) :
    ∃ es t', run (step G) t es = some t' ∧ es.countP isNews = 0 ∧ Chase x y (f n) (f (n + 1)) t' ∧
      ∀ d e, t.sent d e ≤ t'.sent d e := by
  induction n with
  | zero => exact ⟨[], t, rfl, rfl, h, fun _ _ => le_rfl⟩
  | succ n ih =>
    obtain ⟨es, t₁, hrun, hnews, hchase, hle⟩ := ih
    obtain ⟨es', t₂, hrun', hnews', hchase', hle', -⟩ := hchase.hop hx hy hxy (hadj n) (hadj (n + 1)) (hback n)
    refine ⟨es ++ es', t₂, ?_, ?_, hchase', fun d e => (hle d e).trans (hle' d e)⟩
    · rw [run_append, hrun, Option.bind_some, hrun']
    · rw [List.countP_append, hnews, hnews']

/-- Once around the cycle: the texts are where they were, and each link has been used. -/
theorem Chase.lap (hx : x ≠ "") (hy : y ≠ "") (hxy : x ≠ y) (hadj : ∀ i, G.Adj (f i) (f (i + 1)))
    (hback : ∀ i, f (i + 2) ≠ f i) (hperiod : ∀ i, f (i + (m + 1)) = f i) (h : Chase x y (f 0) (f 1) t) :
    ∃ es t', run (step G) t es = some t' ∧ es.countP isNews = 0 ∧ Chase x y (f 0) (f 1) t' ∧
      t.sent (f 0) (f 1) < t'.sent (f 0) (f 1) := by
  obtain ⟨es, t₁, hrun, hnews, hchase, hle⟩ := h.hops hx hy hxy hadj hback m
  obtain ⟨es', t₂, hrun', hnews', hchase', -, hlt⟩ := hchase.hop hx hy hxy (hadj m) (hadj (m + 1)) (hback m)
  have hfirst : f (m + 1) = f 0 := by simpa using hperiod 0
  have hsecond : f (m + 1 + 1) = f 1 := by
    rw [Nat.add_comm]
    exact hperiod 1
  rw [hfirst, hsecond] at hchase' hlt
  refine ⟨es ++ es', t₂, ?_, ?_, hchase', (hle _ _).trans_lt hlt⟩
  · rw [run_append, hrun, Option.bind_some, hrun']
  · rw [List.countP_append, hnews, hnews']

theorem Chase.laps (hx : x ≠ "") (hy : y ≠ "") (hxy : x ≠ y) (hadj : ∀ i, G.Adj (f i) (f (i + 1)))
    (hback : ∀ i, f (i + 2) ≠ f i) (hperiod : ∀ i, f (i + (m + 1)) = f i) (h : Chase x y (f 0) (f 1) t) (n : ℕ) :
    ∃ es t', run (step G) t es = some t' ∧ es.countP isNews = 0 ∧ Chase x y (f 0) (f 1) t' ∧
      n ≤ t'.sent (f 0) (f 1) := by
  induction n with
  | zero => exact ⟨[], t, rfl, rfl, h, Nat.zero_le _⟩
  | succ n ih =>
    obtain ⟨es, t₁, hrun, hnews, hchase, hle⟩ := ih
    obtain ⟨es', t₂, hrun', hnews', hchase', hlt⟩ := hchase.lap hx hy hxy hadj hback hperiod
    refine ⟨es ++ es', t₂, ?_, ?_, hchase', Nat.succ_le_of_lt (hle.trans_lt hlt)⟩
    · rw [run_append, hrun, Option.bind_some, hrun']
    · rw [List.countP_append, hnews, hnews']

theorem cycle_runs_on (hG : ¬ G.IsAcyclic) : ∃ a b, G.Adj a b ∧ ∀ n, ∃ es t,
    run (step G) (initial fun _ => none) es = some t ∧ es.countP isNews = 2 ∧ n ≤ t.sent a b := by
  obtain ⟨m, f, hperiod, hadj, hback⟩ := exists_tour hG
  refine ⟨f 0, f 1, hadj 0, fun n => ?_⟩
  -- a user copies two texts, one after the other
  let es₀ : List (ClipboardNetEvent D) :=
    [.copy (f 0) (some "x"), .poll (f 0) (f 1) true, .copy (f 0) (some "y"), .poll (f 0) (f 1) true]
  obtain ⟨t₀, hstart, hchase⟩ : ∃ t₀, run (step G) (initial fun _ => none) es₀ = some t₀ ∧
      Chase "x" "y" (f 0) (f 1) t₀ := by
    refine ⟨⟨Function.update (fun _ => none) (f 0) (some "y"), update₂ (fun _ _ => none) (f 0) (f 1) (some "y"),
      update₂ (fun _ _ => []) (f 0) (f 1) ["x", "y"], update₂ (fun _ _ => 0) (f 0) (f 1) 2⟩, ?_,
      fun d e => update₂_apply (fun _ _ => []) _ _ _ d e, fun d e => ?_⟩
    · simp [es₀, run, step, hadj 0, ClipboardNet.poll, ClipboardManager.pollLocalChange, mgr, setMgr, push, initial,
        update₂]
    · simp only [update₂_apply]
      split_ifs <;> simp
  obtain ⟨es, t, hrun, hnews, -, hle⟩ := hchase.laps (by decide) (by decide) (by decide) hadj hback hperiod n
  refine ⟨es₀ ++ es, t, ?_, ?_, hle⟩
  · rw [run_append, hstart, Option.bind_some, hrun]
  · rw [List.countP_append, hnews]
    rfl

/-! ### What makes a thread push -/

/-- The event gives the threads of `d` something new: a copy, or a text that could not be written. -/
def news (d : D) : ClipboardNetEvent D → Bool
  | .copy d' _ => d' == d
  | .apply d' _ (some _) => d' == d
  | _ => false

/-- A text from `e` is applied at `d`. -/
def applies (d e : D) : ClipboardNetEvent D → Bool
  | .apply d' e' _ => d' == d && e' == e
  | _ => false

variable [Fintype D]

/-- What the thread of `a` for `b` may push: what it finds at its start, the news, and what the other sessions bring. -/
def budget (G : SimpleGraph D) [DecidableRel G.Adj] (a b : D) (es : List (ClipboardNetEvent D)) : ℕ :=
  1 + es.countP (news a) + ∑ c ∈ (G.neighborFinset a).erase b, es.countP (applies a c)

theorem budget_le (a b : D) (es : List (ClipboardNetEvent D)) (ev : ClipboardNetEvent D) :
    budget G a b es ≤ budget G a b (es ++ [ev]) := by
  unfold budget
  refine Nat.add_le_add (Nat.add_le_add_left ?_ 1) (Finset.sum_le_sum fun c _ => ?_) <;>
    exact List.Sublist.countP_le (List.sublist_append_left es [ev])

theorem budget_news (b : D) (h : news a ev = true) : budget G a b es + 1 ≤ budget G a b (es ++ [ev]) := by
  have hsum : ∑ c ∈ (G.neighborFinset a).erase b, es.countP (applies a c) ≤
      ∑ c ∈ (G.neighborFinset a).erase b, (es ++ [ev]).countP (applies a c) :=
    Finset.sum_le_sum fun c _ => List.Sublist.countP_le (List.sublist_append_left es [ev])
  unfold budget
  rw [List.countP_append, List.countP_singleton, if_pos h]
  omega

theorem budget_applies (hc : c ∈ (G.neighborFinset a).erase b) (h : applies a c ev = true) :
    budget G a b es + 1 ≤ budget G a b (es ++ [ev]) := by
  have hsum : ∑ c ∈ (G.neighborFinset a).erase b, es.countP (applies a c) <
      ∑ c ∈ (G.neighborFinset a).erase b, (es ++ [ev]).countP (applies a c) := by
    refine Finset.sum_lt_sum (fun c _ => List.Sublist.countP_le (List.sublist_append_left es [ev])) ⟨c, hc, ?_⟩
    rw [List.countP_append, List.countP_singleton, if_pos h]
    exact Nat.lt_succ_self _
  have hnews : es.countP (news a) ≤ (es ++ [ev]).countP (news a) :=
    List.Sublist.countP_le (List.sublist_append_left es [ev])
  unfold budget
  omega

/-- The pushes of a run. -/
structure Inv (G : SimpleGraph D) [DecidableRel G.Adj] (es : List (ClipboardNetEvent D)) (t : ClipboardNet D) : Prop where
  /-- What was pushed has been applied or is on its way. -/
  queued : ∀ a b, t.sent a b = es.countP (applies b a) + (t.flight a b).length
  linked : ∀ a b, t.flight a b ≠ [] → G.Adj a b
  /-- A thread that will push has the budget for it. -/
  bounded : ∀ a b, G.Adj a b → t.sent a b + (if (t.mgr a b).Changed then 1 else 0) ≤ budget G a b es

theorem inv_initial (cb : D → Option String) : Inv G [] (initial cb) := by
  refine ⟨fun _ _ => rfl, fun _ _ h => absurd rfl h, fun a b _ => ?_⟩
  have hbudget : budget G a b [] = 1 := by simp [budget]
  rw [hbudget]
  change 0 + _ ≤ 1
  split_ifs <;> omega

theorem Inv.copy (h : Inv G es t) (d : D) (content : Option String) :
    Inv G (es ++ [.copy d content]) { t with cb := Function.update t.cb d content } := by
  refine ⟨fun a b => ?_, h.linked, fun a b hab => ?_⟩
  · rw [List.countP_append]
    exact h.queued a b
  · by_cases had : a = d
    · -- the copy pays for the push it may bring
      subst had
      have hle := h.bounded a b hab
      have hnews : budget G a b es + 1 ≤ budget G a b (es ++ [.copy a content]) := budget_news b (by simp [news])
      change t.sent a b + _ ≤ _
      split_ifs at hle ⊢ <;> omega
    · have hsame : ({ t with cb := Function.update t.cb d content } : ClipboardNet D).mgr a b = t.mgr a b := by
        simp [mgr, had]
      rw [hsame]
      exact (h.bounded a b hab).trans (budget_le a b es _)

theorem Inv.poll (h : Inv G es t) (hde : G.Adj d e) (readable : Bool) :
    Inv G (es ++ [.poll d e readable]) (t.poll d e readable) := by
  have happlied : ∀ a b, (es ++ [ClipboardNetEvent.poll d e readable]).countP (applies b a) = es.countP (applies b a) := by
    intro a b
    rw [List.countP_append]
    rfl
  rcases (t.mgr d e).pollLocalChange_cases readable with ⟨hchanged, text, hcb, hpoll⟩ | hpoll
  · have hcb' : t.cb d = some text := hcb
    have hnext : t.poll d e readable = (t.setMgr d e ⟨t.cb d, some text⟩).push d e text := by
      unfold ClipboardNet.poll
      rw [hpoll]
      rfl
    have hsent : ∀ a b, (t.poll d e readable).sent a b = if a = d ∧ b = e then t.sent d e + 1 else t.sent a b := by
      intro a b
      rw [hnext]
      exact update₂_apply ..
    have hflight : ∀ a b, (t.poll d e readable).flight a b =
        if a = d ∧ b = e then t.flight d e ++ [text] else t.flight a b := by
      intro a b
      rw [hnext]
      exact update₂_apply ..
    have hmgr : ∀ a b, (t.poll d e readable).mgr a b =
        if a = d ∧ b = e then ⟨t.cb d, some text⟩ else t.mgr a b := by
      intro a b
      rw [hnext]
      unfold mgr push setMgr
      dsimp only
      rw [update₂_apply, Function.update_eq_self]
      split_ifs with hab
      · rw [hab.1]
      · rfl
    refine ⟨fun a b => ?_, fun a b hne => ?_, fun a b hab => ?_⟩
    · rw [hsent, hflight, happlied]
      have hqueued := h.queued a b
      split_ifs with hab
      · obtain ⟨rfl, rfl⟩ := hab
        rw [List.length_append, List.length_singleton]
        omega
      · exact hqueued
    · rw [hflight] at hne
      split_ifs at hne with hab
      · exact hab.1 ▸ hab.2 ▸ hde
      · exact h.linked a b hne
    · have hle := (h.bounded a b hab).trans (budget_le a b es (.poll d e readable))
      rw [hsent, hmgr]
      by_cases hab' : a = d ∧ b = e
      · -- the change is pushed
        obtain ⟨rfl, rfl⟩ := hab'
        have hquiet : ¬ ClipboardManager.Changed ⟨t.cb a, some text⟩ :=
          (ClipboardManager.not_changed_iff _).mpr (Or.inr hcb'.symm)
        rw [if_pos hchanged] at hle
        simp only [and_self, if_true, if_neg hquiet]
        exact hle
      · rw [if_neg hab', if_neg hab']
        exact hle
  · have hnext : t.poll d e readable = t := by
      have hsame : t.setMgr d e (t.mgr d e) = t := by simp [setMgr, mgr, update₂]
      simp [ClipboardNet.poll, hpoll, hsame]
    rw [hnext]
    exact ⟨fun a b => (h.queued a b).trans (by rw [happlied]), h.linked,
      fun a b hab => (h.bounded a b hab).trans (budget_le a b es _)⟩

theorem Inv.receive (h : Inv G es t) {text : String} {rest : List String} (hflight : t.flight e d = text :: rest)
    (error : Option String) : Inv G (es ++ [.apply d e error]) (t.receive d e text rest error) := by
  have hed : G.Adj e d := h.linked e d (by simp [hflight])
  have hqueue : ∀ a b, (t.receive d e text rest error).flight a b = if a = e ∧ b = d then rest else t.flight a b :=
    fun a b => update₂_apply ..
  have hmgr : ∀ a b, a ≠ d → (t.receive d e text rest error).mgr a b = t.mgr a b := by
    intro a b had
    simp [ClipboardNet.receive, mgr, setMgr, update₂, had]
  refine ⟨fun a b => ?_, fun a b hne => ?_, fun a b hab => ?_⟩
  · rw [hqueue, List.countP_append, List.countP_singleton]
    have hqueued := h.queued a b
    change t.sent a b = _
    by_cases hab : a = e ∧ b = d
    · obtain ⟨rfl, rfl⟩ := hab
      rw [hflight, List.length_cons] at hqueued
      simp only [and_self, if_true, applies, beq_self_eq_true, Bool.and_self]
      omega
    · have hother : applies b a (.apply d e error) = false := by
        simp only [applies, Bool.and_eq_false_iff, beq_eq_false_iff_ne]
        by_cases hbd : b = d
        · exact Or.inr fun hea => hab ⟨hea.symm, hbd⟩
        · exact Or.inl (Ne.symm hbd)
      rw [if_neg hab, hother]
      simpa using hqueued
  · rw [hqueue] at hne
    split_ifs at hne with hab
    · exact hab.1 ▸ hab.2 ▸ hed
    · exact h.linked a b hne
  · have hle := h.bounded a b hab
    have hmono := budget_le (G := G) a b es (.apply d e error)
    change t.sent a b + _ ≤ _
    by_cases had : a = d
    · subst had
      have hcb : (t.receive a e text rest error).cb a = match error with
          | some _ => t.cb a
          | none => some text := by
        cases error <;> simp [ClipboardNet.receive, setMgr, ClipboardManager.applyRemote, mgr]
      have hseen : (t.receive a e text rest error).lastSeen a b = if b = e then some text else t.lastSeen a b := by
        cases error <;> simp [ClipboardNet.receive, setMgr, ClipboardManager.applyRemote, update₂_apply]
      cases error with
      | some error =>
        by_cases hbe : b = e
        · -- the text that could not be written pays for the push it may bring
          have hnews : budget G a b es + 1 ≤ budget G a b (es ++ [.apply a e (some error)]) :=
            budget_news b (by simp [news])
          split_ifs at hle ⊢ <;> omega
        · have hsame : (t.receive a e text rest (some error)).mgr a b = t.mgr a b := by
            rw [mgr, hcb, hseen, if_neg hbe, mgr]
          rw [hsame]
          exact hle.trans hmono
      | none =>
        by_cases hbe : b = e
        · have hquiet : ¬ ((t.receive a e text rest none).mgr a b).Changed := by
            rw [mgr, hcb, hseen, if_pos hbe]
            exact (ClipboardManager.not_changed_iff _).mpr (Or.inr rfl)
          rw [if_neg hquiet]
          omega
        · -- the text of one session is a change for the others
          have hother : e ∈ (G.neighborFinset a).erase b :=
            Finset.mem_erase.mpr ⟨Ne.symm hbe, (G.mem_neighborFinset a e).mpr hed.symm⟩
          have hbrings : budget G a b es + 1 ≤ budget G a b (es ++ [.apply a e none]) :=
            budget_applies hother (by simp [applies])
          split_ifs at hle ⊢ <;> omega
    · rw [hmgr a b had]
      exact hle.trans hmono

theorem step_inv (h : Inv G es t) (hstep : step G t ev = some t') : Inv G (es ++ [ev]) t' := by
  cases ev with
  | copy d content =>
    cases hstep
    exact h.copy d content
  | poll d e readable =>
    simp only [step] at hstep
    split_ifs at hstep with hde
    cases hstep
    exact h.poll hde readable
  | apply d e error =>
    simp only [step] at hstep
    split at hstep
    · cases hstep
    · rename_i text rest hflight
      cases hstep
      exact h.receive hflight error

theorem run_inv (cb : D → Option String) (hrun : run (step G) (initial cb) es = some t) : Inv G es t :=
  run_induction (P := Inv G) (inv_initial cb) (fun _ _ _ _ _ h hstep => step_inv h hstep) es t hrun

/-! ### A forest of devices -/

theorem sum_news (ev : ClipboardNetEvent D) :
    ∑ d, (if news d ev = true then 1 else 0) = if isNews ev = true then 1 else 0 := by
  cases ev with
  | copy d content => simp [news, isNews]
  | poll d e readable => simp [news, isNews]
  | apply d e error => cases error <;> simp [news, isNews]

theorem sum_countP_news (es : List (ClipboardNetEvent D)) : ∑ d, es.countP (news d) = es.countP isNews := by
  induction es with
  | nil => simp
  | cons ev es ih =>
    simp only [List.countP_cons, Finset.sum_add_distrib, ih, sum_news]

/-- Over each link of a forest of devices go, both ways, no more texts than there are devices, copies and failed
writes. -/
theorem sent_add_sent_le (hG : G.IsAcyclic) {cb : D → Option String} (hrun : run (step G) (initial cb) es = some t)
    (hab : G.Adj a b) : t.sent a b + t.sent b a ≤ Fintype.card D + es.countP isNews := by
  have hinv := run_inv cb hrun
  have hflow : ∀ a b, G.Adj a b →
      t.sent a b ≤ 1 + es.countP (news a) + ∑ c ∈ (G.neighborFinset a).erase b, t.sent c a := by
    intro a b hab
    have happlied : ∑ c ∈ (G.neighborFinset a).erase b, es.countP (applies a c) ≤
        ∑ c ∈ (G.neighborFinset a).erase b, t.sent c a :=
      Finset.sum_le_sum fun c _ => (hinv.queued c a).symm ▸ Nat.le_add_right _ _
    exact ((Nat.le_add_right _ _).trans (hinv.bounded a b hab)).trans (Nat.add_le_add_left happlied _)
  calc t.sent a b + t.sent b a ≤ ∑ d, (1 + es.countP (news d)) := flow_add_flow_le hG hflow hab
    _ = Fintype.card D + es.countP isNews := by
        rw [Finset.sum_add_distrib, sum_countP_news]
        simp

/-- A text that a device at the rim of a star copies comes to all the others. -/
example : ∃ t, run (step (starGraph (0 : Fin 3))) (initial fun _ => none)
      [.copy 1 (some "hi"), .poll 1 0 true, .apply 0 1 none, .poll 0 1 true, .poll 0 2 true, .apply 2 0 none,
        .poll 2 0 true] = some t ∧ t.cb = (fun _ => some "hi") ∧ t.sent 0 2 + t.sent 2 0 = 1 :=
  exists_run (by decide +kernel)

end ClipboardNet

end ScreenLink

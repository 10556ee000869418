import ScreenLink.Lib.Machine
import Mathlib.Logic.Function.Basic

/-!
# Exchanging values with a peer

Parties that each hold one value. A party pushes a new value to its peer over a reliable, ordered channel, and takes
over the value it finds in the channel towards it; no value has a version. When nothing is on its way between two
peers, they hold one value unless the last pushes of the two have crossed, and then each holds what the other pushed
last. So they agree exactly when these two are equal (`agree_iff`).
-/

open Machine

/-- Where a party's value is from. -/
inductive Origin
  | start
  | pushed
  | applied
  deriving DecidableEq

structure ExchangeParty (α : Type*) where
  /-- The values pushed and not yet taken over by the peer. -/
  queue : List α
  value : Option α
  origin : Origin
  /-- The value pushed last. -/
  last : Option α

namespace ExchangeParty

variable {α : Type*}

def start : ExchangeParty α := ⟨[], none, .start, none⟩

def push (a : ExchangeParty α) (v : α) : ExchangeParty α := ⟨a.queue ++ [v], some v, .pushed, some v⟩

/-- The peer's next value is taken over. -/
def take (a : ExchangeParty α) (v : α) : ExchangeParty α := { a with value := some v, origin := .applied }

/-- What is known of a party and its peer. -/
structure Between (a b : ExchangeParty α) : Prop where
  /-- The value pushed last is the last on its way. -/
  newest : ∀ v, a.queue.getLast? = some v → a.last = some v
  unsaid : a.last = none → a.queue = [] ∧ a.origin ≠ .pushed ∧ b.origin ≠ .applied
  start : a.origin = .start → a.value = none ∧ a.last = none
  mine : a.origin = .pushed → a.value = a.last
  /-- A peer that has taken over everything holds the last of it. -/
  yours : b.origin = .applied → a.queue = [] → b.value = a.last
  /-- What was pushed last is on its way, has been taken over, or crosses a push of the peer. -/
  answered : a.origin = .pushed → a.queue = [] → b.queue = [] → b.origin = .applied

variable {a b : ExchangeParty α} {v : α} {rest : List α}

theorem between_start : (start : ExchangeParty α).Between start := by constructor <;> simp [start]

theorem between_push_left (a b : ExchangeParty α) (v : α) : (a.push v).Between b where
  newest w hw := by simpa [push] using hw
  unsaid hnone := by cases hnone
  start hstart := by cases hstart
  mine _ := rfl
  yours _ hqueue := by simp [push] at hqueue
  answered _ hqueue := by simp [push] at hqueue

theorem Between.push_right (h : a.Between b) (v : α) : a.Between (b.push v) where
  newest := h.newest
  unsaid hnone := ⟨(h.unsaid hnone).1, (h.unsaid hnone).2.1, by simp [push]⟩
  start := h.start
  mine := h.mine
  yours happlied := by cases happlied
  answered _ _ hqueue := by simp [push] at hqueue

theorem Between.take_left (h : a.Between b) (v : α) (rest : List α) :
    (a.take v).Between { b with queue := rest } where
  newest := h.newest
  unsaid hnone := ⟨(h.unsaid hnone).1, by simp [take], (h.unsaid hnone).2.2⟩
  start hstart := by cases hstart
  mine hpushed := by cases hpushed
  yours := h.yours
  answered hpushed := by cases hpushed

theorem Between.take_right (h : b.Between a) (hqueue : b.queue = v :: rest) :
    ({ b with queue := rest } : ExchangeParty α).Between (a.take v) where
  newest w hw := by
    refine h.newest w ?_
    rw [hqueue, List.getLast?_cons, hw]
    rfl
  unsaid hnone := by
    have hempty := (h.unsaid hnone).1
    rw [hqueue] at hempty
    cases hempty
  start := h.start
  mine := h.mine
  yours _ hrest := by
    refine (h.newest v ?_).symm
    rw [hqueue, show rest = [] from hrest]
    rfl
  answered _ _ _ := rfl

/-- Two parties with nothing on its way hold one value, or the last push of each has been overtaken by the other's. -/
theorem Between.eq_or_crossed (h : a.Between b) (hback : b.Between a) (ha : a.queue = []) (hb : b.queue = []) :
    a.value = b.value ∨
      (a.origin = .applied ∧ b.origin = .applied ∧ a.value = b.last ∧ b.value = a.last) := by
  cases horigin : a.origin with
  | start =>
    cases horigin' : b.origin with
    | start => exact Or.inl ((h.start horigin).1.trans (hback.start horigin').1.symm)
    | pushed =>
      have happlied := hback.answered horigin' hb ha
      rw [horigin] at happlied
      cases happlied
    | applied => exact absurd horigin' (h.unsaid (h.start horigin).2).2.2
  | pushed =>
    have happlied := h.answered horigin ha hb
    exact Or.inl ((h.mine horigin).trans (h.yours happlied ha).symm)
  | applied =>
    cases horigin' : b.origin with
    | start => exact absurd horigin (hback.unsaid (hback.start horigin').2).2.2
    | pushed => exact Or.inl ((hback.yours horigin hb).trans (hback.mine horigin').symm)
    | applied => exact Or.inr ⟨rfl, rfl, hback.yours horigin hb, h.yours horigin' ha⟩

end ExchangeParty

inductive ExchangeEvent (π α : Type*)
  | push (p : π) (v : α)
  | apply (p : π)

/-- The parties `π`; each exchanges values with its peer. -/
abbrev Exchange (π α : Type*) := π → ExchangeParty α

namespace Exchange

open ExchangeParty

variable {π α : Type*}

def Inv (peer : π → π) (x : Exchange π α) : Prop := ∀ p, (x p).Between (x (peer p))

theorem inv_start (peer : π → π) : Inv peer (fun _ : π => (start : ExchangeParty α)) := fun _ => between_start

theorem Inv.back {peer : π → π} {x : Exchange π α} (hpeer : Function.Involutive peer) (h : Inv peer x) (p : π) :
    (x (peer p)).Between (x p) := by
  have hback := h (peer p)
  rwa [hpeer p] at hback

variable [DecidableEq π] (peer : π → π)

def step (x : Exchange π α) (e : ExchangeEvent π α) : Option (Exchange π α) :=
  match e with
  | .push p v => some (Function.update x p ((x p).push v))
  | .apply p => match (x (peer p)).queue with
    | [] => none
    | v :: rest =>
      some (Function.update (Function.update x (peer p) { x (peer p) with queue := rest }) p ((x p).take v))

variable {peer} {x x' : Exchange π α} {e : ExchangeEvent π α}

theorem step_inv (hpeer : Function.Involutive peer) (hne : ∀ p, peer p ≠ p) (h : Inv peer x)
    (hstep : step peer x e = some x') : Inv peer x' := by
  cases e with
  | push r v =>
    cases hstep
    intro p
    by_cases hp : p = r
    · subst hp
      rw [Function.update_self, Function.update_of_ne (hne p)]
      exact between_push_left _ _ v
    · rw [Function.update_of_ne hp]
      by_cases hq : peer p = r
      · rw [hq, Function.update_self, ← hq]
        exact (h p).push_right v
      · rw [Function.update_of_ne hq]
        exact h p
  | apply r =>
    simp only [step] at hstep
    split at hstep
    · cases hstep
    · rename_i v rest hqueue
      cases hstep
      intro p
      by_cases hp : p = r
      · subst hp
        rw [Function.update_self, Function.update_of_ne (hne p), Function.update_self]
        exact (h p).take_left v rest
      · rw [Function.update_of_ne hp]
        by_cases hq : p = peer r
        · subst hq
          rw [hpeer r, Function.update_self, Function.update_self]
          exact (h.back hpeer r).take_right hqueue
        · have hq' : peer p ≠ r := fun heq => hq (heq ▸ (hpeer p).symm)
          rw [Function.update_of_ne hq, Function.update_of_ne hq', Function.update_of_ne (hpeer.injective.ne hp)]
          exact h p

theorem run_inv (hpeer : Function.Involutive peer) (hne : ∀ p, peer p ≠ p) {es : List (ExchangeEvent π α)}
    (hrun : run (step peer) (fun _ => start) es = some x) : Inv peer x :=
  run_invariant (inv_start peer) (fun _ _ _ h => step_inv hpeer hne h) es x hrun

omit [DecidableEq π] in
/-- When nothing is on its way between two peers they agree iff their last pushes have not crossed, or are equal. -/
theorem agree_iff (hpeer : Function.Involutive peer) (h : Inv peer x) (p : π) (hmine : (x p).queue = [])
    (hyours : (x (peer p)).queue = []) :
    (x p).value = (x (peer p)).value ↔
      ((x p).origin = .applied → (x (peer p)).origin = .applied → (x p).last = (x (peer p)).last) := by
  have hback := h.back hpeer p
  constructor
  · intro heq horigin horigin'
    rw [← (h p).yours horigin' hmine, ← hback.yours horigin hyours, heq]
  · intro hlast
    rcases (h p).eq_or_crossed hback hmine hyours with heq | ⟨horigin, horigin', hvalue, hvalue'⟩
    · exact heq
    · rw [hvalue, hvalue', hlast horigin horigin']

end Exchange

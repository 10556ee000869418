import ScreenLink.Core.TrustFile

/-!
# A save that fails

`TrustStore::trust` and `revoke` one call after another, each with what happens to its `save`. The map in memory is
updated first, so a call whose save fails leaves it ahead of the file: memory and file agree after every call iff no
failing call changes the map (`trust_calls_agree_iff`). The steps are those of `TrustFile` with one thread
(`step_runs`).
-/

namespace ScreenLink

/-- How the `save` of a call ends; the texts are those of the errors. -/
inductive SaveOutcome
  | createDirAll (text : String)
  | toStdvec (text : String)
  | write (text : String)
  | saved
  deriving DecidableEq

/-- What the call returns. -/
def SaveOutcome.error : SaveOutcome → Option Error
  | .createDirAll text | .write text => some (.io text)
  | .toStdvec text => some (.serde text)
  | .saved => none

structure TrustRequest where
  op : TrustOp
  outcome : SaveOutcome
  deriving DecidableEq

/-- The map in memory and the file. -/
structure TrustDisk where
  store : TrustStore
  file : Option Bytes

namespace TrustDisk

open Machine TrustFile

def load (c : TrustCodec) (file : Option Bytes) : TrustDisk := ⟨.load c file, file⟩

/-- `save`: the file after it; a failed write leaves the old one. `none` if it cannot end like this. -/
def save (c : TrustCodec) (t : TrustDisk) : SaveOutcome → Option (Option Bytes)
  | .createDirAll _ | .toStdvec _ => some t.file
  | .write _ => (c.toStdvec t.store).map fun _ => t.file
  | .saved => (c.toStdvec t.store).map some

/-- `trust` or `revoke`: update the map, then persist. -/
def step (c : TrustCodec) (t : TrustDisk) (req : TrustRequest) : Option TrustDisk :=
  let t := { t with store := req.op.update t.store }
  (t.save c req.outcome).map fun file => { t with file := file }

/-- What `load` would read is what is in memory. -/
def Agrees (c : TrustCodec) (t : TrustDisk) : Prop := (TrustStore.load c t.file).Same t.store

instance (c : TrustCodec) (t : TrustDisk) : Decidable (t.Agrees c) := inferInstanceAs (Decidable (TrustStore.Same _ _))

/-- A call that changes the map, and whose save fails. -/
def Unsaved (t : TrustDisk) (req : TrustRequest) : Prop :=
  req.outcome ≠ .saved ∧ ¬ (req.op.update t.store).Same t.store

instance (t : TrustDisk) (req : TrustRequest) : Decidable (t.Unsaved req) := inferInstanceAs (Decidable (_ ∧ _))

variable {c : TrustCodec} {t u : TrustDisk} {req : TrustRequest}

theorem step_cases (h : step c t req = some u) : u.store = req.op.update t.store ∧
    ((req.outcome ≠ .saved ∧ u.file = t.file) ∨
      (req.outcome = .saved ∧ ∃ bytes, c.toStdvec u.store = some bytes ∧ u.file = some bytes)) := by
  obtain ⟨op, outcome⟩ := req
  obtain ⟨file, hfile, rfl⟩ := Option.map_eq_some_iff.mp h
  refine ⟨rfl, ?_⟩
  cases outcome with
  | createDirAll text | toStdvec text =>
    cases hfile
    exact Or.inl ⟨by simp, rfl⟩
  | write text =>
    obtain ⟨bytes, -, rfl⟩ := Option.map_eq_some_iff.mp hfile
    exact Or.inl ⟨by simp, rfl⟩
  | saved =>
    obtain ⟨bytes, hbytes, rfl⟩ := Option.map_eq_some_iff.mp hfile
    exact Or.inr ⟨rfl, bytes, hbytes, rfl⟩

theorem agrees_step (hcodec : c.Decodes) (hagrees : t.Agrees c) (h : step c t req = some u) :
    u.Agrees c ↔ ¬ t.Unsaved req := by
  obtain ⟨hstore, ⟨hfails, hfile⟩ | ⟨hsaved, bytes, hbytes, hfile⟩⟩ := step_cases h
  · rw [Agrees, hfile, hstore]
    constructor
    · rintro hsame ⟨-, hchanged⟩
      exact hchanged (hsame.symm.trans hagrees)
    · intro hkept
      have hsame : (req.op.update t.store).Same t.store := by
        by_contra hchanged
        exact hkept ⟨hfails, hchanged⟩
      exact hagrees.trans hsame.symm
  · refine iff_of_true ?_ fun hunsaved => hunsaved.1 hsaved
    obtain ⟨store, hread, hsame⟩ := hcodec u.store bytes [] hbytes
    rw [List.append_nil] at hread
    rw [Agrees, hfile, TrustStore.load, hread]
    exact hsame

theorem trusted_after {fingerprint name : String} {outcome : SaveOutcome}
    (h : step c t ⟨.trust fingerprint name, outcome⟩ = some u) : u.store.isTrusted fingerprint = true := by
  rw [(step_cases h).1]
  simp [TrustOp.update, TrustStore.isTrusted_trust]

/-- In every run of calls: what `load` would read is what is in memory after each of them, iff no call that changes the
map fails to save it. And a `trust` call that returns `Err` leaves its device trusted in memory. -/
theorem trust_calls_agree_iff (hcodec : c.Decodes) (file : Option Bytes) (reqs : List TrustRequest) (t : TrustDisk)
    (hrun : run (step c) (load c file) reqs = some t) :
    ((∀ front back u, reqs = front ++ back → run (step c) (load c file) front = some u → u.Agrees c) ↔
        ¬ Seen (step c) Unsaved (load c file) reqs) ∧
      ∀ front fingerprint name outcome back u, reqs = front ++ ⟨.trust fingerprint name, outcome⟩ :: back →
        outcome.error.isSome = true → run (step c) (load c file) (front ++ [⟨.trust fingerprint name, outcome⟩]) = some u →
        u.store.isTrusted fingerprint = true := by
  constructor
  · exact always_good_iff (A := fun _ => True) (fun _ => rfl) trivial
      (fun t req u hagrees _ hstep => ⟨agrees_step hcodec hagrees hstep, fun _ => trivial⟩) hrun
  · intro front fingerprint name outcome back u _ _ hu
    obtain ⟨v, -, hstep⟩ := (run_snoc_eq_some _).mp hu
    exact trusted_after hstep

/-- Laptop A pairs, and the disk is full. -/
def fullDisk : List TrustRequest := [⟨.trust "aa" "Laptop A", .write "no space left on device"⟩]

/-- Pairing is reported as failed, and Laptop A is trusted until the restart. -/
theorem full_disk_trusts : ∃ t, run (step demoCodec) (load demoCodec none) fullDisk = some t ∧
    ¬ t.Agrees demoCodec ∧ t.store.isTrusted "aa" = true :=
  exists_run (by decide)

/-- Laptop A has paired already when its name cannot be saved once more, and Laptop B was never paired. -/
def harmlessFailures : List TrustRequest :=
  [⟨.trust "aa" "Laptop A", .saved⟩, ⟨.trust "aa" "Laptop A", .write "no space left on device"⟩,
    ⟨.revoke "bb", .createDirAll "permission denied"⟩]

theorem trust_calls_agree_iff_harmlessFailures : ∃ t,
    run (step demoCodec) (load demoCodec none) harmlessFailures = some t ∧ t.Agrees demoCodec := by
  obtain ⟨t, hrun, -⟩ : ∃ t, run (step demoCodec) (load demoCodec none) harmlessFailures = some t ∧ True :=
    exists_run (by decide)
  have hsaved : ¬ Seen (step demoCodec) Unsaved (load demoCodec none) harmlessFailures := by decide
  exact ⟨t, hrun, (trust_calls_agree_iff demoCodec_decodes none harmlessFailures t hrun).1.mpr hsaved harmlessFailures []
    t (List.append_nil _).symm hrun⟩

/-! ### The same call, step by step -/

/-- The events of a call, the `i`-th of its store. -/
def events (i : ℕ) (req : TrustRequest) : List TrustEvent :=
  match req.outcome with
  | .createDirAll text => [.call req.op, .update i, .fail i (.io text) 0]
  | .toStdvec text => [.call req.op, .update i, .fail i (.serde text) 0]
  | .write text => [.call req.op, .update i, .serialize i, .fail i (.io text) 0]
  | .saved => [.call req.op, .update i, .serialize i, .openFile i, .write i]

/-- One call is one thread's run of the shared store. -/
theorem step_runs (calls : List TrustCall) (h : step c t req = some u) :
    run (TrustFile.step c) ⟨t.store, t.file, calls⟩ (events calls.length req) =
      some ⟨u.store, u.file, calls ++ [⟨req.op, .returned req.outcome.error⟩]⟩ := by
  obtain ⟨op, outcome⟩ := req
  obtain ⟨file, hfile, rfl⟩ := Option.map_eq_some_iff.mp h
  cases outcome with
  | createDirAll text | toStdvec text =>
    cases hfile
    simp [events, run, TrustFile.step, TrustFile.setStage, SaveOutcome.error]
  | write text =>
    obtain ⟨bytes, hbytes, rfl⟩ := Option.map_eq_some_iff.mp hfile
    simp only at hbytes
    simp [events, run, TrustFile.step, TrustFile.setStage, SaveOutcome.error, hbytes]
  | saved =>
    obtain ⟨bytes, hbytes, rfl⟩ := Option.map_eq_some_iff.mp hfile
    simp only at hbytes
    simp [events, run, TrustFile.step, TrustFile.setStage, SaveOutcome.error, hbytes, TrustFile.overwrite]

end TrustDisk

end ScreenLink

import ScreenLink.Core.Security
import ScreenLink.Lib.Machine

/-!
# The trust store and its file

`TrustStore::trust` and `revoke` called from several threads: each updates the map under the write lock, serializes it
under the read lock, and writes the file under no lock. The file ends up with the map in memory unless the call that
writes last has serialized the map before a change it has not seen (`trust_file_agrees_iff`).
-/

namespace ScreenLink

/-- `postcard` on the map of trusted devices. -/
structure TrustCodec where
  toStdvec : TrustStore → Option Bytes
  fromBytes : Bytes → Option TrustStore

namespace TrustStore

def get (s : TrustStore) (fingerprint : String) : Option TrustedDevice := s.devices.lookup fingerprint

/-- The same map. -/
def Same (s t : TrustStore) : Prop := ∀ fingerprint, s.get fingerprint = t.get fingerprint

theorem same_iff (s t : TrustStore) : s.Same t ↔ s.devices.entries.Perm t.devices.entries := by
  constructor
  · intro h
    refine List.lookup_ext s.devices.nodupKeys t.devices.nodupKeys fun fp d => ?_
    have hfp : s.devices.entries.dlookup fp = t.devices.entries.dlookup fp := h fp
    rw [hfp]
  · exact fun h fp => AList.perm_lookup h

instance (s t : TrustStore) : Decidable (s.Same t) := decidable_of_iff' _ (same_iff s t)

theorem Same.symm {s t : TrustStore} (h : s.Same t) : t.Same s := fun fp => (h fp).symm

theorem Same.trans {s t u : TrustStore} (h : s.Same t) (h' : t.Same u) : s.Same u := fun fp => (h fp).trans (h' fp)

/-- What `load` puts in memory; a file that does not decode counts as empty. -/
def load (c : TrustCodec) (file : Option Bytes) : TrustStore :=
  match file with
  | some bytes => (c.fromBytes bytes).getD .empty
  | none => .empty

end TrustStore

/-- Deserializing gives the map that was serialized, whatever bytes come after it. -/
def TrustCodec.Decodes (c : TrustCodec) : Prop :=
  ∀ data bytes rest, c.toStdvec data = some bytes → ∃ store, c.fromBytes (bytes ++ rest) = some store ∧ store.Same data

inductive TrustOp
  | trust (fingerprint name : String)
  | revoke (fingerprint : String)
  deriving DecidableEq

/-- The map update of the call. -/
def TrustOp.update (op : TrustOp) (s : TrustStore) : TrustStore :=
  match op with
  | .trust fingerprint name => s.trust fingerprint name
  | .revoke fingerprint => s.revoke fingerprint

/-- How far a call has got. -/
inductive SaveStage
  | called
  | updated
  /-- Serialized; `data` is what was in memory then. -/
  | serialized (data : TrustStore) (bytes : Bytes)
  /-- The file is open, and empty. -/
  | opened (data : TrustStore) (bytes : Bytes)
  | returned (error : Option Error)

/-- The call has returned `Ok`. -/
def SaveStage.ok : SaveStage → Bool
  | .returned none => true
  | _ => false

structure TrustCall where
  op : TrustOp
  stage : SaveStage

/-- The store, its file and the calls made so far. -/
structure TrustFile where
  store : TrustStore
  file : Option Bytes
  calls : List TrustCall

inductive TrustEvent
  /-- Some thread calls `trust` or `revoke`. -/
  | call (op : TrustOp)
  | update (i : ℕ)
  | serialize (i : ℕ)
  /-- `fs::write` creates or truncates the file, -/
  | openFile (i : ℕ)
  /-- and writes from its start. -/
  | write (i : ℕ)
  /-- A step of `save` fails; a failing write has written `written` bytes. -/
  | fail (i : ℕ) (error : Error) (written : ℕ)
  deriving DecidableEq

namespace TrustFile

open Machine

/-- The store as loaded at the start. -/
def load (c : TrustCodec) (file : Option Bytes) : TrustFile := ⟨.load c file, file, []⟩

def setStage (t : TrustFile) (i : ℕ) (op : TrustOp) (stage : SaveStage) : TrustFile :=
  { t with calls := t.calls.set i ⟨op, stage⟩ }

/-- Overwrite the start of the file. -/
def overwrite (file : Option Bytes) (bytes : Bytes) : Option Bytes :=
  some (bytes ++ (file.getD []).drop bytes.length)

/-- One step; `none` if the event cannot happen now. -/
def step (c : TrustCodec) (t : TrustFile) (e : TrustEvent) : Option TrustFile :=
  match e with
  | .call op => some { t with calls := t.calls ++ [⟨op, .called⟩] }
  | .update i => match t.calls[i]? with
    | some ⟨op, .called⟩ => some { t.setStage i op .updated with store := op.update t.store }
    | _ => none
  | .serialize i => match t.calls[i]? with
    | some ⟨op, .updated⟩ => (c.toStdvec t.store).map fun bytes => t.setStage i op (.serialized t.store bytes)
    | _ => none
  | .openFile i => match t.calls[i]? with
    | some ⟨op, .serialized data bytes⟩ => some { t.setStage i op (.opened data bytes) with file := some [] }
    | _ => none
  | .write i => match t.calls[i]? with
    | some ⟨op, .opened _ bytes⟩ => some { t.setStage i op (.returned none) with file := overwrite t.file bytes }
    | _ => none
  | .fail i error written => match t.calls[i]? with
    | some ⟨op, .updated⟩ | some ⟨op, .serialized ..⟩ => some (t.setStage i op (.returned (some error)))
    | some ⟨op, .opened _ bytes⟩ => some { t.setStage i op (.returned (some error)) with
        file := overwrite t.file (bytes.take written) }
    | _ => none

/-- All calls have returned `Ok`. -/
def AllOk (t : TrustFile) : Prop := ∀ call ∈ t.calls, call.stage.ok = true

/-- When all calls have returned `Ok`, the file holds the map in memory. -/
def Agrees (c : TrustCodec) (t : TrustFile) : Prop := t.AllOk → (TrustStore.load c t.file).Same t.store

instance (t : TrustFile) : Decidable t.AllOk := inferInstanceAs (Decidable (∀ _ ∈ _, _))

/-- The last call to return writes the file, with a map that has changed since the call serialized it. -/
def StaleWrite (t : TrustFile) : TrustEvent → Prop
  | .write i => match t.calls[i]? with
    | some ⟨op, .opened data _⟩ => (t.setStage i op (.returned none)).AllOk ∧ ¬ data.Same t.store
    | _ => False
  | _ => False

instance (t : TrustFile) (e : TrustEvent) : Decidable (t.StaleWrite e) :=
  match e with
  | .write i => match h : t.calls[i]? with
    | some ⟨op, .opened data _⟩ =>
      decidable_of_iff ((t.setStage i op (.returned none)).AllOk ∧ ¬ data.Same t.store) (by simp [StaleWrite, h])
    | none | some ⟨_, .called⟩ | some ⟨_, .updated⟩ | some ⟨_, .serialized ..⟩ | some ⟨_, .returned _⟩ =>
      isFalse (by simp [StaleWrite, h])
  | .call _ | .update _ | .serialize _ | .openFile _ | .fail .. => isFalse id

/-! ### One step -/

variable {c : TrustCodec} {t u : TrustFile} {e : TrustEvent} {i : ℕ} {op : TrustOp} {stage stage' : SaveStage}

theorem allOk_setStage (hi : t.calls[i]? = some ⟨op, stage⟩) (h : (t.setStage i op stage').AllOk) :
    stage'.ok = true := by
  obtain ⟨hlt, -⟩ := List.getElem?_eq_some_iff.mp hi
  exact h ⟨op, stage'⟩ (List.mem_set hlt _)

/-- All stages carry the bytes of the map they say was serialized. -/
def Encoded (c : TrustCodec) (stage : SaveStage) : Prop :=
  match stage with
  | .serialized data bytes | .opened data bytes => c.toStdvec data = some bytes
  | _ => True

/-- A step is a new call, or moves one call to its next stage; the last stage is reached by the write. -/
theorem step_cases (h : step c t e = some u) :
    (∃ op, u.calls = t.calls ++ [⟨op, .called⟩] ∧ ∀ i, e ≠ .write i) ∨
      (∃ i op stage stage', t.calls[i]? = some ⟨op, stage⟩ ∧ u.calls = (t.setStage i op stage').calls ∧
        stage'.ok = false ∧ (Encoded c stage → Encoded c stage') ∧ ∀ j, e ≠ .write j) ∨
      (∃ i op data bytes, e = .write i ∧ t.calls[i]? = some ⟨op, .opened data bytes⟩ ∧
        u = { t.setStage i op (.returned none) with file := overwrite t.file bytes }) := by
  unfold step at h
  split at h
  case h_1 op =>
    cases h
    exact Or.inl ⟨op, rfl, nofun⟩
  case h_2 i =>
    split at h
    case h_1 op hi =>
      cases h
      exact Or.inr (Or.inl ⟨i, op, _, .updated, hi, rfl, rfl, fun _ => trivial, nofun⟩)
    case h_2 => cases h
  case h_3 i =>
    split at h
    case h_1 op hi =>
      obtain ⟨bytes, hbytes, rfl⟩ := Option.map_eq_some_iff.mp h
      exact Or.inr (Or.inl ⟨i, op, _, .serialized t.store bytes, hi, rfl, rfl, fun _ => hbytes, nofun⟩)
    case h_2 => cases h
  case h_4 i =>
    split at h
    case h_1 op data bytes hi =>
      cases h
      exact Or.inr (Or.inl ⟨i, op, _, .opened data bytes, hi, rfl, rfl, id, nofun⟩)
    case h_2 => cases h
  case h_5 i =>
    split at h
    case h_1 op data bytes hi =>
      cases h
      exact Or.inr (Or.inr ⟨i, op, data, bytes, rfl, hi, rfl⟩)
    case h_2 => cases h
  case h_6 i err written =>
    split at h
    case h_1 op hi | h_2 op data bytes hi | h_3 op data bytes hi =>
      cases h
      exact Or.inr (Or.inl ⟨i, op, _, .returned (some err), hi, rfl, rfl, fun _ => trivial, nofun⟩)
    case h_4 => cases h

/-- What is known throughout: the bytes of a call are those of the map it has serialized. -/
def AllEncoded (c : TrustCodec) (t : TrustFile) : Prop := ∀ call ∈ t.calls, Encoded c call.stage

theorem step_allEncoded (h : t.AllEncoded c) (hstep : step c t e = some u) : u.AllEncoded c := by
  intro call hcall
  rcases step_cases hstep with ⟨op, hcalls, -⟩ | ⟨i, op, stage, stage', hi, hcalls, -, hkeeps, -⟩ |
    ⟨i, op, data, bytes, -, hi, rfl⟩
  · rw [hcalls] at hcall
    rcases List.mem_append.mp hcall with hold | hnew
    · exact h call hold
    · rw [List.mem_singleton.mp hnew]
      trivial
  · rw [hcalls] at hcall
    rcases List.mem_or_eq_of_mem_set hcall with hold | rfl
    · exact h call hold
    · exact hkeeps (h ⟨op, stage⟩ (List.mem_of_getElem? hi))
  · rcases List.mem_or_eq_of_mem_set hcall with hold | rfl
    · exact h call hold
    · trivial

theorem load_overwrite (hcodec : c.Decodes) {data : TrustStore} {bytes : Bytes} (hbytes : c.toStdvec data = some bytes)
    (file : Option Bytes) : (TrustStore.load c (overwrite file bytes)).Same data := by
  obtain ⟨store, hstore, hsame⟩ := hcodec data bytes ((file.getD []).drop bytes.length) hbytes
  simpa [TrustStore.load, overwrite, hstore] using hsame

/-- In every run, and at every moment at which all calls have returned `Ok`: the file holds the map in memory, iff the
call that returned last did not write a map that had changed since the call serialized it. -/
theorem trust_file_agrees_iff (hcodec : c.Decodes) (file : Option Bytes) (es : List TrustEvent) (t : TrustFile)
    (hrun : run (step c) (load c file) es = some t) :
    (∀ front back u, es = front ++ back → run (step c) (load c file) front = some u → Agrees c u) ↔
      ¬ Seen (step c) StaleWrite (load c file) es := by
  refine always_good_iff (A := AllEncoded c) (fun _ _ => rfl) (fun call hcall => by cases hcall) ?_ hrun
  intro t e u _ hencoded hstep
  refine ⟨?_, fun _ => step_allEncoded hencoded hstep⟩
  have hnot : (∀ i, e ≠ .write i) → ¬ u.AllOk → (Agrees c u ↔ ¬ StaleWrite t e) := by
    refine fun hwrite hok => iff_of_true (fun h => absurd h hok) fun hstale => ?_
    cases e with
    | write i => exact hwrite i rfl
    | _ => exact hstale
  rcases step_cases hstep with ⟨op, hcalls, hwrite⟩ | ⟨i, op, stage, stage', hi, hcalls, hstage, -, hwrite⟩ |
    ⟨i, op, data, bytes, rfl, hi, rfl⟩
  · refine hnot hwrite fun hok => ?_
    cases hok ⟨op, .called⟩ (by simp [hcalls])
  · refine hnot hwrite fun hok => ?_
    rw [allOk_setStage hi fun call hcall => hok call (hcalls ▸ hcall)] at hstage
    cases hstage
  · have hload := load_overwrite hcodec (hencoded _ (List.mem_of_getElem? hi)) t.file
    have hstale : StaleWrite t (.write i) ↔ (t.setStage i op (.returned none)).AllOk ∧ ¬ data.Same t.store := by
      simp [StaleWrite, hi]
    rw [hstale]
    constructor
    · rintro hagrees ⟨hok, hchanged⟩
      exact hchanged (hload.symm.trans (hagrees hok))
    · intro hfresh hok
      refine hload.trans ?_
      by_contra hchanged
      exact hfresh ⟨hok, hchanged⟩

/-! ### Two devices -/

/-- The maps of the runs below, with what `postcard` makes of them. -/
def demoStores : List (TrustStore × Bytes) :=
  [(.empty, [0]),
    (TrustStore.empty.trust "aa" "Laptop A", [1, 2, 97, 97, 2, 97, 97, 8, 76, 97, 112, 116, 111, 112, 32, 65]),
    (TrustStore.empty.trust "bb" "Laptop B", [1, 2, 98, 98, 2, 98, 98, 8, 76, 97, 112, 116, 111, 112, 32, 66]),
    ((TrustStore.empty.trust "aa" "Laptop A").trust "bb" "Laptop B",
      [2, 2, 98, 98, 2, 98, 98, 8, 76, 97, 112, 116, 111, 112, 32, 66,
        2, 97, 97, 2, 97, 97, 8, 76, 97, 112, 116, 111, 112, 32, 65])]

def demoCodec : TrustCodec where
  toStdvec data := (demoStores.find? fun p => decide (p.1.devices.entries = data.devices.entries)).map Prod.snd
  fromBytes bytes := (demoStores.find? fun p => p.2.isPrefixOf bytes).map Prod.fst

theorem demoCodec_decodes : demoCodec.Decodes := by
  intro data bytes rest h
  obtain ⟨p, hp, rfl⟩ := Option.map_eq_some_iff.mp h
  have hmem := List.mem_of_find?_eq_some hp
  have heq : p.1.devices.entries = data.devices.entries := by simpa using List.find?_some hp
  have hsame : p.1.Same data := (TrustStore.same_iff _ _).mpr (heq ▸ List.Perm.refl _)
  refine ⟨p.1, ?_, hsame⟩
  simp only [demoStores, List.mem_cons, List.not_mem_nil, or_false] at hmem
  rcases hmem with rfl | rfl | rfl | rfl <;> rfl

/-- The file says that Laptop A is trusted. -/
def trustsA : Option Bytes := (demoStores[1]?).map Prod.snd

/-- A session trusts Laptop B while the user revokes Laptop A, and the session's write comes last. -/
def revokedMeanwhile : List TrustEvent :=
  [.call (.trust "bb" "Laptop B"), .update 0, .serialize 0, .call (.revoke "aa"), .update 1, .serialize 1, .openFile 1,
    .write 1, .openFile 0, .write 0]

/-- Both calls have returned `Ok`, and Laptop A is trusted again after a restart. -/
theorem revoked_trusted_again : ∃ t, run (step demoCodec) (load demoCodec trustsA) revokedMeanwhile = some t ∧
    t.AllOk ∧ t.store.isTrusted "aa" = false ∧ (TrustStore.load demoCodec t.file).isTrusted "aa" = true :=
  exists_run (by decide)

/-- The session's write comes before the user's call serializes the map. -/
def revokedAfter : List TrustEvent :=
  [.call (.trust "bb" "Laptop B"), .update 0, .serialize 0, .call (.revoke "aa"), .openFile 0, .update 1, .write 0,
    .serialize 1, .openFile 1, .write 1]

theorem trust_file_agrees_iff_revokedAfter : ∃ t,
    run (step demoCodec) (load demoCodec trustsA) revokedAfter = some t ∧ t.AllOk ∧ Agrees demoCodec t := by
  obtain ⟨t, hrun, hok⟩ : ∃ t, run (step demoCodec) (load demoCodec trustsA) revokedAfter = some t ∧ t.AllOk :=
    exists_run (by decide)
  have hfresh : ¬ Seen (step demoCodec) StaleWrite (load demoCodec trustsA) revokedAfter := by decide
  exact ⟨t, hrun, hok, (trust_file_agrees_iff demoCodec_decodes trustsA revokedAfter t hrun).mpr hfresh revokedAfter []
    t (List.append_nil _).symm hrun⟩

end TrustFile

end ScreenLink

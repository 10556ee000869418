import ScreenLink.Lib.Machine
import ScreenLink.Session.Core

/-!
# The identity files

`security.rs`: `Identity::load_or_generate`, called any number of times on one directory, each call with what happens to
its reads and writes. The certificate is written first and the key after it, and from then on both files exist and are
loaded as they are. So a call that returns an identity returns a generated pair unless an earlier call has stopped in the
middle of the key (`identity_whole_iff`).
-/

namespace ScreenLink

open Machine

/-- How an operation fails: with an error, or the process dies in it. -/
inductive Failure
  | error (text : String)
  | death
  deriving DecidableEq

/-- How `std::fs::write` ends. -/
inductive WriteEnd
  | done
  /-- The file could not be opened. -/
  | notOpened (failure : Failure)
  /-- The file was truncated and `kept` bytes were written. -/
  | stopped (kept : ℕ) (failure : Failure)
  deriving DecidableEq

namespace WriteEnd

/-- The file after the write. -/
def file (old : Option Bytes) (content : Bytes) : WriteEnd → Option Bytes
  | .done => some content
  | .notOpened _ => old
  | .stopped kept _ => some (content.take kept)

def failure : WriteEnd → Option Failure
  | .done => none
  | .notOpened failure | .stopped _ failure => some failure

end WriteEnd

/-- A certificate and its private key, as `rcgen` makes them. -/
structure KeyPair where
  cert : Bytes
  key : Bytes
  deriving DecidableEq

/-- `Identity::generate` -/
def Identity.generate (x : Crates) (pair : KeyPair) : Identity x where
  certDer := pair.cert
  keyDer := pair.key
  fingerprint := fingerprintHex x pair.cert
  fingerprint_eq := rfl

/-- What happens in one call. -/
structure IdentityCall where
  generated : Except Failure KeyPair
  createDirAll : Option Failure
  writeCert : WriteEnd
  writeKey : WriteEnd
  readCert : Option Failure
  readKey : Option Failure
  deriving DecidableEq

/-- The two files, and the pairs that have been generated. -/
structure IdentityDir where
  cert : Option Bytes := none
  key : Option Bytes := none
  generated : List KeyPair := []
  deriving DecidableEq

/-- What a call returns; nothing if the process dies. -/
inductive LoadResult (x : Crates)
  | ok (id : Identity x)
  | err (text : String)
  | died

variable {x : Crates}

/-- An operation of `std::fs` has failed. -/
def Failure.io : Failure → LoadResult x
  | .error text => .err (Error.io text).text
  | .death => .died

/-- `rcgen` has failed. -/
def Failure.rcgen : Failure → LoadResult x
  | .error text => .err ("certificate generation error: " ++ text)
  | .death => .died

namespace IdentityDir

/-- Generate an identity and save it. -/
def generateAndSave (x : Crates) (d : IdentityDir) (c : IdentityCall) : IdentityDir × LoadResult x :=
  match c.generated with
  | .error failure => (d, failure.rcgen)
  | .ok pair =>
    let d := { d with generated := d.generated ++ [pair] }
    match c.createDirAll with
    | some failure => (d, failure.io)
    | none =>
      let d := { d with cert := c.writeCert.file d.cert pair.cert }
      match c.writeCert.failure with
      | some failure => (d, failure.io)
      | none =>
        let d := { d with key := c.writeKey.file d.key pair.key }
        match c.writeKey.failure with
        | some failure => (d, failure.io)
        | none => (d, .ok (.generate x pair))

/-- Load the identity from the directory, generating and saving a new one if absent. -/
def loadOrGenerate (x : Crates) (d : IdentityDir) (c : IdentityCall) : IdentityDir × LoadResult x :=
  match d.cert, d.key with
  | some cert, some key =>
    match c.readCert, c.readKey with
    | some failure, _ => (d, failure.io)
    | none, some failure => (d, failure.io)
    | none, none => (d, .ok ⟨cert, key, fingerprintHex x cert, rfl⟩)
  | _, _ => d.generateAndSave x c

/-- One call after another. -/
def step (x : Crates) (d : IdentityDir) (c : IdentityCall) : Option IdentityDir := some (d.loadOrGenerate x c).1

/-- An identity that is returned is a generated pair, with the fingerprint of its certificate. -/
def Whole (x : Crates) (d : IdentityDir) (c : IdentityCall) : Prop :=
  ∀ id, (d.loadOrGenerate x c).2 = .ok id → ∃ pair ∈ (d.loadOrGenerate x c).1.generated,
    id.certDer = pair.cert ∧ id.keyDer = pair.key ∧ id.fingerprint = fingerprintHex x pair.cert

/-- The call stops in the middle of a new key, and what it leaves is not a key that was generated with the
certificate. -/
def TearsKey (d : IdentityDir) (c : IdentityCall) : Prop :=
  (d.cert = none ∨ d.key = none) ∧ c.createDirAll = none ∧ c.writeCert = .done ∧
    ∃ pair kept failure, c.generated = .ok pair ∧ c.writeKey = .stopped kept failure ∧
      ⟨pair.cert, pair.key.take kept⟩ ∉ d.generated ++ [pair]

end IdentityDir

/-- Both reads succeed. -/
def IdentityCall.Reads (c : IdentityCall) : Prop := c.readCert = none ∧ c.readKey = none

instance (c : IdentityCall) : Decidable c.Reads := inferInstanceAs (Decidable (_ ∧ _))

namespace IdentityDir

/-! ### One call -/

variable {d d' : IdentityDir} {c : IdentityCall}

/-- The key is never there without the certificate. -/
def Ordered (d : IdentityDir) : Prop := d.cert = none → d.key = none

/-- Both files are there, and are no pair. -/
def Torn (d : IdentityDir) : Prop :=
  ∃ cert key, d.cert = some cert ∧ d.key = some key ∧ ⟨cert, key⟩ ∉ d.generated

/-- One of the files is missing. -/
def Missing (d : IdentityDir) : Prop := d.cert = none ∨ d.key = none

/-- The call gets as far as the key. -/
def ReachesKey (c : IdentityCall) (pair : KeyPair) : Prop :=
  c.generated = .ok pair ∧ c.createDirAll = none ∧ c.writeCert = .done

/-- What a call does: it loads the two files, or fails to, or stops before the key, or writes the key. -/
inductive Course (x : Crates) (d : IdentityDir) (c : IdentityCall) : IdentityDir → LoadResult x → Prop
  | loads {cert key : Bytes} (hcert : d.cert = some cert) (hkey : d.key = some key) (hreads : c.Reads) :
      Course x d c d (.ok ⟨cert, key, fingerprintHex x cert, rfl⟩)
  | unread {cert key : Bytes} {r : LoadResult x} (hcert : d.cert = some cert) (hkey : d.key = some key)
      (hreads : ¬ c.Reads) (hr : ∀ id, r ≠ .ok id) : Course x d c d r
  | early {d' : IdentityDir} {r : LoadResult x} (hmissing : d.Missing) (hnot : ∀ pair, ¬ ReachesKey c pair)
      (hkey : d'.key = d.key) (hr : ∀ id, r ≠ .ok id) : Course x d c d' r
  | writes {pair : KeyPair} (hmissing : d.Missing) (hreaches : ReachesKey c pair) :
      Course x d c ⟨some pair.cert, c.writeKey.file d.key pair.key, d.generated ++ [pair]⟩
        (match c.writeKey.failure with
          | some failure => failure.io
          | none => .ok (.generate x pair))

theorem io_ne_ok (failure : Failure) (id : Identity x) : failure.io ≠ .ok id := by
  cases failure <;> simp [Failure.io]

theorem rcgen_ne_ok (failure : Failure) (id : Identity x) : failure.rcgen ≠ .ok id := by
  cases failure <;> simp [Failure.rcgen]

theorem course_of_both {cert key : Bytes} (hcert : d.cert = some cert) (hkey : d.key = some key) :
    Course x d c (d.loadOrGenerate x c).1 (d.loadOrGenerate x c).2 := by
  unfold loadOrGenerate
  rw [hcert, hkey]
  dsimp only
  rcases hreadCert : c.readCert with _ | failure
  · rcases hreadKey : c.readKey with _ | failure
    · exact .loads hcert hkey ⟨hreadCert, hreadKey⟩
    · exact .unread hcert hkey (fun h => by simp [h.2] at hreadKey) (io_ne_ok failure)
  · exact .unread hcert hkey (fun h => by simp [h.1] at hreadCert) (io_ne_ok failure)

theorem loadOrGenerate_of_missing (x : Crates) (c : IdentityCall) (hmissing : d.Missing) :
    d.loadOrGenerate x c = d.generateAndSave x c := by
  unfold loadOrGenerate
  rcases hmissing with hcert | hkey
  · rw [hcert]
  · rw [hkey]
    cases d.cert <;> rfl

theorem course_of_missing (hmissing : d.Missing) :
    Course x d c (d.loadOrGenerate x c).1 (d.loadOrGenerate x c).2 := by
  rw [loadOrGenerate_of_missing x c hmissing]
  unfold generateAndSave
  rcases hgenerated : c.generated with failure | pair
  · exact .early hmissing (fun pair h => by simp [h.1] at hgenerated) rfl (rcgen_ne_ok failure)
  dsimp only
  rcases hcreate : c.createDirAll with _ | failure
  · rcases hcert : c.writeCert with _ | failure | ⟨kept, failure⟩
    · have hreaches : ReachesKey c pair := ⟨hgenerated, hcreate, hcert⟩
      have hcourse : Course x d c _ _ := .writes hmissing hreaches
      rcases hend : c.writeKey with _ | failure | ⟨kept, failure⟩
      all_goals
        rw [hend] at hcourse
        exact hcourse
    · exact .early hmissing (fun pair h => by simp [h.2.2] at hcert) rfl (io_ne_ok failure)
    · exact .early hmissing (fun pair h => by simp [h.2.2] at hcert) rfl (io_ne_ok failure)
  · exact .early hmissing (fun pair h => by simp [h.2.1] at hcreate) rfl (io_ne_ok failure)

theorem course (x : Crates) (d : IdentityDir) (c : IdentityCall) :
    Course x d c (d.loadOrGenerate x c).1 (d.loadOrGenerate x c).2 := by
  cases hcert : d.cert with
  | none => exact course_of_missing (Or.inl hcert)
  | some cert =>
    cases hkey : d.key with
    | none => exact course_of_missing (Or.inr hkey)
    | some key => exact course_of_both hcert hkey

theorem Ordered.key_eq_none (h : d.Ordered) (hmissing : d.Missing) : d.key = none := by
  rcases hmissing with hcert | hkey
  · exact h hcert
  · exact hkey

theorem Ordered.not_torn (h : d.Ordered) (hmissing : d.Missing) : ¬ d.Torn := by
  rintro ⟨cert, key, hcert, hkey, -⟩
  rw [h.key_eq_none hmissing] at hkey
  cases hkey

namespace Course

variable {r : LoadResult x}

theorem ordered (hcourse : Course x d c d' r) (h : d.Ordered) : d'.Ordered := by
  cases hcourse with
  | loads | unread => exact h
  | early hmissing _ hkey =>
    intro _
    rw [hkey]
    exact h.key_eq_none hmissing
  | writes => exact nofun

theorem whole_iff (hcourse : Course x d c d' r) (h : d.Ordered) :
    (∀ id, r = .ok id → ∃ pair ∈ d'.generated,
      id.certDer = pair.cert ∧ id.keyDer = pair.key ∧ id.fingerprint = fingerprintHex x pair.cert) ↔
      ¬ (d.Torn ∧ c.Reads) := by
  cases hcourse with
  | @loads cert key hcert hkey hreads =>
    constructor
    · rintro hwhole ⟨⟨cert', key', hcert', hkey', hnot⟩, -⟩
      obtain rfl := Option.some.inj (hcert.symm.trans hcert')
      obtain rfl := Option.some.inj (hkey.symm.trans hkey')
      obtain ⟨⟨_, _⟩, hpair, rfl, rfl, -⟩ := hwhole _ rfl
      exact hnot hpair
    · rintro hnot id hid
      cases hid
      refine ⟨⟨cert, key⟩, ?_, rfl, rfl, rfl⟩
      by_contra hfresh
      exact hnot ⟨⟨cert, key, hcert, hkey, hfresh⟩, hreads⟩
  | unread _ _ hreads hr => exact iff_of_true (fun id hid => absurd hid (hr id)) fun hbad => hreads hbad.2
  | early hmissing _ _ hr => exact iff_of_true (fun id hid => absurd hid (hr id)) fun hbad => h.not_torn hmissing hbad.1
  | @writes pair hmissing hreaches =>
    refine iff_of_true (fun id hid => ?_) fun hbad => h.not_torn hmissing hbad.1
    cases hend : c.writeKey.failure with
    | some failure =>
      rw [hend] at hid
      exact absurd hid (io_ne_ok failure id)
    | none =>
      rw [hend] at hid
      cases hid
      exact ⟨pair, by simp, rfl, rfl, rfl⟩

/-- The files are torn by a call that stops in the middle of the key, and never mended. -/
theorem torn_iff (hcourse : Course x d c d' r) (h : d.Ordered) : d'.Torn ↔ d.Torn ∨ d.TearsKey c := by
  have hboth : ∀ {cert key}, d.cert = some cert → d.key = some key → ¬ d.TearsKey c := by
    rintro cert key hcert hkey ⟨hnone | hnone, -⟩
    · rw [hcert] at hnone
      cases hnone
    · rw [hkey] at hnone
      cases hnone
  cases hcourse with
  | loads hcert hkey _ => exact (or_iff_left (hboth hcert hkey)).symm
  | unread hcert hkey _ _ => exact (or_iff_left (hboth hcert hkey)).symm
  | early hmissing hnot hkey _ =>
    refine iff_of_false ?_ ?_
    · rintro ⟨cert, key, -, hkey', -⟩
      rw [hkey, h.key_eq_none hmissing] at hkey'
      cases hkey'
    · rintro (htorn | ⟨-, hcreate, hcert, pair, kept, failure, hgenerated, -⟩)
      · exact h.not_torn hmissing htorn
      · exact hnot pair ⟨hgenerated, hcreate, hcert⟩
  | @writes pair hmissing hreaches =>
    obtain ⟨hgenerated, hcreate, hcert⟩ := hreaches
    rw [or_iff_right (h.not_torn hmissing)]
    constructor
    · rintro ⟨_, key, hc, hk, hnot⟩
      cases hc
      refine ⟨hmissing, hcreate, hcert, pair, ?_⟩
      rcases hend : c.writeKey with _ | failure | ⟨kept, failure⟩
      · rw [hend] at hk
        cases hk
        exact absurd (by simp) hnot
      · rw [hend, WriteEnd.file, h.key_eq_none hmissing] at hk
        cases hk
      · rw [hend] at hk
        cases hk
        exact ⟨kept, failure, hgenerated, rfl, hnot⟩
    · rintro ⟨-, -, -, pair', kept, failure, hgenerated', hend, hnot⟩
      obtain rfl := Except.ok.inj (hgenerated.symm.trans hgenerated')
      exact ⟨_, _, rfl, by rw [hend]; rfl, hnot⟩

end Course

/-! ### Any number of calls -/

variable {calls : List IdentityCall}

theorem ordered_run (hrun : run (step x) {} calls = some d) : d.Ordered := by
  refine run_invariant (P := Ordered) (fun _ => rfl) (fun d c d' h hstep => ?_) calls d hrun
  obtain rfl := Option.some.inj hstep
  exact (course x d c).ordered h

theorem torn_run (hrun : run (step x) {} calls = some d) : d.Torn ↔ Seen (step x) TearsKey {} calls := by
  refine run_induction (P := fun calls d => d.Torn ↔ Seen (step x) TearsKey {} calls) ?_ ?_ calls d hrun
  · exact iff_of_false (Ordered.not_torn (fun _ => rfl) (Or.inl rfl)) (not_seen_nil _ _)
  · intro calls d c d' hd ih hstep
    obtain rfl := Option.some.inj hstep
    rw [seen_snoc hd, ← ih]
    exact (course x d c).torn_iff (ordered_run hd)

/-- Calls on a directory that is empty at first: each identity returned is a certificate and a key that were generated
together, with the certificate's fingerprint, iff no call whose reads succeed comes after one that has stopped in the
middle of the key. -/
theorem identity_whole_iff (x : Crates) (calls : List IdentityCall) :
    (∀ front c back d, calls = front ++ c :: back → run (step x) {} front = some d → Whole x d c) ↔
      ∀ front c back, calls = front ++ c :: back → c.Reads → ¬ Seen (step x) TearsKey {} front := by
  have hone : ∀ {front d} c, run (step x) {} front = some d →
      (Whole x d c ↔ (c.Reads → ¬ Seen (step x) TearsKey {} front)) := by
    intro front d c hd
    rw [← torn_run hd]
    exact ((course x d c).whole_iff (ordered_run hd)).trans (not_and'.trans Iff.rfl)
  constructor
  · intro hwhole front c back hsplit
    obtain ⟨d, hd⟩ := exists_run_of_total (step x) (fun _ _ => ⟨_, rfl⟩) {} front
    exact (hone c hd).mp (hwhole front c back d hsplit hd)
  · intro hnot front c back d hsplit hd
    exact (hone c hd).mpr (hnot front c back hsplit)

/-- The disk is full when the key is written. -/
def fullDisk : IdentityCall :=
  ⟨.ok ⟨[48, 1, 65], [48, 2, 1, 0]⟩, none, .done, .stopped 0 (.error "no space left on device"), none, none⟩

/-- Everything works. -/
def restart : IdentityCall := ⟨.ok ⟨[48, 1, 66], [48, 2, 2, 0]⟩, none, .done, .done, none, none⟩

/-- The first call fails, and the next one returns the certificate with an empty key. -/
theorem full_disk_loads_half : ∃ d id, run (step demoCrates) {} [fullDisk] = some d ∧
    (fullDisk.writeKey.failure = some (.error "no space left on device") ∧
      d.generated = [⟨[48, 1, 65], [48, 2, 1, 0]⟩]) ∧
    (d.loadOrGenerate demoCrates restart).2 = .ok id ∧ id.certDer = [48, 1, 65] ∧ id.keyDer = [] ∧
    ¬ Whole demoCrates d restart := by
  refine ⟨_, _, rfl, ⟨rfl, rfl⟩, rfl, rfl, rfl, fun hwhole => ?_⟩
  obtain ⟨pair, hpair, -, hkey, -⟩ := hwhole _ rfl
  obtain rfl : pair = ⟨[48, 1, 65], [48, 2, 1, 0]⟩ := List.mem_singleton.mp hpair
  cases hkey

end IdentityDir

end ScreenLink

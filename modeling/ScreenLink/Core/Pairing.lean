import ScreenLink.Core.Security
import ScreenLink.Lib.BigEndian

/-!
# Numeric-comparison pairing

`pairing.rs`: the 6-digit code both screens show, and the two-sided confirmation.
-/

namespace ScreenLink

/-- `str::as_bytes` -/
def asBytes (s : String) : Bytes := s.toUTF8.data.toList

/-- What `comparison_pin` hashes: a label, then the two fingerprints in order with a zero byte between. -/
def comparisonPinInput (fpA fpB : String) : Bytes :=
  let (lo, hi) := if fpA ≤ fpB then (fpA, fpB) else (fpB, fpA)
  asBytes "screenlink-pair-v1" ++ asBytes lo ++ [0] ++ asBytes hi

/-- `format!("{n:06}")` -/
def formatPin (n : ℕ) : String :=
  let digits := Nat.toDigits 10 n
  String.ofList (List.replicate (6 - digits.length) '0' ++ digits)

/-- The 6-digit comparison code of two fingerprints. -/
def comparisonPin (x : Crates) (fpA fpB : String) : String :=
  let d := (x.sha256 (comparisonPinInput fpA fpB)).toList
  formatPin (BigEndian.decode (d.take 4) % 1000000)

/-- The two-sided confirmation needed to complete pairing. -/
structure PairingState where
  localConfirmed : Bool := false
  remoteConfirmed : Bool := false
  deriving DecidableEq

namespace PairingState

def confirmLocal (s : PairingState) : PairingState := { s with localConfirmed := true }

def confirmRemote (s : PairingState) : PairingState := { s with remoteConfirmed := true }

def isComplete (s : PairingState) : Bool := s.localConfirmed && s.remoteConfirmed

end PairingState

end ScreenLink

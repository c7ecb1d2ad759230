import XrpLedger.Error

/-!
# Ledger time

The ledger counts seconds from the start of the year 2000 in 32 bits.
-/

set_option autoImplicit false

namespace XrpLedger.LedgerTime

/-- The seconds from the Unix epoch to the epoch of the ledger. -/
def epochOffset : Nat := 946684800

/-- Seconds since the Unix epoch, from seconds since the epoch of the ledger. -/
def toUnix (time : UInt32) : Nat :=
  time.toNat + epochOffset

/-- Seconds since the epoch of the ledger, from seconds since the Unix epoch. -/
def ofUnix (time : Nat) : Except CodecError UInt32 :=
  if epochOffset ≤ time ∧ time - epochOffset < 2 ^ 32 then .ok (UInt32.ofNat (time - epochOffset))
  else .error (.range (.unixTime time))

end XrpLedger.LedgerTime

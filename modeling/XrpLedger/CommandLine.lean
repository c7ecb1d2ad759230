import XrpLedger.Json.Printer
import XrpLedger.Text.Trimmed
import XrpLedger.Transaction.Json
import XrpLedger.Transaction.Signing

/-!
# The command line

Shows the keys of a seed and, if there is a destination, signs a payment to it. All settings come
from the environment, which is a parameter; the outcome is what is printed and the exit status. What
is printed before a failure stays printed.

* `XRPL_SEED`: the seed, required;
* `XRPL_DESTINATION`: the address of the payment;
* `XRPL_AMOUNT_DROPS`: its amount, required with a destination;
* `XRPL_FEE_DROPS`: its fee, twelve drops unless set;
* `XRPL_SEQUENCE`: the sequence number of the account, required with a destination;
* `XRPL_LAST_LEDGER_SEQUENCE`: the last ledger that may include it.
-/

set_option autoImplicit false

namespace XrpLedger.CommandLine

/-- What a run prints and how it ends. -/
structure Outcome where
  status : Nat
  stdout : String
  stderr : String

/-- The value of each setting that is there. -/
abbrev Environment := String → Option String

/-- A computation that prints lines and may fail. -/
abbrev Printing := ExceptT CodecError (StateM String)

/-- Prints a line. -/
def printLine (line : String) : Printing Unit :=
  modify (· ++ line ++ "\n")

/-- The value of a setting that may be missing; `parse` gives the value or says what is wrong. -/
def optional {α : Type} (environment : Environment) (name : String)
    (parse : String → Except String α) : Except CodecError (Option α) :=
  match environment name with
  | none => .ok none
  | some text =>
    match parse (Trimmed.trim text) with
    | .ok a => .ok (some a)
    | .error reason => .error (.format (.setting name reason))

/-- The value of a setting that must be there. -/
def required {α : Type} (environment : Environment) (name : String)
    (parse : String → Except String α) : Except CodecError α := do
  match ← optional environment name parse with
  | some a => return a
  | none => throw (.format (.settingMissing name))

/-- A reader of the library whose errors are told in words. -/
def inWords {α : Type} (parse : String → Except CodecError α) (text : String) : Except String α :=
  (parse text).mapError CodecError.message

/-- A number of drops of 64 bits. -/
def drops (text : String) : Except String Int :=
  (Integer.parseInt64 text).mapError IntegerError.message

/-- A number of 32 bits. -/
def ledgerIndex (text : String) : Except String UInt32 :=
  (Integer.parseUInt32 text).mapError IntegerError.message

/-- The fee of a payment for which none is set. -/
def defaultFee : Int := 12

/-- The unsigned payment that the settings describe. -/
def payment (environment : Environment) (sender : AccountId) : Except CodecError Transaction := do
  let destination ← required environment "XRPL_DESTINATION" (inWords AccountId.parse)
  let amount ← XrpAmount.ofDrops (← required environment "XRPL_AMOUNT_DROPS" drops)
  let fee ← XrpAmount.ofDrops ((← optional environment "XRPL_FEE_DROPS" drops).getD defaultFee)
  let sequence ← required environment "XRPL_SEQUENCE" ledgerIndex
  let last ← optional environment "XRPL_LAST_LEDGER_SEQUENCE" ledgerIndex
  let common := { Transaction.Common.ofAccount sender with
    fee := some fee, sequence := some sequence, lastLedgerSequence := last }
  return ⟨common, .payment (.plain destination (.xrp amount))⟩

/-- Signs the payment that the settings describe and prints it. -/
def signPayment (environment : Environment) (pair : KeyPair) : Printing Unit := do
  let unsigned ← liftExcept (payment environment pair.account)
  let (result, signed) := ((Transaction.sign KeyPair.scheme pair).run unsigned).run
  let signedBlob ← liftExcept result
  printLine ("Hash:       " ++ Digest.text signedBlob.hash)
  printLine ("Blob:       " ++ Hex.encode signedBlob.blob)
  printLine (signed.toJson.pretty 0)

/-- Shows the keys of the seed and signs the payment, if there is one. -/
def commands (environment : Environment) : Printing Unit := do
  let seed ← liftExcept (required environment "XRPL_SEED" (inWords Seed.parse))
  let pair ← liftExcept seed.keyPair
  printLine ("Key type:   " ++ pair.keyType.text)
  printLine ("Public key: " ++ Hex.encode pair.publicKey)
  printLine ("Address:    " ++ pair.account.address)
  if (environment "XRPL_DESTINATION").isSome then signPayment environment pair

/-- The outcome of a run. -/
def run (environment : Environment) : Outcome :=
  match ((commands environment).run "").run with
  | (.ok (), stdout) => ⟨0, stdout, ""⟩
  | (.error e, stdout) => ⟨1, stdout, "Error: " ++ e.debug ++ "\n"⟩

end XrpLedger.CommandLine

import XrpLedger.CommandLine

/-!
# The program

Reads the settings from the environment, runs the command line on them and prints what it says.
-/

set_option autoImplicit false

namespace XrpLedger

/-- The names of the settings. -/
def settingNames : List String :=
  ["XRPL_SEED", "XRPL_DESTINATION", "XRPL_AMOUNT_DROPS", "XRPL_FEE_DROPS", "XRPL_SEQUENCE",
    "XRPL_LAST_LEDGER_SEQUENCE"]

end XrpLedger

/-- Runs the command line on the settings of the environment. -/
def main : IO UInt32 := do
  let settings ← XrpLedger.settingNames.mapM fun name => do
    return (name, ← IO.getEnv name)
  let outcome := XrpLedger.CommandLine.run fun name =>
    (settings.find? fun setting => setting.1 = name).bind (·.2)
  IO.print outcome.stdout
  IO.eprint outcome.stderr
  return UInt32.ofNat outcome.status

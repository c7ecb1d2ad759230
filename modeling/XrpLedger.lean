import XrpLedger.Ledger.Header
import XrpLedger.Ledger.NFToken
import XrpLedger.Json.Parser
import XrpLedger.Json.Text
import XrpLedger.Main
import XrpLedger.Proofs.Amount.Canonical
import XrpLedger.Proofs.Object.Attempt
import XrpLedger.Proofs.Object.Items
import XrpLedger.Proofs.Transaction.Json
import XrpLedger.Proofs.Transaction.SigningData
import XrpLedger.Proofs.Transaction.SigningFields
import XrpLedger.Proofs.Transaction.SigningRun
import XrpLedger.Proofs.Key.Pair
import XrpLedger.Proofs.Transaction.Limits
import XrpLedger.Proofs.Transaction.SigningFailure
import XrpLedger.Proofs.Transaction.SigningOrder
import XrpLedger.Proofs.Transaction.Verification
import XrpLedger.Proofs.Amount.XrpText
import XrpLedger.Proofs.Object.Lengths
import XrpLedger.Proofs.Transaction.Serialize
import XrpLedger.Proofs.Object.Schema
import XrpLedger.Proofs.Transaction.Schema
import XrpLedger.Proofs.Key.SeedText
import XrpLedger.Proofs.Key.Derivation
import XrpLedger.Object.Reading
import XrpLedger.Proofs.Object.Reading
import XrpLedger.Proofs.Object.Scanner
import XrpLedger.Proofs.Object.Completion
import XrpLedger.Proofs.Object.OpenEnd
import XrpLedger.Proofs.Object.IssuedAmounts
import XrpLedger.Proofs.Ledger.NFToken
import XrpLedger.Proofs.Transaction.JsonKeys
import XrpLedger.Proofs.Amount.FixedWidth

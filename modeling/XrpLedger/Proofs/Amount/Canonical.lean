import XrpLedger.Proofs.Object.Cursor

/-!
# Amounts have one encoding

An amount is appended to what is written as its bytes, and read from these bytes only: as a whole
byte string, and at a position of a buffer. So every word that a reader takes is one that a writer
packs, with one sign, exponent and mantissa for each value, and one word for zero.
-/

set_option autoImplicit false

namespace XrpLedger

namespace Reader

/-- The reader of amounts reads exactly what the writer of amounts writes. -/
theorem reads_amount : amount.Reads Amount.toBytes fun _ => True := by
  intro bytes a rest
  rw [run_amount_eq_ok_iff, true_and]

end Reader

namespace Amount

/-- An amount is what exactly one byte string holds, the one that is appended for it, and it is read
at a position exactly where this byte string stands. -/
theorem encodings_of_amount (amount : Amount) (bytes written buffer : Bytes)
    (position count : Nat) :
    (ofBytes bytes = .ok amount ↔ bytes = amount.toBytes) ∧
      amount.appendTo written = written ++ amount.toBytes ∧
      ((Cursor.seek buffer position).read Reader.amount
          = (.ok amount, Cursor.seek buffer (position + count)) ↔
        count ≤ (buffer.drop position).length ∧
          (buffer.drop position).take count = amount.toBytes) := by
  refine ⟨ofBytes_eq_ok_iff, appendTo_eq amount written, ?_⟩
  rw [Cursor.read_seek_eq_ok_iff_of_reads Reader.reads_amount, true_and]

/-- The word of a negative zero holds no amount. -/
example : ofBytes [0, 0, 0, 0, 0, 0, 0, 0] = .error (.format .negativeZero) := by
  decide

end Amount

end XrpLedger

import XrpLedger.Proofs.Object.Take
import XrpLedger.Transaction.Inner

/-!
# Memos, signers and members of signer lists

An entry of an array is read as a memo exactly if it is the entry of that memo, and so for signers
and for members of signer lists. The fields of the entry have to be in order, as they are in any
object that was read.
-/

set_option autoImplicit false

namespace XrpLedger

open Scalar (IsKind)

/-- Only the expected wrapper passes the check. -/
theorem checkWrapper_eq_ok_iff {found expected : FieldId} {u : Unit} :
    checkWrapper found expected = .ok u ↔ found = expected := by
  unfold checkWrapper
  split
  · next h => exact iff_of_true rfl h
  · next h => exact iff_of_false nofun h

/-- An entry is what slots are written as exactly if it has the wrapper, fills the slots and has no
other field. -/
theorem written_eq_iff {entry : FieldId × List (FieldId × Value)} {wrapper : FieldId}
    {slots : List Slot} (h : Value.RegularFields entry.2)
    (hslots : FieldId.Ascend (slots.map (·.field)))
    (harray : ∀ field ∈ slots.map (·.field), field.typeCode ≠ .array) :
    (wrapper, Slot.written slots) = entry ↔
      entry.1 = wrapper ∧ (∀ slot ∈ slots, (Object.mk entry.2).Fills slot) ∧
        (Object.mk entry.2).HasOnly (slots.map (·.field)) := by
  obtain ⟨found, fields⟩ := entry
  rw [← Slot.eq_written_iff_fills h hslots harray, Prod.mk.injEq, Object.mk.injEq]
  exact and_congr eq_comm eq_comm

namespace Memo

/-- An entry is read as a memo exactly if it is the entry of that memo. -/
theorem ofEntry_eq_ok_iff {entry : FieldId × List (FieldId × Value)} {memo : Memo}
    (h : Value.RegularFields (Object.mk entry.2).fields) :
    ofEntry entry = .ok memo ↔ memo.toEntry = entry := by
  have hfields : memo.slots.map (·.field) = [.memoType, .memoData, .memoFormat] := rfl
  rw [toEntry, written_eq_iff h (by rw [hfields]; decide) (by rw [hfields]; decide), hfields]
  simp only [ofEntry, bind_eq_ok_iff, checkWrapper_eq_ok_iff, Taking.runOn_eq_ok_iff]
  simp (disch := decide) only [Taking.bind_scalar h IsKind.blob.isView, Taking.bind_finish,
    Taking.gives_pure_iff, slots, List.forall_mem_cons, List.not_mem_nil, false_implies,
    implies_true, and_true]
  constructor
  · rintro ⟨_, hwrapper, _, _, htype, _, hdata, _, hformat, honly, rfl, -⟩
    exact ⟨hwrapper, ⟨htype, hdata, hformat⟩,
      (Object.hasOnly_congr (by decide) (by decide)).mp honly⟩
  · rintro ⟨hwrapper, ⟨htype, hdata, hformat⟩, honly⟩
    exact ⟨(), hwrapper, _, _, htype, _, hdata, _, hformat,
      (Object.hasOnly_congr (by decide) (by decide)).mp honly, rfl, rfl⟩

end Memo

namespace Signer

/-- An entry is read as a signer exactly if it is the entry of that signer. -/
theorem ofEntry_eq_ok_iff {entry : FieldId × List (FieldId × Value)} {signer : Signer}
    (h : Value.RegularFields (Object.mk entry.2).fields) :
    ofEntry entry = .ok signer ↔ signer.toEntry = entry := by
  have hfields : signer.slots.map (·.field) = [.signingPubKey, .txnSignature, .account] := rfl
  rw [toEntry, written_eq_iff h (by rw [hfields]; decide) (by rw [hfields]; decide), hfields]
  simp only [ofEntry, bind_eq_ok_iff, checkWrapper_eq_ok_iff, Taking.runOn_eq_ok_iff]
  simp (disch := decide) only [Taking.bind_requiredScalar h IsKind.blob.isView,
    Taking.bind_requiredScalar h IsKind.account.isView, Taking.bind_finish, Taking.gives_pure_iff,
    slots, List.forall_mem_cons, List.not_mem_nil, false_implies, implies_true, and_true]
  constructor
  · rintro ⟨_, hwrapper, _, _, hkey, _, hsignature, _, haccount, honly, rfl, -⟩
    exact ⟨hwrapper, ⟨hkey, hsignature, haccount⟩,
      (Object.hasOnly_congr (by decide) (by decide)).mp honly⟩
  · rintro ⟨hwrapper, ⟨hkey, hsignature, haccount⟩, honly⟩
    exact ⟨(), hwrapper, _, _, hkey, _, hsignature, _, haccount,
      (Object.hasOnly_congr (by decide) (by decide)).mp honly, rfl, rfl⟩

end Signer

namespace SignerEntry

/-- An entry is read as a member exactly if it is the entry of that member. -/
theorem ofEntry_eq_ok_iff {entry : FieldId × List (FieldId × Value)} {member : SignerEntry}
    (h : Value.RegularFields (Object.mk entry.2).fields) :
    ofEntry entry = .ok member ↔ member.toEntry = entry := by
  have hfields : member.slots.map (·.field) = [.signerWeight, .account] := rfl
  rw [toEntry, written_eq_iff h (by rw [hfields]; decide) (by rw [hfields]; decide), hfields]
  simp only [ofEntry, bind_eq_ok_iff, checkWrapper_eq_ok_iff, Taking.runOn_eq_ok_iff]
  simp (disch := decide) only [Taking.bind_requiredScalar h IsKind.uint16.isView,
    Taking.bind_requiredScalar h IsKind.account.isView, Taking.bind_finish, Taking.gives_pure_iff,
    slots, List.forall_mem_cons, List.not_mem_nil, false_implies, implies_true, and_true]
  constructor
  · rintro ⟨_, hwrapper, _, _, hweight, _, haccount, honly, rfl, -⟩
    exact ⟨hwrapper, ⟨hweight, haccount⟩,
      (Object.hasOnly_congr (by decide) (by decide)).mp honly⟩
  · rintro ⟨hwrapper, ⟨hweight, haccount⟩, honly⟩
    exact ⟨(), hwrapper, _, _, hweight, _, haccount,
      (Object.hasOnly_congr (by decide) (by decide)).mp honly, rfl, rfl⟩

end SignerEntry

end XrpLedger

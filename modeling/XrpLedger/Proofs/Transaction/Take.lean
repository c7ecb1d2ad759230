import XrpLedger.Proofs.Transaction.Layout

/-!
# Taking transactions out of objects

What is taken for a transaction is compared with the slots of that transaction, part by part: the
arrays, the common part, the details of each type. The result is `Transaction.ofObject_eq_ok_iff`:
an object in order is read as a transaction exactly if it fills all slots of the transaction and has
no field that the layout of the type does not name.
-/

set_option autoImplicit false

namespace XrpLedger

open Scalar (IsKind)

/-- A type is found by its own code only. -/
theorem TransactionType.ofCode_eq_ok_iff {code : UInt16} {type : TransactionType} :
    ofCode code = .ok type ↔ type.code = code := by
  unfold ofCode
  constructor
  · intro h
    split at h
    · next found hfind =>
      cases h
      simpa using List.find?_some hfind
    · cases h
  · rintro rfl
    cases type <;> rfl

namespace Transaction

variable {α β : Type} {object rest : Object} {field : FieldId} {taken : List FieldId}

/-- An amount of XRP that must be there is taken exactly if it fills its slot. -/
theorem gives_takeXrp_iff {a : XrpAmount} (h : Value.RegularFields object.fields)
    (hfield : field ∉ taken) (htype : field.typeCode ≠ .array) :
    (takeXrp field).Gives (object.without taken) a rest ↔
      object.Fills (.always field (.amount (.xrp a))) ∧ object.without (field :: taken) = rest := by
  unfold takeXrp
  rw [Taking.bind_scalar h IsKind.amount.isView hfield htype]
  constructor
  · rintro ⟨_ | amount, hfills, hnext⟩
    · exact absurd hnext Taking.not_gives_throw
    · obtain ⟨hxrp, rfl⟩ := Taking.gives_liftExcept_iff.mp hnext
      cases amount with
      | xrp xrp =>
        cases hxrp
        exact ⟨hfills, rfl⟩
      | issued issued => cases hxrp
  · rintro ⟨hfills, rfl⟩
    exact ⟨some (.xrp a), hfills, Taking.gives_liftExcept_iff.mpr ⟨rfl, rfl⟩⟩

/-- Entries are read one by one when each is read as what it is the entry of. -/
theorem mapM_ofEntry_eq_ok_iff {ofEntry : FieldId × List (FieldId × Value) → Except CodecError α}
    {toEntry : α → FieldId × List (FieldId × Value)}
    {entries : List (FieldId × List (FieldId × Value))} {as : List α}
    (hentry : ∀ entry ∈ entries, ∀ a, ofEntry entry = .ok a ↔ toEntry a = entry) :
    entries.mapM ofEntry = .ok as ↔ as.map toEntry = entries := by
  induction entries generalizing as with
  | nil => rw [List.mapM_nil, pure_eq_ok_iff, List.map_eq_nil_iff, eq_comm]
  | cons entry rest ih =>
    have hrest : ∀ as : List α, rest.mapM ofEntry = .ok as ↔ as.map toEntry = rest :=
      fun _ => ih fun e he => hentry e (List.mem_cons_of_mem _ he)
    simp only [List.mapM_cons, bind_eq_ok_iff, pure_eq_ok_iff, hrest,
      hentry entry List.mem_cons_self]
    constructor
    · rintro ⟨a, rfl, as', rfl, rfl⟩
      rfl
    · intro h
      cases as with
      | nil => cases h
      | cons a as' =>
        obtain ⟨hfirst, hothers⟩ := List.cons.inj h
        exact ⟨a, hfirst, as', hothers, rfl⟩

/-- Entries are taken exactly if they fill their slot. -/
theorem gives_takeEntries_iff {ofEntry : FieldId × List (FieldId × Value) → Except CodecError α}
    {toEntry : α → FieldId × List (FieldId × Value)} {as : List α}
    (h : Value.RegularFields object.fields)
    (hentry : ∀ entry a, Value.RegularFields entry.2 → (ofEntry entry = .ok a ↔ toEntry a = entry))
    (hfield : field ∉ taken) :
    (takeEntries ofEntry field).Gives (object.without taken) as rest ↔
      object.Fills (.entries field (as.map toEntry)) ∧
        object.without (field :: taken) = rest := by
  have harray : ∀ found entries, Value.array? found = some entries ↔ found = .array entries := by
    rintro ⟨⟩ entries <;> simp [Value.array?]
  have hread : ∀ entries, object.get? field = some (.array entries) →
      (entries.mapM ofEntry = .ok as ↔ as.map toEntry = entries) := by
    intro entries hget
    have hregular := (h.of_mem ((Object.get?_eq_some_iff h.ascend.nodup).mp hget)).2
    exact mapM_ofEntry_eq_ok_iff fun entry he a => hentry entry a (hregular.of_mem he)
  unfold takeEntries
  rw [Taking.bind_of_gives_iff fun _ _ => Taking.gives_viewed_iff h.ascend.nodup hfield,
    Object.fills_entries_iff h]
  simp only [harray, Taking.gives_liftExcept_iff]
  constructor
  · rintro ⟨_, ⟨hget, rfl⟩ | ⟨_, entries, hget, rfl, rfl⟩, hentries, hrest⟩
    · cases (pure_eq_ok_iff.mp hentries)
      exact ⟨.inl ⟨hget, rfl⟩, hrest⟩
    · obtain rfl := (hread entries hget).mp hentries
      exact ⟨.inr hget, hrest⟩
  · rintro ⟨⟨hget, hnone⟩ | hget, hrest⟩
    · obtain rfl := List.map_eq_nil_iff.mp hnone
      exact ⟨none, .inl ⟨hget, rfl⟩, rfl, hrest⟩
    · exact ⟨some (as.map toEntry), .inr ⟨_, _, hget, rfl, rfl⟩, (hread _ hget).mpr rfl, hrest⟩

/-- Before more steps, an amount of XRP that must be there is taken if it fills its slot. -/
theorem bind_takeXrp {next : XrpAmount → Taking α} {b : α} (h : Value.RegularFields object.fields)
    (hfield : field ∉ taken) (htype : field.typeCode ≠ .array) :
    (takeXrp field >>= next).Gives (object.without taken) b rest ↔
      ∃ a, object.Fills (.always field (.amount (.xrp a))) ∧
        (next a).Gives (object.without (field :: taken)) b rest :=
  Taking.bind_of_gives_iff fun _ _ => gives_takeXrp_iff h hfield htype

/-- Before more steps, entries are taken that fill their slot. -/
theorem bind_takeEntries {ofEntry : FieldId × List (FieldId × Value) → Except CodecError α}
    {toEntry : α → FieldId × List (FieldId × Value)} {next : List α → Taking β} {b : β}
    (h : Value.RegularFields object.fields)
    (hentry : ∀ entry a, Value.RegularFields entry.2 → (ofEntry entry = .ok a ↔ toEntry a = entry))
    (hfield : field ∉ taken) :
    (takeEntries ofEntry field >>= next).Gives (object.without taken) b rest ↔
      ∃ as, object.Fills (.entries field (as.map toEntry)) ∧
        (next as).Gives (object.without (field :: taken)) b rest :=
  Taking.bind_of_gives_iff fun _ _ => gives_takeEntries_iff h hentry hfield

/-! ## The common part -/

/-- The common part is taken, behind the type, exactly if it has a sequence and a fee and all its
slots are filled. -/
theorem gives_takeCommon_iff {common : Common} (h : Value.RegularFields object.fields)
    {type : TransactionType} (htype : object.Fills (.always .transactionType (.uint16 type.code))) :
    takeCommon.Gives (object.without [.transactionType]) common rest ↔
      (∃ sequence fee, common.sequence = some sequence ∧ common.fee = some fee ∧
        ∀ slot ∈ common.slots type sequence fee false, object.Fills slot) ∧
        object.without Common.fieldIds = rest := by
  -- fields are taken in another order than slots stand in, so both directions only rearrange
  have hmemo : ∀ entry memo, Value.RegularFields entry.2 →
      (Memo.ofEntry entry = .ok memo ↔ Memo.toEntry memo = entry) :=
    fun _ _ => Memo.ofEntry_eq_ok_iff
  have hsigner : ∀ entry signer, Value.RegularFields entry.2 →
      (Signer.ofEntry entry = .ok signer ↔ Signer.toEntry signer = entry) :=
    fun _ _ => Signer.ofEntry_eq_ok_iff
  simp (disch := decide) only [takeCommon, bind_takeEntries h hmemo, bind_takeEntries h hsigner,
    bind_takeXrp h, Taking.bind_requiredScalar h IsKind.account.isView,
    Taking.bind_requiredScalar h IsKind.uint32.isView,
    Taking.bind_requiredScalar h IsKind.blob.isView, Taking.bind_scalar h IsKind.uint32.isView,
    Taking.bind_scalar h IsKind.hash256.isView, Taking.bind_scalar h IsKind.blob.isView,
    Taking.gives_pure_iff, Common.slots, List.forall_mem_cons, List.not_mem_nil, false_implies,
    implies_true, and_true, Bool.false_eq_true, if_false]
  constructor
  · rintro ⟨_, hmemos, _, hsigners, _, haccount, fee, hfee, sequence, hsequence, _, hnetwork, _,
      hflags, _, hsource, _, hlast, _, htxn, _, hkey, _, hsignature, rfl, rfl⟩
    exact ⟨⟨sequence, fee, rfl, rfl, htype, hnetwork, hflags, hsource, hsequence, hlast, htxn, hfee,
      hkey, hsignature, haccount, hsigners, hmemos⟩,
      Object.without_congr (by decide) (by decide)⟩
  · rintro ⟨⟨sequence, fee, hseq, hxrp, -, hnetwork, hflags, hsource, hsequence, hlast, htxn, hfee,
      hkey, hsignature, haccount, hsigners, hmemos⟩, rfl⟩
    obtain ⟨_, _, _, _, _, _, _, _, _, _, _, _⟩ := common
    cases hseq
    cases hxrp
    exact ⟨_, hmemos, _, hsigners, _, haccount, _, hfee, _, hsequence, _, hnetwork, _, hflags, _,
      hsource, _, hlast, _, htxn, _, hkey, _, hsignature, rfl,
      Object.without_congr (by decide) (by decide)⟩

/-! ## The details -/

/-- The details of a type are taken, behind the common part, exactly if all their slots are filled.
-/
def TakesDetails (object : Object) (type : TransactionType) : Prop :=
  ∀ details rest, (takeDetails type).Gives (object.without Common.fieldIds) details rest ↔
    (details.type = type ∧ ∀ slot ∈ details.slots, object.Fills slot) ∧
      object.without type.layout = rest

/-- The details of a payment are taken where they fill its slots. -/
theorem takesDetails_payment (h : Value.RegularFields object.fields) :
    TakesDetails object .payment := by
  intro details rest
  simp (disch := decide) only [takeDetails, Taking.bind_requiredScalar h IsKind.account.isView,
    Taking.bind_requiredScalar h IsKind.amount.isView, Taking.bind_scalar h IsKind.uint32.isView,
    Taking.bind_scalar h IsKind.hash256.isView, Taking.bind_scalar h IsKind.amount.isView,
    Taking.gives_pure_iff]
  constructor
  · rintro ⟨_, hdestination, _, hamount, _, htag, _, hinvoice, _, hmax, _, hmin, rfl, rfl⟩
    refine ⟨⟨rfl, ?_⟩, Object.without_congr (by decide) (by decide)⟩
    simp only [Details.slots, List.forall_mem_cons]
    exact ⟨htag, hinvoice, hamount, hmax, hmin, hdestination, List.forall_mem_nil _⟩
  · rintro ⟨⟨htype, hslots⟩, rfl⟩
    cases details with
    | payment d =>
      simp only [Details.slots, List.forall_mem_cons] at hslots
      obtain ⟨htag, hinvoice, hamount, hmax, hmin, hdestination, -⟩ := hslots
      exact ⟨_, hdestination, _, hamount, _, htag, _, hinvoice, _, hmax, _, hmin, rfl,
        Object.without_congr (by decide) (by decide)⟩
    | _ => cases htype

/-- The settings of an account are taken where they fill their slots. -/
theorem takesDetails_accountSet (h : Value.RegularFields object.fields) :
    TakesDetails object .accountSet := by
  intro details rest
  simp (disch := decide) only [takeDetails, Taking.bind_scalar h IsKind.uint32.isView,
    Taking.bind_scalar h IsKind.hash128.isView, Taking.bind_scalar h IsKind.blob.isView,
    Taking.bind_scalar h IsKind.uint8.isView,
    Taking.gives_pure_iff]
  constructor
  · rintro ⟨_, hclear, _, hset, _, hrate, _, hemail, _, hkey, _, hdomain, _, htick, rfl, rfl⟩
    refine ⟨⟨rfl, ?_⟩, Object.without_congr (by decide) (by decide)⟩
    simp only [Details.slots, List.forall_mem_cons]
    exact ⟨hrate, hset, hclear, hemail, hkey, hdomain, htick, List.forall_mem_nil _⟩
  · rintro ⟨⟨htype, hslots⟩, rfl⟩
    cases details with
    | accountSet d =>
      simp only [Details.slots, List.forall_mem_cons] at hslots
      obtain ⟨hrate, hset, hclear, hemail, hkey, hdomain, htick, -⟩ := hslots
      exact ⟨_, hclear, _, hset, _, hrate, _, hemail, _, hkey, _, hdomain, _, htick, rfl,
        Object.without_congr (by decide) (by decide)⟩
    | _ => cases htype

/-- The details of setting a regular key are taken where they fill their slots. -/
theorem takesDetails_setRegularKey (h : Value.RegularFields object.fields) :
    TakesDetails object .setRegularKey := by
  intro details rest
  simp (disch := decide) only [takeDetails, Taking.bind_scalar h IsKind.account.isView,
    Taking.gives_pure_iff]
  constructor
  · rintro ⟨_, hregular, rfl, rfl⟩
    refine ⟨⟨rfl, ?_⟩, Object.without_congr (by decide) (by decide)⟩
    simp only [Details.slots, List.forall_mem_cons]
    exact ⟨hregular, List.forall_mem_nil _⟩
  · rintro ⟨⟨htype, hslots⟩, rfl⟩
    cases details with
    | setRegularKey d =>
      simp only [Details.slots, List.forall_mem_cons] at hslots
      obtain ⟨hregular, -⟩ := hslots
      exact ⟨_, hregular, rfl,
        Object.without_congr (by decide) (by decide)⟩
    | _ => cases htype

/-- The details of a new offer are taken where they fill its slots. -/
theorem takesDetails_offerCreate (h : Value.RegularFields object.fields) :
    TakesDetails object .offerCreate := by
  intro details rest
  simp (disch := decide) only [takeDetails, Taking.bind_requiredScalar h IsKind.amount.isView,
    Taking.bind_scalar h IsKind.uint32.isView,
    Taking.gives_pure_iff]
  constructor
  · rintro ⟨_, hpays, _, hgets, _, hexpiration, _, hoffer, rfl, rfl⟩
    refine ⟨⟨rfl, ?_⟩, Object.without_congr (by decide) (by decide)⟩
    simp only [Details.slots, List.forall_mem_cons]
    exact ⟨hexpiration, hoffer, hpays, hgets, List.forall_mem_nil _⟩
  · rintro ⟨⟨htype, hslots⟩, rfl⟩
    cases details with
    | offerCreate d =>
      simp only [Details.slots, List.forall_mem_cons] at hslots
      obtain ⟨hexpiration, hoffer, hpays, hgets, -⟩ := hslots
      exact ⟨_, hpays, _, hgets, _, hexpiration, _, hoffer, rfl,
        Object.without_congr (by decide) (by decide)⟩
    | _ => cases htype

/-- The details of cancelling an offer are taken where they fill their slots. -/
theorem takesDetails_offerCancel (h : Value.RegularFields object.fields) :
    TakesDetails object .offerCancel := by
  intro details rest
  simp (disch := decide) only [takeDetails, Taking.bind_requiredScalar h IsKind.uint32.isView,
    Taking.gives_pure_iff]
  constructor
  · rintro ⟨_, hoffer, rfl, rfl⟩
    refine ⟨⟨rfl, ?_⟩, Object.without_congr (by decide) (by decide)⟩
    simp only [Details.slots, List.forall_mem_cons]
    exact ⟨hoffer, List.forall_mem_nil _⟩
  · rintro ⟨⟨htype, hslots⟩, rfl⟩
    cases details with
    | offerCancel d =>
      simp only [Details.slots, List.forall_mem_cons] at hslots
      obtain ⟨hoffer, -⟩ := hslots
      exact ⟨_, hoffer, rfl,
        Object.without_congr (by decide) (by decide)⟩
    | _ => cases htype

/-- The details of setting a signer list are taken where they fill their slots. -/
theorem takesDetails_signerListSet (h : Value.RegularFields object.fields) :
    TakesDetails object .signerListSet := by
  intro details rest
  have hmember : ∀ entry member, Value.RegularFields entry.2 →
      (SignerEntry.ofEntry entry = .ok member ↔ SignerEntry.toEntry member = entry) :=
    fun _ _ => SignerEntry.ofEntry_eq_ok_iff
  simp (disch := decide) only [takeDetails, Taking.bind_requiredScalar h IsKind.uint32.isView,
    bind_takeEntries h hmember, Taking.gives_pure_iff]
  constructor
  · rintro ⟨_, hquorum, _, hmembers, rfl, rfl⟩
    refine ⟨⟨rfl, ?_⟩, Object.without_congr (by decide) (by decide)⟩
    simp only [Details.slots, List.forall_mem_cons]
    exact ⟨hquorum, hmembers, List.forall_mem_nil _⟩
  · rintro ⟨⟨htype, hslots⟩, rfl⟩
    cases details with
    | signerListSet d =>
      simp only [Details.slots, List.forall_mem_cons] at hslots
      obtain ⟨hquorum, hmembers, -⟩ := hslots
      exact ⟨_, hquorum, _, hmembers, rfl,
        Object.without_congr (by decide) (by decide)⟩
    | _ => cases htype

/-- The details of a trust line are taken where they fill its slots, the limit as an issued amount.
-/
theorem takesDetails_trustSet (h : Value.RegularFields object.fields) :
    TakesDetails object .trustSet := by
  intro details rest
  simp (disch := decide) only [takeDetails, Taking.bind_requiredScalar h IsKind.amount.isView]
  constructor
  · rintro ⟨limit, hlimit, hnext⟩
    -- only an issued limit lets the qualities be taken
    cases limit with
    | xrp xrp => exact absurd hnext Taking.not_gives_throw
    | issued issued =>
      simp (disch := decide) only [Taking.bind_scalar h IsKind.uint32.isView,
        Taking.gives_pure_iff] at hnext
      obtain ⟨_, hin, _, hout, rfl, rfl⟩ := hnext
      refine ⟨⟨rfl, ?_⟩, Object.without_congr (by decide) (by decide)⟩
      simp only [Details.slots, List.forall_mem_cons]
      exact ⟨hin, hout, hlimit, List.forall_mem_nil _⟩
  · rintro ⟨⟨htype, hslots⟩, rfl⟩
    cases details with
    | trustSet d =>
      simp only [Details.slots, List.forall_mem_cons] at hslots
      obtain ⟨hin, hout, hlimit, -⟩ := hslots
      refine ⟨.issued d.limitAmount, hlimit, ?_⟩
      simp (disch := decide) only [Taking.bind_scalar h IsKind.uint32.isView,
        Taking.gives_pure_iff]
      exact ⟨_, hin, _, hout, rfl,
        Object.without_congr (by decide) (by decide)⟩
    | _ => cases htype

/-- The details of deleting an account are taken where they fill their slots. -/
theorem takesDetails_accountDelete (h : Value.RegularFields object.fields) :
    TakesDetails object .accountDelete := by
  intro details rest
  simp (disch := decide) only [takeDetails, Taking.bind_requiredScalar h IsKind.account.isView,
    Taking.bind_scalar h IsKind.uint32.isView,
    Taking.gives_pure_iff]
  constructor
  · rintro ⟨_, hdestination, _, htag, rfl, rfl⟩
    refine ⟨⟨rfl, ?_⟩, Object.without_congr (by decide) (by decide)⟩
    simp only [Details.slots, List.forall_mem_cons]
    exact ⟨htag, hdestination, List.forall_mem_nil _⟩
  · rintro ⟨⟨htype, hslots⟩, rfl⟩
    cases details with
    | accountDelete d =>
      simp only [Details.slots, List.forall_mem_cons] at hslots
      obtain ⟨htag, hdestination, -⟩ := hslots
      exact ⟨_, hdestination, _, htag, rfl,
        Object.without_congr (by decide) (by decide)⟩
    | _ => cases htype

/-- The details of every type are taken exactly if all their slots are filled. -/
theorem takesDetails (h : Value.RegularFields object.fields) (type : TransactionType) :
    TakesDetails object type := by
  cases type with
  | payment => exact takesDetails_payment h
  | accountSet => exact takesDetails_accountSet h
  | setRegularKey => exact takesDetails_setRegularKey h
  | offerCreate => exact takesDetails_offerCreate h
  | offerCancel => exact takesDetails_offerCancel h
  | signerListSet => exact takesDetails_signerListSet h
  | trustSet => exact takesDetails_trustSet h
  | accountDelete => exact takesDetails_accountDelete h

/-! ## Whole transactions -/

/-- An object in order is read as a transaction exactly if it fills the slots of the transaction and
has no field that the layout of the type does not name. -/
theorem ofObject_eq_ok_iff {tx : Transaction} (h : Value.RegularFields object.fields) :
    ofObject object = .ok tx ↔
      (∃ sequence fee, tx.common.sequence = some sequence ∧ tx.common.fee = some fee ∧
        ∀ slot ∈ tx.slots sequence fee false, object.Fills slot) ∧
        object.HasOnly tx.type.layout := by
  unfold ofObject takeTransaction
  rw [Taking.runOn_eq_ok_iff]
  simp (disch := decide) only [Taking.bind_requiredScalar h IsKind.uint16.isView]
  constructor
  -- first the type is taken, then the common part, the details and the end
  · rintro ⟨_, code, hcode, hall⟩
    obtain ⟨type, _, hlift, hnext⟩ := Taking.gives_bind_iff.mp hall
    obtain ⟨htype, rfl⟩ := Taking.gives_liftExcept_iff.mp hlift
    obtain rfl := TransactionType.ofCode_eq_ok_iff.mp htype
    obtain ⟨common, ⟨sequence, fee, hsequence, hfee, hcommon⟩, hbehind⟩ :=
      (Taking.bind_of_gives_iff fun _ _ => gives_takeCommon_iff h hcode).mp hnext
    obtain ⟨details, ⟨rfl, hdetails⟩, hfinish⟩ :=
      (Taking.bind_of_gives_iff (takesDetails h type)).mp hbehind
    obtain ⟨honly, hreturn⟩ := Taking.bind_finish.mp hfinish
    obtain ⟨rfl, -⟩ := Taking.gives_pure_iff.mp hreturn
    refine ⟨⟨sequence, fee, hsequence, hfee, fun slot hslot => ?_⟩, honly⟩
    exact (List.mem_append.mp hslot).elim (hcommon slot) (hdetails slot)
  · rintro ⟨⟨sequence, fee, hsequence, hfee, hslots⟩, honly⟩
    have hcommon : ∀ slot ∈ tx.common.slots tx.type sequence fee false, object.Fills slot :=
      fun slot hslot => hslots slot (List.mem_append_left _ hslot)
    have hdetails : ∀ slot ∈ tx.details.slots, object.Fills slot :=
      fun slot hslot => hslots slot (List.mem_append_right _ hslot)
    have hcode : object.Fills (.always .transactionType (.uint16 tx.type.code)) :=
      hcommon _ List.mem_cons_self
    refine ⟨object.without tx.type.layout, tx.type.code, hcode, ?_⟩
    refine Taking.gives_bind_iff.mpr ⟨tx.type, _,
      Taking.gives_liftExcept_iff.mpr ⟨TransactionType.ofCode_eq_ok_iff.mpr rfl, rfl⟩, ?_⟩
    refine (Taking.bind_of_gives_iff fun _ _ => gives_takeCommon_iff h hcode).mpr
      ⟨tx.common, ⟨sequence, fee, hsequence, hfee, hcommon⟩, ?_⟩
    refine (Taking.bind_of_gives_iff (takesDetails h tx.type)).mpr
      ⟨tx.details, ⟨rfl, hdetails⟩, ?_⟩
    exact Taking.bind_finish.mpr ⟨honly, Taking.gives_pure_iff.mpr ⟨rfl, rfl⟩⟩

end Transaction

end XrpLedger

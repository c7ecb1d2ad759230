import XrpLedger.Proofs.Object.Slot
import XrpLedger.Proofs.Outcome

/-!
# Taking fields

A computation that takes fields out of an object sees, at every step, the object without the fields
that it has taken already. So each step says something about the object as it was: that it fills the
slot of the taken field. The lemmas named `bind_` say this for a step with a computation behind it,
and a schema is read off by applying them one after the other.
-/

set_option autoImplicit false

namespace XrpLedger

namespace Object

/-- The object without some fields. -/
def without (object : Object) (taken : List FieldId) : Object :=
  ⟨object.fields.filter fun entry => entry.1 ∉ taken⟩

variable {object : Object} {field : FieldId} {taken : List FieldId}

/-- An object of which nothing was taken is the object. -/
theorem without_nil : object.without [] = object := by
  simp [without]

/-- What is left depends on which fields are taken, not on their order. -/
theorem without_congr {taken' : List FieldId} (h : taken ⊆ taken') (h' : taken' ⊆ taken) :
    object.without taken = object.without taken' := by
  have hmem : ∀ field, field ∈ taken ↔ field ∈ taken' := fun _ => ⟨fun hf => h hf, fun hf => h' hf⟩
  simp only [without, hmem]

/-- Taking some fields changes nothing about the others. -/
theorem get?_without (h : field ∉ taken) : (object.without taken).get? field = object.get? field := by
  simp only [get?, without, List.find?_filter]
  congr 2
  funext entry
  by_cases heq : entry.1 = field
  · simp [heq, h]
  · simp [heq]

/-- Of an object without repeated fields, taking a field leaves all the others. -/
theorem erase_without (h : (object.fields.map (·.1)).Nodup) :
    (object.without taken).erase field = object.without (field :: taken) := by
  have hnodup : ((object.without taken).fields.map (·.1)).Nodup :=
    h.sublist (List.filter_sublist.map _)
  have herase : ∀ fields : List (FieldId × Value), (fields.map (·.1)).Nodup →
      fields.eraseP (fun entry => entry.1 = field) = fields.filter fun entry => entry.1 ≠ field := by
    intro fields hfields
    induction fields with
    | nil => rfl
    | cons entry rest ih =>
      obtain ⟨hentry, hrest⟩ := List.nodup_cons.mp hfields
      by_cases heq : entry.1 = field
      · have hkeep : rest.filter (fun other => other.1 ≠ field) = rest := by
          refine List.filter_eq_self.mpr fun other hother => ?_
          simp only [ne_eq, decide_not, Bool.not_eq_eq_eq_not, Bool.not_true, decide_eq_false_iff_not]
          rintro hfield
          exact hentry (List.mem_map.mpr ⟨other, hother, hfield.trans heq.symm⟩)
        rw [List.eraseP_cons_of_pos (by simpa using heq), List.filter_cons_of_neg (by simpa using heq),
          hkeep]
      · rw [List.eraseP_cons_of_neg (by simpa using heq), List.filter_cons_of_pos (by simpa using heq),
          ih hrest]
  rw [erase, herase _ hnodup]
  simp only [without, List.filter_filter, List.mem_cons, not_or, Bool.decide_and]

end Object

namespace Scalar

variable {α : Type}

/-- Whether a view sees exactly the scalars of one kind, those that `wrap` makes. -/
def IsView (view : Scalar → Option α) (wrap : α → Scalar) : Prop :=
  ∀ s a, view s = some a ↔ wrap a = s

/-- The view of a kind sees exactly the scalars that its constructor makes. -/
theorem IsKind.isView {view : Scalar → Option α} {wrap : α → Scalar} {type : TypeCode}
    (h : IsKind view wrap type) : IsView view wrap := by
  cases h <;> rintro ⟨⟩ <;>
    simp [uint8?, uint16?, uint32?, uint64?, hash128?, hash160?, hash256?, amount?, blob?, account?,
      vector256?, eq_comm]

end Scalar

namespace Taking

variable {α β : Type} {object rest : Object} {field : FieldId} {taken : List FieldId}

/-- The outcome of a computation, with what it leaves of the object. -/
def outcome (taking : Taking α) (object : Object) : Except CodecError α × Object :=
  taking.run object

/-- Whether a computation has this result, and what it leaves of the object. -/
def Gives (taking : Taking α) (object : Object) (a : α) (rest : Object) : Prop :=
  taking.outcome object = (.ok a, rest)

/-! ## Combinations of computations -/

/-- A computation goes on with the object that the one before it leaves, unless that one fails. -/
theorem outcome_bind (first : Taking α) (next : α → Taking β) (object : Object) :
    (first >>= next).outcome object =
      match first.outcome object with
      | (.ok a, middle) => (next a).outcome middle
      | (.error e, middle) => (.error e, middle) := by
  change ExceptT.bindCont next (first.outcome object).1 (first.outcome object).2 = _
  rcases first.outcome object with ⟨_ | _, _⟩ <;> rfl

/-- A computation succeeds behind another exactly if both do. -/
theorem gives_bind_iff {first : Taking α} {next : α → Taking β} {b : β} :
    (first >>= next).Gives object b rest ↔
      ∃ a middle, first.Gives object a middle ∧ (next a).Gives middle b rest := by
  simp only [Gives, outcome_bind]
  rcases first.outcome object with ⟨_ | a, middle⟩
  · simp
  · simp

/-- What is known of a step is known of it before what follows. -/
theorem bind_of_gives_iff {first : Taking α} {next : α → Taking β} {b : β} {spec : α → Prop}
    {taken' : List FieldId}
    (h : ∀ a rest, first.Gives (object.without taken) a rest ↔
      spec a ∧ object.without taken' = rest) :
    (first >>= next).Gives (object.without taken) b rest ↔
      ∃ a, spec a ∧ (next a).Gives (object.without taken') b rest := by
  simp only [gives_bind_iff, h]
  constructor
  · rintro ⟨a, _, ⟨hspec, rfl⟩, hnext⟩
    exact ⟨a, hspec, hnext⟩
  · rintro ⟨a, hspec, hnext⟩
    exact ⟨a, _, ⟨hspec, rfl⟩, hnext⟩

/-- A computation that takes nothing gives its value and leaves the object. -/
theorem gives_pure_iff {a b : α} : (pure a : Taking α).Gives object b rest ↔ a = b ∧ object = rest := by
  have hpure : (pure a : Taking α).outcome object = (.ok a, object) := rfl
  rw [Gives, hpure, Prod.mk.injEq, Except.ok.injEq]

/-- A computation that throws gives nothing. -/
theorem not_gives_throw {e : CodecError} {a : α} : ¬(throw e : Taking α).Gives object a rest := by
  have hthrow : (throw e : Taking α).outcome object = (.error e, object) := rfl
  rw [Gives, hthrow]
  simp

/-- A lifted result is given without taking anything. -/
theorem gives_liftExcept_iff {x : Except CodecError α} {a : α} :
    (liftExcept x : Taking α).Gives object a rest ↔ x = .ok a ∧ object = rest := by
  cases x with
  | error e => exact iff_of_false not_gives_throw nofun
  | ok b =>
    rw [Except.ok.injEq]
    exact gives_pure_iff

/-- The result of a computation that starts with the whole object, what is left aside. -/
theorem runOn_eq_ok_iff {t : Taking α} {a : α} :
    runOn object t = .ok a ↔ ∃ rest, t.Gives (object.without []) a rest := by
  have hrun : runOn object t = (t.outcome object).1 := rfl
  simp only [hrun, Gives, Object.without_nil]
  rcases t.outcome object with ⟨x, middle⟩
  simp

/-! ## Single fields -/

/-- A value is taken, or a missing one, and the field with it. -/
theorem gives_value_iff {found : Option Value} (h : (object.fields.map (·.1)).Nodup)
    (hfield : field ∉ taken) :
    (value field).Gives (object.without taken) found rest ↔
      object.get? field = found ∧ object.without (field :: taken) = rest := by
  have hrun : (value field).outcome (object.without taken)
      = (.ok ((object.without taken).get? field), (object.without taken).erase field) := rfl
  rw [Gives, hrun, Object.get?_without hfield, Object.erase_without h, Prod.mk.injEq,
    Except.ok.injEq]

/-- A value of the right kind is taken, or a missing one, and the field with it. -/
theorem gives_viewed_iff {view : Value → Option α} {a : Option α}
    (h : (object.fields.map (·.1)).Nodup) (hfield : field ∉ taken) :
    (viewed view field).Gives (object.without taken) a rest ↔
      ((object.get? field = none ∧ a = none) ∨
        ∃ found b, object.get? field = some found ∧ view found = some b ∧ a = some b) ∧
        object.without (field :: taken) = rest := by
  unfold viewed
  rw [bind_of_gives_iff fun _ _ => gives_value_iff h hfield]
  cases object.get? field with
  | none => simp [gives_pure_iff, eq_comm]
  | some found =>
    cases hview : view found with
    | none => simp [not_gives_throw, hview]
    | some b => simp [gives_pure_iff, hview, eq_comm]

variable {view : Scalar → Option α} {wrap : α → Scalar}

/-- A scalar is taken, or a missing one, exactly if it fills its slot. -/
theorem gives_scalar_iff {a : Option α} (h : Value.RegularFields object.fields)
    (hview : Scalar.IsView view wrap) (hfield : field ∉ taken) (htype : field.typeCode ≠ .array) :
    (scalar view field).Gives (object.without taken) a rest ↔
      object.Fills (.optional field wrap a) ∧ object.without (field :: taken) = rest := by
  have hsees : ∀ found b, found.scalar?.bind view = some b ↔ Value.scalar (wrap b) = found := by
    intro found b
    cases found with
    | scalar s => simpa [Value.scalar?] using hview s b
    | object fields => simp [Value.scalar?]
    | array entries => simp [Value.scalar?]
  rw [scalar, gives_viewed_iff h.ascend.nodup hfield, Object.fills_optional_iff h htype]
  simp only [hsees]
  cases a with
  | none => simp
  | some a => simp [eq_comm]

/-- A scalar that must be there is taken exactly if it fills its slot. -/
theorem gives_requiredScalar_iff {a : α} (h : Value.RegularFields object.fields)
    (hview : Scalar.IsView view wrap) (hfield : field ∉ taken) (htype : field.typeCode ≠ .array) :
    (requiredScalar view field).Gives (object.without taken) a rest ↔
      object.Fills (.always field (wrap a)) ∧ object.without (field :: taken) = rest := by
  have hrequired : ∀ found : Option α, required field found = .ok a ↔ found = some a := by
    intro found
    cases found <;> simp [required]
  simp only [requiredScalar, gives_bind_iff, gives_scalar_iff h hview hfield htype,
    gives_liftExcept_iff, hrequired]
  constructor
  · rintro ⟨_, _, ⟨hfills, rfl⟩, rfl, rfl⟩
    exact ⟨hfills, rfl⟩
  · rintro ⟨hfills, rfl⟩
    exact ⟨some a, _, ⟨hfills, rfl⟩, rfl, rfl⟩

/-- All fields are taken exactly if no other field occurs. -/
theorem gives_finish_iff {context : String} :
    (finish context).Gives (object.without taken) () rest ↔
      object.HasOnly taken ∧ object.without taken = rest := by
  have hfinish : ∀ left : Object, left.finish context = .ok () ↔ left.fields = [] := by
    rintro ⟨_ | ⟨_, _⟩⟩ <;> simp [Object.finish]
  have hleft : (object.without taken).fields = [] ↔ object.HasOnly taken := by
    simp [Object.without, Object.HasOnly, List.filter_eq_nil_iff]
  have hget : ∀ left middle, (get : Taking Object).Gives (object.without taken) left middle ↔
      object.without taken = left ∧ object.without taken = middle := by
    intro left middle
    have hrun : (get : Taking Object).outcome (object.without taken)
        = (.ok (object.without taken), object.without taken) := rfl
    rw [Gives, hrun, Prod.mk.injEq, Except.ok.injEq]
  simp only [finish, gives_bind_iff, gives_liftExcept_iff, hfinish, hget]
  constructor
  · rintro ⟨_, _, ⟨rfl, rfl⟩, hnone, rfl⟩
    exact ⟨hleft.mp hnone, rfl⟩
  · rintro ⟨hall, rfl⟩
    exact ⟨_, _, ⟨rfl, rfl⟩, hleft.mpr hall, rfl⟩

/-! ## Fields before more fields -/

/-- Before more steps, an optional scalar is taken that fills its slot. -/
theorem bind_scalar {next : Option α → Taking β} {b : β} (h : Value.RegularFields object.fields)
    (hview : Scalar.IsView view wrap) (hfield : field ∉ taken) (htype : field.typeCode ≠ .array) :
    (scalar view field >>= next).Gives (object.without taken) b rest ↔
      ∃ a, object.Fills (.optional field wrap a) ∧
        (next a).Gives (object.without (field :: taken)) b rest :=
  bind_of_gives_iff fun _ _ => gives_scalar_iff h hview hfield htype

/-- Before more steps, a scalar that must be there is taken if it fills its slot. -/
theorem bind_requiredScalar {next : α → Taking β} {b : β} (h : Value.RegularFields object.fields)
    (hview : Scalar.IsView view wrap) (hfield : field ∉ taken) (htype : field.typeCode ≠ .array) :
    (requiredScalar view field >>= next).Gives (object.without taken) b rest ↔
      ∃ a, object.Fills (.always field (wrap a)) ∧
        (next a).Gives (object.without (field :: taken)) b rest :=
  bind_of_gives_iff fun _ _ => gives_requiredScalar_iff h hview hfield htype

/-- Before more steps, the end of the fields is reached if no other field occurs. -/
theorem bind_finish {context : String} {next : Unit → Taking β} {b : β} :
    (finish context >>= next).Gives (object.without taken) b rest ↔
      object.HasOnly taken ∧ (next ()).Gives (object.without taken) b rest := by
  refine (bind_of_gives_iff fun _ _ => gives_finish_iff).trans ?_
  exact ⟨fun ⟨_, hall, hnext⟩ => ⟨hall, hnext⟩, fun ⟨hall, hnext⟩ => ⟨(), hall, hnext⟩⟩

end Taking

end XrpLedger

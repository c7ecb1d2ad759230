import Mathlib.Data.List.Infix
import XrpLedger.Proofs.Object.Canonical
import XrpLedger.Proofs.Object.Draft

/-!
# Writing call by call

A caller may go on after a call that failed. Since such a call leaves the writer as it was, what the
writer holds is described by the calls that succeeded alone: their draft describes the writer after
every call (`Draft.Describes`), because the calls of the draft lead to the same writer. Once every
container is closed these are the calls of an object, so that the bytes are those of the object.
-/

set_option autoImplicit false

namespace XrpLedger

namespace Writer

/-- The field that a call is about, unless it closes a container. -/
def Call.field? : Call → Option FieldId
  | .scalar field _ | .startObject field | .startArray field => some field
  | .endObject | .endArray => none

/-- The writer after calls, when those that fail are skipped over. -/
def attempt (writer : Writer) (calls : List Call) : Writer :=
  calls.foldl (fun writer call => (writer.step call).2) writer

/-- The calls that succeed, when those that fail are skipped over. -/
def successful (writer : Writer) : List Call → List Call
  | [] => []
  | call :: rest =>
    match writer.step call with
    | (.ok (), writer) => call :: writer.successful rest
    | (.error _, writer) => writer.successful rest

variable {w w' : Writer} {field : FieldId}

/-- The kinds and the fields of the open containers, the innermost first. -/
def heads (writer : Writer) : List (Container × FieldId) :=
  writer.opened.map fun frame => (frame.container, frame.field)

/-- Noting the last field leaves the open containers as they are. -/
theorem heads_markLast (w : Writer) (field : FieldId) : (w.markLast field).heads = w.heads := by
  unfold heads markLast
  cases w.opened <;> rfl

/-- A container ends exactly if the innermost one is of its kind. -/
theorem close_eq_ok_iff {container : Container} {marker : FieldId} :
    w.close container marker = .ok w' ↔
      ∃ frame rest, w.opened = frame :: rest ∧ frame.container = container ∧
        { w with opened := rest }.append marker.header = w' := by
  unfold close
  cases w.opened with
  | nil => simp
  | cons frame rest =>
    by_cases hkind : frame.container = container
    · simp [hkind]
    · simp [hkind]

/-- Calls that all succeed lead to the writer at which the others go on. -/
theorem carryOut_append (w : Writer) {calls : List Call} (h : w.carryOut calls = (none, w'))
    (more : List Call) : w.carryOut (calls ++ more) = w'.carryOut more := by
  induction calls generalizing w with
  | nil =>
    cases h
    rfl
  | cons call rest ih =>
    rw [carryOut_cons] at h
    rw [List.cons_append, carryOut_cons]
    cases hcall : w.apply call with
    | error e =>
      rw [hcall] at h
      cases h
    | ok next =>
      rw [hcall] at h
      exact ih next h

end Writer

namespace Draft

variable {d : Draft} {w w' : Writer} {call : Writer.Call} {field : FieldId} {value : Value}

/-- The kinds and the fields of the open containers, the innermost first. -/
def heads (draft : Draft) : List (Container × FieldId) :=
  draft.opened.map fun container => (container.container, container.field)

/-- A value that is put at the end leaves the open containers as they are. -/
theorem heads_put (d : Draft) (field : FieldId) (value : Value) :
    (d.put field value).heads = d.heads := by
  obtain ⟨fields, opened⟩ := d
  cases opened with
  | nil => rfl
  | cons container rest =>
    cases container with
    | object outer inner => rfl
    | array outer entries => cases value <;> rfl

/-- Whether a draft is what a writer has written: its calls lead to the writer, and the same
containers are open. -/
structure Describes (draft : Draft) (writer : Writer) : Prop where
  replays : Writer.empty.carryOut draft.calls = (none, writer)
  heads_eq : writer.heads = draft.heads
  sound : draft.Sound

/-- A writer whose draft is inside an array is inside one. -/
theorem Describes.inArray (h : d.Describes w) {container : OpenContainer}
    (hhead : container ∈ d.opened.head?) (harray : container.container = .array) : w.InArray := by
  have hheads := h.heads_eq
  unfold Writer.heads heads at hheads
  cases hd : d.opened with
  | nil =>
    rw [hd] at hhead
    cases hhead
  | cons first rest =>
    rw [hd] at hhead hheads
    cases hhead
    cases hw : w.opened with
    | nil =>
      rw [hw] at hheads
      cases hheads
    | cons frame frames =>
      rw [hw] at hheads
      have hkind : frame.container = container.container :=
        congrArg Prod.fst (List.cons.inj hheads).1
      exact ⟨frame, by rw [hw]; rfl, hkind.trans harray⟩

/-- The innermost container of a draft is that of its writer. -/
theorem Describes.exists_innermost (h : d.Describes w) {frame : Frame} {frames : List Frame}
    (hw : w.opened = frame :: frames) :
    ∃ container rest, d.opened = container :: rest ∧ container.container = frame.container ∧
      frames.map (fun frame => (frame.container, frame.field))
        = rest.map fun container => (container.container, container.field) := by
  have hheads := h.heads_eq
  unfold Writer.heads heads at hheads
  rw [hw] at hheads
  cases hd : d.opened with
  | nil =>
    rw [hd] at hheads
    cases hheads
  | cons container rest =>
    rw [hd] at hheads
    obtain ⟨hfirst, hrest⟩ := List.cons.inj hheads
    exact ⟨container, rest, rfl, (congrArg Prod.fst hfirst).symm, hrest⟩

/-- A draft that goes on with a call describes the writer after it. -/
theorem Describes.of_calls (h : d.Describes w) {next : Draft} (hcall : w.apply call = .ok w')
    (hcalls : next.calls = d.calls ++ [call]) (hheads : w'.heads = next.heads)
    (hsound : next.Sound) : next.Describes w' := by
  refine ⟨?_, hheads, hsound⟩
  rw [hcalls, Writer.carryOut_append _ h.replays, Writer.carryOut_cons, hcall]
  rfl

/-- A scalar that the writer takes is put at the end of its draft. -/
theorem Describes.scalar {s : Scalar} (h : d.Describes w)
    (hcall : w.apply (.scalar field s) = .ok w') (hfield : field.IsProper)
    (hdepth : w'.opened.length ≤ Reader.depthLimit) :
    (d.extend (.scalar field s)).Describes w' := by
  have hcall' := hcall
  simp only [Writer.apply, bind_eq_ok_iff, pure_eq_ok_iff, Writer.beginField_eq_ok_iff] at hcall
  obtain ⟨payload, -, _, ⟨⟨-, hplace⟩, rfl⟩, rfl⟩ := hcall
  have hheads : (((w.markLast field).append field.header).append payload).heads = w.heads :=
    w.heads_markLast field
  have hlength : d.opened.length ≤ Reader.depthLimit := by
    have hcount := congrArg List.length (hheads.trans h.heads_eq)
    simp only [Writer.heads, heads, List.length_map] at hcount
    omega
  have htakes : d.Takes (.scalar s) := by
    intro container hhead harray
    -- in an array the writer takes objects only, and no scalar has their type
    have htype := (Writer.checkPlace_of_inArray (h.inArray hhead harray) s.typeCode).mp hplace
    cases s <;> cases htype
  refine h.of_calls hcall' (calls_put htakes) ?_ (h.sound.put hfield trivial ?_)
  · rw [hheads, h.heads_eq]
    exact (d.heads_put field _).symm
  · rw [Value.depth]
    omega

/-- A container that the writer starts is opened in its draft. -/
theorem Describes.start {kind : Container} (h : d.Describes w) (container : OpenContainer)
    (hcall : w.apply call = .ok w') (hstart : w.start kind field = .ok w')
    (hkind : container.container = kind) (hname : container.field = field)
    (hcalls : container.calls = [call]) (hproper : container.Proper)
    (hempty : container.depth = 0) (hdepth : w'.opened.length ≤ Reader.depthLimit) :
    (Draft.mk d.fields (container :: d.opened)).Describes w' := by
  obtain ⟨⟨-, hplace⟩, rfl⟩ := Writer.start_eq_ok_iff.mp hstart
  have hheads : (((w.markLast field).append field.header).enter kind field).heads
      = (Draft.mk d.fields (container :: d.opened)).heads := by
    have houter := (w.heads_markLast field).trans h.heads_eq
    show (kind, field) :: (w.markLast field).heads = (container.container, container.field) :: _
    rw [houter, hkind, hname]
    rfl
  have hlength : d.opened.length + 1 ≤ Reader.depthLimit := by
    have hcount := congrArg List.length hheads
    simp only [Writer.heads, heads, List.length_map, List.length_cons] at hcount
    omega
  refine h.of_calls hcall ?_ hheads ⟨h.sound.proper, h.sound.depth_le, hproper, ?_, ?_,
    h.sound.readable⟩
  · rw [calls, openedCalls_cons, hcalls, ← List.append_assoc]
    rfl
  · omega
  · intro outer houter harray hinner
    -- an array in an array would have been refused by the writer
    have htype := (Writer.checkPlace_of_inArray (h.inArray houter hinner) kind.typeCode).mp hplace
    rw [← hkind, harray] at htype
    cases htype

/-- A container that the writer closes is put, as a value, where its draft opened it. -/
theorem Describes.close {kind : Container} {marker : FieldId} {container : OpenContainer}
    {rest : List OpenContainer} (h : d.Describes w) (hcall : w.apply call = .ok w')
    (hclose : w.close kind marker = .ok w') (hopened : d.opened = container :: rest)
    (hcalls : Value.calls container.field value = container.calls ++ [call])
    (htakes : (Draft.mk d.fields rest).Takes value) (hvalue : container.Proper → value.Proper)
    (hdepth : value.depth = 1 + container.depth) :
    ((Draft.mk d.fields rest).put container.field value).Describes w' := by
  obtain ⟨frame, frames, hw, -, rfl⟩ := Writer.close_eq_ok_iff.mp hclose
  obtain ⟨first, others, hfirst, -, hheads⟩ := h.exists_innermost hw
  obtain ⟨rfl, rfl⟩ := List.cons.inj (hopened.symm.trans hfirst)
  have hsound : Draft.Sound ⟨d.fields, container :: rest⟩ := by
    rw [← hopened]
    exact h.sound
  refine h.of_calls hcall ?_ ?_ (hsound.close hvalue hdepth)
  · rw [calls_put htakes, hcalls, calls, calls, hopened, openedCalls_cons]
    simp only [List.append_assoc]
  · rw [heads_put]
    exact hheads

/-- A call that succeeds extends the draft as it changes the writer. -/
theorem Describes.extend (h : d.Describes w) (hcall : w.apply call = .ok w')
    (hproper : ∀ field ∈ call.field?, field.IsProper)
    (hdepth : w'.opened.length ≤ Reader.depthLimit) : (d.extend call).Describes w' := by
  cases call with
  | scalar field s => exact h.scalar hcall (hproper field rfl) hdepth
  | startObject field =>
    exact h.start (.object field []) hcall hcall rfl rfl rfl
      ⟨hproper field rfl, trivial⟩ rfl hdepth
  | startArray field =>
    exact h.start (.array field []) hcall hcall rfl rfl rfl
      ⟨hproper field rfl, trivial⟩ rfl hdepth
  | endObject =>
    obtain ⟨frame, frames, hw, hkind, -⟩ := Writer.close_eq_ok_iff.mp hcall
    obtain ⟨container, rest, hopened, hsame, -⟩ := h.exists_innermost hw
    rw [hkind] at hsame
    cases container with
    | array field entries => cases hsame
    | object field fields =>
      rw [Draft.extend, hopened]
      exact h.close hcall hcall hopened rfl (fun _ _ _ => ⟨fields, rfl⟩) And.right rfl
  | endArray =>
    obtain ⟨frame, frames, hw, hkind, -⟩ := Writer.close_eq_ok_iff.mp hcall
    obtain ⟨container, rest, hopened, hsame, -⟩ := h.exists_innermost hw
    rw [hkind] at hsame
    cases container with
    | object field fields => cases hsame
    | array field entries =>
      -- a draft does not put an array in an array: soundness says that none is open there
      have hreadable := h.sound.readable
      rw [hopened] at hreadable
      have houter := hreadable.2.2.1
      rw [Draft.extend, hopened]
      exact h.close hcall hcall hopened rfl
        (fun outer hhead harray => absurd harray (houter outer hhead rfl)) And.right rfl

/-- The empty draft describes the writer that has written nothing. -/
theorem describes_empty : Draft.empty.Describes Writer.empty :=
  ⟨rfl, rfl, trivial, Nat.zero_le _, trivial⟩

/-- After any calls, those that failed skipped over, the draft of the successful ones describes the
writer. -/
theorem Describes.attempt (h : d.Describes w) (calls : List Writer.Call)
    (hproper : ∀ call ∈ calls, ∀ field ∈ call.field?, field.IsProper)
    (hdepth : ∀ earlier, earlier <+: calls →
      (w.attempt earlier).opened.length ≤ Reader.depthLimit) :
    ((w.successful calls).foldl Draft.extend d).Describes (w.attempt calls) := by
  -- draft and writer go on together; a call that fails leaves both as they are
  induction calls generalizing d w with
  | nil => exact h
  | cons call rest ih =>
    have hrest : ∀ later ∈ rest, ∀ field ∈ later.field?, field.IsProper :=
      fun later hlater => hproper later (List.mem_cons_of_mem _ hlater)
    have hstep := w.step_eq call
    have hdepths : ∀ earlier, earlier <+: rest →
        ((w.step call).2.attempt earlier).opened.length ≤ Reader.depthLimit :=
      fun earlier hearlier => hdepth (call :: earlier) ((List.prefix_cons_inj call).mpr hearlier)
    have hone := hdepth [call] (List.prefix_append [call] rest)
    rw [Writer.successful]
    show (List.foldl Draft.extend d _).Describes ((w.step call).2.attempt rest)
    cases hcall : w.apply call with
    | error e =>
      rw [hcall] at hstep
      rw [hstep] at hdepths ⊢
      exact ih h hrest hdepths
    | ok next =>
      rw [hcall] at hstep
      have hnext : next.opened.length ≤ Reader.depthLimit := by
        have hafter : (w.step call).2 = next := congrArg Prod.snd hstep
        rw [← hafter]
        exact hone
      rw [hstep] at hdepths ⊢
      exact ih (h.extend hcall (hproper call List.mem_cons_self) hnext) hrest hdepths

/-- A draft without open containers that describes a writer is the object that its bytes hold. -/
theorem Describes.ofBytes {bytes : Bytes} (h : d.Describes w) (hfinish : w.finish = .ok bytes) :
    Object.ofBytes bytes = .ok ⟨d.fields⟩ := by
  have hw : w.opened = [] := by
    unfold Writer.finish at hfinish
    cases hopened : w.opened with
    | nil => rfl
    | cons frame frames =>
      rw [hopened] at hfinish
      cases hfinish
  have hd : d.opened = [] := by
    have hheads := h.heads_eq
    unfold Writer.heads heads at hheads
    rw [hw] at hheads
    exact List.map_eq_nil_iff.mp hheads.symm
  have hcalls : d.calls = Value.fieldCalls d.fields := by
    rw [calls, hd]
    exact List.append_nil _
  -- the calls of the draft are now those of an object, and writing is undone by reading
  have hwritten : (Object.mk d.fields).toBytes = .ok bytes := by
    unfold Object.toBytes
    rw [← hcalls, h.replays]
    exact hfinish
  obtain ⟨hregular, hbytes⟩ := Object.toBytes_eq_ok_iff.mp hwritten
  exact Object.ofBytes_eq_ok_iff.mpr
    ⟨⟨hregular, h.sound.proper, h.sound.depth_le⟩, hbytes⟩

end Draft

namespace Writer

/-- A failing call leaves the writer as it was. -/
theorem step_of_error {w : Writer} {call : Call} {e : CodecError}
    (h : (w.step call).1 = .error e) : (w.step call).2 = w := by
  rw [step_eq] at h ⊢
  cases hcall : w.apply call with
  | error e => rfl
  | ok next =>
    rw [hcall] at h
    cases h

/-- The bytes are given exactly when no container is open. -/
theorem finish_isOk_iff {w : Writer} : (∃ bytes, w.finish = .ok bytes) ↔ w.opened = [] := by
  unfold finish
  cases w.opened with
  | nil => simp
  | cons frame frames => simp

/-- Let calls be about proper fields and open no more containers than a reader goes through, and let
the caller skip over those that fail. A failing call changes nothing. The containers left open are
those that the successful calls leave open; the writer finishes exactly if there are none; and then
its bytes are read as the object that the successful calls describe. -/
theorem ofBytes_of_finish_attempt (calls : List Call)
    (hproper : ∀ call ∈ calls, ∀ field ∈ call.field?, field.IsProper)
    (hdepth : ∀ earlier, earlier <+: calls →
      (empty.attempt earlier).opened.length ≤ Reader.depthLimit) :
    (∀ (w : Writer) (call : Call) (e : CodecError),
      (w.step call).1 = .error e → (w.step call).2 = w) ∧
    (empty.attempt calls).heads = (Draft.ofCalls (empty.successful calls)).heads ∧
    ((∃ bytes, (empty.attempt calls).finish = .ok bytes) ↔ (empty.attempt calls).opened = []) ∧
    ∀ bytes, (empty.attempt calls).finish = .ok bytes →
      Object.ofBytes bytes = .ok ⟨(Draft.ofCalls (empty.successful calls)).fields⟩ := by
  have hdescribes := Draft.describes_empty.attempt calls hproper hdepth
  refine ⟨fun _ _ _ => step_of_error, hdescribes.heads_eq, finish_isOk_iff, ?_⟩
  intro bytes hfinish
  exact hdescribes.ofBytes hfinish

/-- A number and a list with one memo, written by a caller who tries a field out of order, a number
in the list and the end of the list inside the memo. -/
def interruptedCalls : List Call := [
  .scalar .sequence (.uint32 1), .scalar .flags (.uint32 0), .startArray .memos,
  .scalar .sequence (.uint32 2), .startObject .memo, .endArray, .scalar .memoData (.blob [0xAB]),
  .endObject, .endArray]

/-- The calls that fail leave no trace in what is read. -/
theorem ofBytes_of_finish_attempt_interrupted :
    (empty.attempt interruptedCalls).finish
        = .ok [0x24, 0, 0, 0, 1, 0xF9, 0xEA, 0x7D, 1, 0xAB, 0xE1, 0xF1] ∧
      Object.ofBytes [0x24, 0, 0, 0, 1, 0xF9, 0xEA, 0x7D, 1, 0xAB, 0xE1, 0xF1]
        = .ok ⟨[(.sequence, .scalar (.uint32 1)),
          (.memos, .array [(.memo, [(.memoData, .scalar (.blob [0xAB]))])])]⟩ := by
  have hdepth : ∀ earlier ∈ interruptedCalls.inits,
      (empty.attempt earlier).opened.length ≤ Reader.depthLimit := by decide
  have hfinish : (empty.attempt interruptedCalls).finish
      = .ok [0x24, 0, 0, 0, 1, 0xF9, 0xEA, 0x7D, 1, 0xAB, 0xE1, 0xF1] := rfl
  obtain ⟨-, -, -, hread⟩ := ofBytes_of_finish_attempt interruptedCalls (by decide)
    fun earlier hearlier => hdepth earlier ((List.mem_inits _ _).mpr hearlier)
  exact ⟨hfinish, hread _ hfinish⟩

end Writer

end XrpLedger

import ColumnStore.Proofs.Table.Invariant

/-!
# An add is all or nothing

A row is written column by column, and each column may refuse its cell. No add ever leaves a row
half written, since values of the wrong kind are told before anything is written, and the columns
take all others:

* A row that is added or replaced has its cells in all columns, and no other row changes
  (`Draft.Rewrites`).
* An add that leaves the entity out or is an error writes to no row. As long as there is room for
  another row, it leaves the draft as it was in each part (`Draft.addCall_eq_self`).

Thus no add, no look at the draft and no build ever ends in the error of a write (`run_atomic`).
-/

namespace ColumnStore.Table

variable {entityType : EntityType} {schema : Schema} {entries entries' : List Entry} {id : Int64}
  {fields : List (Attribute × Value)}

namespace Draft

variable {d d' : Draft} {call : AddCall}

/-! ## Drafts that are left as they are -/

/-- A row comes at the end, unless there is no room or a column refuses its cell. -/
theorem appendRow_outcome (d : Draft) (id : Int64) (cells : List (Option Value)) :
    (d.appendRow id cells).1 = .ok .added ∨
      (∃ e, (d.appendRow id cells).1 = .error (.write e)) ∨
      (d.appendRow id cells).1 = .error (.rowLimit (d.size + 1) maxRows) := by
  rw [appendRow]
  by_cases hfull : maxRows ≤ d.size
  · rw [if_pos hfull]
    exact .inr (.inr rfl)
  · rw [if_neg hfull]
    rcases d.ids.append (some (.long id)) with ⟨e | _, ids⟩
    · exact .inr (.inl ⟨e, rfl⟩)
    · rcases writeCells Column.Draft.append d.columns cells with ⟨e | _, columns⟩
      · exact .inr (.inl ⟨e, rfl⟩)
      · exact .inl rfl

/-- A row is overwritten unless a column refuses its cell. -/
theorem overwriteRow_outcome (d : Draft) (row : Nat) (cells : List (Option Value)) :
    (d.overwriteRow row cells).1 = .ok .replaced ∨
      ∃ e, (d.overwriteRow row cells).1 = .error (.write e) := by
  rw [overwriteRow]
  rcases writeCells (fun c cell => c.set row cell) d.columns cells with ⟨e | _, columns⟩
  · exact .inr ⟨e, rfl⟩
  · exact .inl rfl

/-- An add that writes no row, neither finds a column refuse its cell nor the room used up, leaves
    the draft as it was. -/
theorem addCall_eq_self (hadded : (addCall call d).1 ≠ .ok .added)
    (hreplaced : (addCall call d).1 ≠ .ok .replaced)
    (hwrite : ∀ e, (addCall call d).1 ≠ .error (.write e))
    (hroom : ∀ needed, (addCall call d).1 ≠ .error (.rowLimit needed maxRows)) :
    (addCall call d).2 = d := by
  revert hadded hreplaced hwrite hroom
  rw [addCall, add]
  cases cellsOf d.schema (Entity.fields call.value) with
  | error e => exact fun _ _ _ _ => rfl
  | ok cells =>
    -- A row is appended to the draft, or to the draft with its ids in a set.
    have happend (d' : Draft) (hadded : (d'.appendRow call.id cells).1 ≠ .ok .added)
        (hwrite : ∀ e, (d'.appendRow call.id cells).1 ≠ .error (.write e))
        (hroom : ∀ needed, (d'.appendRow call.id cells).1 ≠ .error (.rowLimit needed maxRows)) :
        (d'.appendRow call.id cells).2 = d := by
      rcases d'.appendRow_outcome call.id cells with h | ⟨e, h⟩ | h
      · exact absurd h hadded
      · exact absurd h (hwrite e)
      · exact absurd h (hroom _)
    cases d.standing (Entity.id call.value) with
    | next => exact fun hadded _ => happend d hadded
    | late => exact fun hadded _ => happend d.scatter hadded
    | held row =>
      cases call.replace with
      | false => exact fun _ _ _ _ => rfl
      | true =>
        intro _ hreplaced hwrite _
        rcases d.overwriteRow_outcome row cells with h | ⟨e, h⟩
        · exact absurd h hreplaced
        · exact absurd h (hwrite e)
    | known => cases call.replace <;> exact fun _ _ _ _ => rfl

/-! ## What an error says -/

/-- The error of a misfit names an attribute of the schema and the kind of the value for it. -/
theorem exists_of_misfit? {e : SchemaError} (h : misfit? schema fields = some e) :
    ∃ a v, (a, v) ∈ fields ∧ a ∈ schema.named ∧ v.kind ≠ a.kind ∧
      e = .wrongKind a.name a.kind v.kind := by
  rw [misfit?_eq, Option.map_eq_some_iff] at h
  obtain ⟨⟨a, v⟩, hfield, rfl⟩ := h
  rw [Register.misfit?] at hfield
  have hmisfit := List.find?_some hfield
  obtain ⟨ha, hv⟩ : a ∈ schema.named ∧ v.kind ≠ a.kind := of_decide_eq_true hmisfit
  exact ⟨a, v, List.mem_of_find?_eq_some hfield, ha, hv, rfl⟩

namespace AddStep

variable {sorted sorted' replace : Bool} {outcome : Except StoreError AddOutcome}
  (hstep : AddStep schema entries sorted id fields replace outcome entries' sorted')
include hstep

/-- No column refuses its cell. -/
theorem ne_write (e : WriteError) : outcome ≠ .error (.write e) := by
  cases hstep <;> exact nofun

/-- As long as there is room, the room is not used up. -/
theorem ne_rowLimit (hroom : entries.length < maxRows) (needed : Nat) :
    outcome ≠ .error (.rowLimit needed maxRows) := by
  cases hstep with
  | full _ _ hfull => exact absurd hroom (Nat.not_lt.2 hfull)
  | misfit | added | replaced | refused | dropped => exact nofun

/-- As long as there is room, an add is an error if the entity is a misfit, or is to replace
    another after an id came late. -/
theorem error_cases (hroom : entries.length < maxRows) {e : StoreError}
    (he : outcome = .error e) :
    (∃ a v, (a, v) ∈ fields ∧ a ∈ schema.named ∧ v.kind ≠ a.kind ∧
      e = .schema (.wrongKind a.name a.kind v.kind)) ∨
    replace = true ∧ sorted = false ∧ id ∈ entries.map Entry.id ∧ e = .replaceUnsorted id := by
  cases hstep with
  | misfit hmisfit =>
    obtain ⟨a, v, hfield, ha, hv, rfl⟩ := exists_of_misfit? hmisfit
    exact .inl ⟨a, v, hfield, ha, hv, (Except.error.inj he).symm⟩
  | full _ _ hfull => exact absurd hroom (Nat.not_lt.2 hfull)
  | refused _ hsorted hreplace hid =>
    exact .inr ⟨hreplace, hsorted, hid, (Except.error.inj he).symm⟩
  | added | replaced | dropped => exact absurd he nofun

end AddStep

/-! ## Rows -/

/-- The cells of a row in all columns, that of its id being the first. -/
def cellsAt (d : Draft) (row : Nat) : List (Option Value) := (d.ids :: d.columns).map (·.get? row)

/-- A row has the given cells now, and all others have the cells that they had. -/
def Rewrites (d d' : Draft) (row : Nat) (cells : List (Option Value)) : Prop :=
  ∀ p, d'.cellsAt p = if p = row then cells else d.cellsAt p

theorem cellsAt_eq (hd : d.Holds entityType schema entries) (p : Nat) :
    d.cellsAt p = schema.attributes.map fun a => entries[p]?.bind (·.value a) := by
  rw [cellsAt, ← List.forall₂_eq_eq_eq, List.forall₂_map_left_iff, List.forall₂_map_right_iff]
  refine hd.columns.imp fun c a hc => ?_
  rw [hc.get?_eq, List.getElem?_map]
  cases entries[p]? <;> rfl

/-- The cells of an entry. -/
theorem map_value_attributes (schema : Schema) (e : Entry) :
    schema.attributes.map e.value = some (.long e.id) :: schema.named.map e.values :=
  congrArg₂ List.cons e.value_entityId
    (List.map_congr_left fun _ ha => e.value_of_mem_named ha)

/-- Drafts with the same entries but for one differ in the row of this one. -/
theorem rewrites_of_getElem? {e : Entry} {row : Nat} (hd : d.Holds entityType schema entries)
    (hd' : d'.Holds entityType schema entries')
    (h : ∀ p, entries'[p]? = if p = row then some e else entries[p]?) :
    d.Rewrites d' row (some (.long e.id) :: schema.named.map e.values) := by
  intro p
  rw [cellsAt_eq hd', cellsAt_eq hd, h]
  by_cases hp : p = row
  · rw [if_pos hp, if_pos hp]
    exact map_value_attributes schema e
  · rw [if_neg hp, if_neg hp]

/-- The cells that a call gives a row. -/
def rowOf (d : Draft) (call : AddCall) : List (Option Value) :=
  some (.long call.id) :: d.schema.named.map (cellOf call.fields)

/-- What a call does to the rows, by its outcome. -/
def Writes (d : Draft) (call : AddCall) : Except StoreError AddOutcome × Draft → Prop
  | (.ok .added, d') => d'.size = d.size + 1 ∧ d.Rewrites d' d.size (d.rowOf call)
  | (.ok .replaced, d') =>
    d'.size = d.size ∧ ∃ row < d.size, d.idAt row = call.id ∧ d.Rewrites d' row (d.rowOf call)
  | (.ok .dropped, d') | (.error _, d') => d'.size = d.size ∧ ∀ row, d'.cellsAt row = d.cellsAt row

/-- A step of the entries of two drafts is one of their rows. -/
theorem AddStep.writes {sorted sorted' : Bool} {outcome : Except StoreError AddOutcome}
    (hstep : AddStep schema entries sorted call.id call.fields call.replace outcome entries'
      sorted')
    (hd : d.Holds entityType schema entries) (hd' : d'.Holds entityType schema entries') :
    d.Writes call (outcome, d') := by
  have hrow : d.rowOf call
      = some (.long call.id) :: schema.named.map (cellOf call.fields) := by rw [rowOf, hd.schema_eq]
  have hsame (h : entries' = entries) :
      d'.size = d.size ∧ ∀ row, d'.cellsAt row = d.cellsAt row := by
    subst h
    exact ⟨hd'.size_eq.trans hd.size_eq.symm, fun row => by rw [cellsAt_eq hd', cellsAt_eq hd]⟩
  cases hstep with
  | misfit | full | refused | dropped => exact hsame rfl
  | added =>
    refine ⟨by rw [hd'.size_eq, hd.size_eq, List.length_append, List.length_singleton], ?_⟩
    rw [hrow, hd.size_eq]
    exact rewrites_of_getElem? hd hd' (Column.Draft.getElem?_concat entries _)
  | @replaced row e _ _ _ hold hid =>
    obtain ⟨hlt, -⟩ := List.getElem?_eq_some_iff.1 hold
    refine ⟨by rw [hd'.size_eq, hd.size_eq, List.length_set], row, hd.size_eq ▸ hlt, ?_, ?_⟩
    · rw [hd.idAt_eq, List.getElem?_map, hold, Option.map_some, Option.getD_some, hid]
    · rw [hrow]
      refine rewrites_of_getElem? (e := ⟨call.id, cellOf call.fields⟩) hd hd' fun p => ?_
      rw [List.getElem?_set, if_pos hlt]
      simp only [eq_comm]

end Draft

/-- After any steps on a new draft, a call that adds any entity is all or nothing: it writes one row
    in all columns or none, and is never the error of a write, nor is looking at the draft or
    building it, before the call and after.

    As long as there is room for another row, a call that drops the entity or is an error leaves
    the draft as it was, and it is an error for no other reasons than a value of another kind than
    its attribute's and a replacement that comes too late. -/
theorem run_atomic (entityType : EntityType) (schema : Schema) (settings : Settings)
    (steps : List BuildStep) (call : AddCall) :
    let d := (run Draft.step steps { entityType, schema, settings }).2
    let (outcome, d') := d.addCall call
    d.Writes call (outcome, d') ∧ (∀ e, outcome ≠ .error (.write e)) ∧
      (∀ s ∈ [d, d'], (∃ peeked, s.peek = .ok peeked) ∧ ∃ built, s.build = .ok built) ∧
      (d.size < maxRows →
        (outcome = .ok .dropped ∨ (∃ e, outcome = .error e) → d' = d) ∧
        ∀ e, outcome = .error e →
          (∃ a v, (a, v) ∈ call.fields ∧ a ∈ schema.named ∧ v.kind ≠ a.kind ∧
            e = .schema (.wrongKind a.name a.kind v.kind)) ∨
          call.replace = true ∧ d.isSorted = false ∧ call.id ∈ d.rowIds ∧
            e = .replaceUnsorted call.id) := by
  intro d
  obtain ⟨entries, hd, -⟩ := Draft.run_exists_holds entityType schema settings steps
  obtain ⟨entries', hd', hstep⟩ := hd.add call.value call.replace
  dsimp only
  refine ⟨hstep.writes hd hd', hstep.ne_write, ?_, fun hroom => ?_⟩
  · rw [List.forall_mem_cons, List.forall_mem_singleton]
    exact ⟨hd.exists_tables, hd'.exists_tables⟩
  · rw [hd.size_eq] at hroom
    refine ⟨fun hleft => ?_, fun e he => hd.rowIds_eq ▸ hstep.error_cases hroom he⟩
    have hnone :
        (Draft.addCall call d).1 ≠ .ok .added ∧ (Draft.addCall call d).1 ≠ .ok .replaced := by
      rcases hleft with h | ⟨e, h⟩ <;> rw [h] <;> exact ⟨nofun, nofun⟩
    exact Draft.addCall_eq_self hnone.1 hnone.2 hstep.ne_write (hstep.ne_rowLimit hroom)

/-- Two ratings of which the second comes late. What is no rating is an error, though it would be
    left out for its id, and the draft stays as it is. -/
theorem run_atomic_ratings :
    let steps : List BuildStep :=
      [.add ⟨ratingRecord 5 (.double ⟨0⟩), false⟩, .add ⟨ratingRecord 3 (.double ⟨1⟩), false⟩]
    let d := (run Draft.step steps { entityType := ⟨"rating"⟩, schema := ratings }).2
    let (outcome, d') := d.addCall ⟨ratingRecord 5 (.long 1), false⟩
    d.size < maxRows ∧ outcome = .error (.schema (.wrongKind "rating" .double .long)) ∧ d' = d := by
  intro steps d
  have hsize : d.size < maxRows := by decide +kernel
  have houtcome : (d.addCall ⟨ratingRecord 5 (.long 1), false⟩).1
      = .error (.schema (.wrongKind "rating" .double .long)) := by decide +kernel
  obtain ⟨-, -, -, hleft⟩ :=
    run_atomic ⟨"rating"⟩ ratings {} steps ⟨ratingRecord 5 (.long 1), false⟩
  exact ⟨hsize, houtcome, (hleft hsize).1 (.inr ⟨_, houtcome⟩)⟩

end ColumnStore.Table

import ColumnStore.Proofs.Calls
import ColumnStore.Proofs.Keys
import ColumnStore.Proofs.Run
import ColumnStore.Proofs.Table.Build
import Mathlib.Data.List.Induction
import Mathlib.Data.List.Nodup
import Std.Data.TreeMap

/-!
# A table in the making is a map

A register keeps rows by id in a map, and whether their ids have come in ascending order so
far. It is all that a draft of a table shows: any calls that add entities have the outcomes that
the register gives, and the table that is built lists the rows of the map in ascending order of
their ids (`run_register`). How known ids are recognized, what is overwritten in place, and how
rows are sorted in the end is nowhere to be seen.
-/

namespace ColumnStore.Table

/-- Adds the entity of a call to a draft. -/
def Draft.addCall (call : AddCall) (d : Draft) : Except StoreError AddOutcome × Draft :=
  d.add call.value call.replace

/-- Rows by id, and whether their ids have come in ascending order so far. -/
structure Register where
  rows : Std.TreeMap Int64 (Attribute → Option Value) := ∅
  ascending : Bool := true

namespace Register

/-- The values that fields have for attributes: a later field outdoes an earlier one. -/
def valuesOf (fields : List (Attribute × Value)) (a : Attribute) : Option Value :=
  fields.reverse.lookup a

/-- The first field for an attribute of the schema, other than the id, that has a value of
    another kind. -/
def misfit? (schema : Schema) (fields : List (Attribute × Value)) : Option (Attribute × Value) :=
  fields.find? fun (a, v) => a ∈ schema.named ∧ v.kind ≠ a.kind

/-- What a call does to the register. -/
def add (schema : Schema) (call : AddCall) (r : Register) :
    Except StoreError AddOutcome × Register :=
  match misfit? schema call.fields with
  | some (a, v) => (.error (.schema (.wrongKind a.name a.kind v.kind)), r)
  | none =>
    let rows := r.rows.insert call.id (valuesOf call.fields)
    if call.id ∈ r.rows then
      if call.replace = false then (.ok .dropped, r)
      else if r.ascending then (.ok .replaced, { r with rows })
      else (.error (.replaceUnsorted call.id), r)
    else (.ok .added, { rows, ascending := r.ascending && r.rows.keys.all (· < call.id) })

/-- The rows in ascending order of their ids. -/
def entries (r : Register) : List Entry := r.rows.toList.map fun (id, values) => ⟨id, values⟩

/-! ## The rows of a register -/

variable {r : Register} {e : Entry} {schema : Schema}

theorem mem_entries : e ∈ r.entries ↔ r.rows[e.id]? = some e.values := by
  rw [entries, List.mem_map, ← Std.TreeMap.mem_toList_iff_getElem?_eq_some]
  exact ⟨fun ⟨p, hp, heq⟩ => heq ▸ hp, fun h => ⟨_, h, rfl⟩⟩

theorem map_id_entries (r : Register) : r.entries.map Entry.id = r.rows.keys := by
  rw [entries, List.map_map, ← Std.TreeMap.map_fst_toList_eq_keys]
  rfl

theorem ascending_entries (r : Register) : (r.entries.map Entry.id).Pairwise (· < ·) := by
  rw [map_id_entries]
  exact Std.TreeMap.ordered_keys.imp Std.compare_eq_lt.1

theorem length_entries (r : Register) : r.entries.length = r.rows.size := by
  rw [entries, List.length_map, Std.TreeMap.length_toList]

/-! ## What a call does -/

section Add

variable {call : AddCall} {a : Attribute} {v : Value}

theorem add_misfit (h : misfit? schema call.fields = some (a, v)) :
    r.add schema call = (.error (.schema (.wrongKind a.name a.kind v.kind)), r) := by
  rw [add, h]

theorem add_fresh (h : misfit? schema call.fields = none) (hid : call.id ∉ r.rows) :
    r.add schema call = (.ok .added,
      { rows := r.rows.insert call.id (valuesOf call.fields)
        ascending := r.ascending && r.rows.keys.all (· < call.id) }) := by
  simp only [add, h, hid, if_false]

theorem add_dropped (h : misfit? schema call.fields = none) (hid : call.id ∈ r.rows)
    (hreplace : call.replace = false) : r.add schema call = (.ok .dropped, r) := by
  simp only [add, h, hid, hreplace, if_true]

theorem add_replaced (h : misfit? schema call.fields = none) (hid : call.id ∈ r.rows)
    (hreplace : call.replace = true) (hascending : r.ascending = true) :
    r.add schema call
      = (.ok .replaced, { r with rows := r.rows.insert call.id (valuesOf call.fields) }) := by
  simp [add, h, hid, hreplace, hascending]

theorem add_refused (h : misfit? schema call.fields = none) (hid : call.id ∈ r.rows)
    (hreplace : call.replace = true) (hascending : r.ascending = false) :
    r.add schema call = (.error (.replaceUnsorted call.id), r) := by
  simp [add, h, hid, hreplace, hascending]

/-- No call takes a row away. -/
theorem size_le_add (schema : Schema) (call : AddCall) (r : Register) :
    r.rows.size ≤ (r.add schema call).2.rows.size := by
  cases h : misfit? schema call.fields with
  | some field => exact Nat.le_of_eq (by rw [add_misfit h])
  | none =>
    by_cases hid : call.id ∈ r.rows
    · cases hreplace : call.replace with
      | false => exact Nat.le_of_eq (by rw [add_dropped h hid hreplace])
      | true =>
        cases hascending : r.ascending with
        | false => exact Nat.le_of_eq (by rw [add_refused h hid hreplace hascending])
        | true =>
          rw [add_replaced h hid hreplace hascending]
          exact Std.TreeMap.size_le_size_insert
    · rw [add_fresh h hid]
      exact Std.TreeMap.size_le_size_insert

end Add

/-! ## Registers of lists of rows -/

/-- A list of rows with different ids has the rows of the register if it has the same ones. -/
theorem perm_entries {entries : List Entry} (hnodup : (entries.map Entry.id).Nodup)
    (h : ∀ e, e ∈ entries ↔ e ∈ r.entries) : entries.Perm r.entries := by
  have hnodup' : (r.entries.map Entry.id).Nodup :=
    r.ascending_entries.imp Std.ne_of_lt
  exact (List.perm_ext_iff_of_nodup (.of_map Entry.id hnodup) (.of_map Entry.id hnodup')).2 h

theorem mem_rows {entries : List Entry} (h : entries.Perm r.entries) {id : Int64} :
    id ∈ r.rows ↔ id ∈ entries.map Entry.id := by
  rw [(h.map Entry.id).mem_iff, map_id_entries, Std.TreeMap.mem_keys]

/-- Inserting a row takes the place of the one with its id. -/
theorem mem_entries_insert {id : Int64} {values : Attribute → Option Value} {ascending : Bool} :
    e ∈ entries ⟨r.rows.insert id values, ascending⟩ ↔
      e = ⟨id, values⟩ ∨ e ∈ r.entries ∧ e.id ≠ id := by
  rw [mem_entries, mem_entries, Std.TreeMap.getElem?_insert]
  obtain ⟨id', values'⟩ := e
  by_cases hid : id = id'
  · subst hid
    simp [eq_comm]
  · have : compare id id' ≠ .eq := fun h => hid (Std.LawfulEqOrd.eq_of_compare h)
    simp [this, Ne.symm hid]

end Register

/-! ## Calls -/

variable {schema : Schema} {entries : List Entry} {e e' : Entry} {row : Nat}

theorem cellOf_eq (fields : List (Attribute × Value)) :
    Draft.cellOf fields = Register.valuesOf fields := by
  funext a
  induction fields using List.reverseRecOn with
  | nil => rfl
  | append_singleton rest field ih =>
    obtain ⟨b, v⟩ := field
    rw [Draft.cellOf] at ih ⊢
    rw [List.foldl_concat, ih, Register.valuesOf, Register.valuesOf, List.reverse_append,
      List.reverse_singleton, List.singleton_append, List.lookup_cons]
    by_cases h : b = a
    · simp [h]
    · have hab : (a == b) = false := beq_false_of_ne (Ne.symm h)
      simp [h, hab]

theorem misfit?_eq (schema : Schema) (fields : List (Attribute × Value)) :
    Draft.misfit? schema fields
      = (Register.misfit? schema fields).map fun (a, v) => .wrongKind a.name a.kind v.kind := by
  induction fields with
  | nil => rfl
  | cons field rest ih =>
    obtain ⟨a, v⟩ := field
    rw [Draft.misfit?] at ih ⊢
    rw [List.findSome?_cons, Register.misfit?, List.find?_cons, ← Register.misfit?, ih]
    by_cases h : a ∈ schema.named ∧ v.kind ≠ a.kind
    · simp [h.1, h.2, Kind.accepts]
    · have hpass : ¬(a ∈ schema.named ∧ !a.kind.accepts v) := by simpa [Kind.accepts] using h
      simp only [hpass, if_false, decide_eq_false h]

/-! ## Refinement -/

/-- The draft holds the rows of the register, in the order in which they have come. -/
def Draft.Refines (d : Draft) (entityType : EntityType) (schema : Schema) (r : Register) : Prop :=
  ∃ entries, d.Holds entityType schema entries ∧ entries.Perm r.entries ∧ d.isSorted = r.ascending

variable {d : Draft} {entityType : EntityType} {r : Register}

/-- A new draft and the empty register. -/
theorem Draft.refines_nil (entityType : EntityType) (schema : Schema) (settings : Settings) :
    Refines { entityType, schema, settings } entityType schema {} :=
  ⟨[], holds_nil entityType schema settings, .nil, rfl⟩

/-- A step of the entries of a draft is one of the register that has the same rows, provided that
    there is room for a new row. -/
theorem Register.add_of_addStep {call : AddCall} {sorted sorted' : Bool}
    {outcome : Except StoreError AddOutcome} {entries' : List Entry}
    (hstep : Draft.AddStep schema entries sorted call.id call.fields call.replace outcome entries'
      sorted')
    (hnodup : (entries.map Entry.id).Nodup) (hnodup' : (entries'.map Entry.id).Nodup)
    (hperm : entries.Perm r.entries) (hsorted : sorted = r.ascending)
    (hroom : (r.add schema call).2.rows.size ≤ maxRows) :
    outcome = (r.add schema call).1 ∧ entries'.Perm (r.add schema call).2.entries ∧
      sorted' = (r.add schema call).2.ascending := by
  have hmisfit := misfit?_eq schema call.fields
  have hmem : call.id ∈ r.rows ↔ call.id ∈ entries.map Entry.id := mem_rows hperm
  have hnone (h : Draft.misfit? schema call.fields = none) : misfit? schema call.fields = none := by
    rwa [h, eq_comm, Option.map_eq_none_iff] at hmisfit
  cases hstep with
  | misfit h =>
    rw [h] at hmisfit
    cases hfield : misfit? schema call.fields with
    | none =>
      rw [hfield] at hmisfit
      exact absurd hmisfit nofun
    | some field =>
      rw [hfield] at hmisfit
      rw [add_misfit hfield, Option.some_inj.1 hmisfit]
      exact ⟨rfl, hperm, hsorted⟩
  | full h hid hfull =>
    -- The register takes any number of rows, but more than there is room for is ruled out.
    rw [add_fresh (hnone h) (mt hmem.1 hid)] at hroom
    dsimp only at hroom
    rw [Std.TreeMap.size_insert, if_neg (mt Std.TreeMap.mem_iff_contains.2 (mt hmem.1 hid)),
      ← length_entries, ← hperm.length_eq] at hroom
    exact absurd hroom (Nat.not_le.2 (Nat.lt_succ_of_le hfull))
  | added h hid =>
    rw [add_fresh (hnone h) (mt hmem.1 hid)]
    refine ⟨rfl, perm_entries hnodup' ?_, ?_⟩
    · intro e
      rw [mem_entries_insert, List.mem_append, List.mem_singleton, ← hperm.mem_iff, or_comm,
        cellOf_eq]
      refine or_congr_right (iff_self_and.2 fun he heq => hid ?_)
      exact heq ▸ List.mem_map_of_mem he
    · rw [hsorted, ← map_id_entries, ← (hperm.map Entry.id).all_eq, List.all_map]
      rfl
  | @replaced row e h hs hreplace hrow hid =>
    have hknown : call.id ∈ r.rows :=
      hmem.2 (List.mem_map.2 ⟨e, List.mem_of_getElem? hrow, hid⟩)
    have hascending : r.ascending = true := hsorted ▸ hs
    rw [add_replaced (hnone h) hknown hreplace hascending]
    refine ⟨rfl, perm_entries hnodup' ?_, hascending.symm⟩
    intro x
    rw [mem_entries_insert, mem_set_key hnodup hrow, ← hperm.mem_iff, hid, cellOf_eq]
  | refused h hs hreplace hid =>
    have hascending : r.ascending = false := hsorted ▸ hs
    rw [add_refused (hnone h) (hmem.2 hid) hreplace hascending]
    exact ⟨rfl, hperm, hascending.symm⟩
  | dropped h hreplace hid =>
    rw [add_dropped (hnone h) (hmem.2 hid) hreplace]
    exact ⟨rfl, hperm, hsorted⟩

/-- A call has the outcome that the register gives, and does to the draft what it does to the
    register, provided that there is room for a new row. -/
theorem Draft.Refines.add (call : AddCall) (h : d.Refines entityType schema r)
    (hroom : (r.add schema call).2.rows.size ≤ maxRows) :
    (d.addCall call).1 = (r.add schema call).1 ∧
      (d.addCall call).2.Refines entityType schema (r.add schema call).2 := by
  obtain ⟨entries, hd, hperm, hsorted⟩ := h
  obtain ⟨entries', hd', hstep⟩ := hd.add call.value call.replace
  obtain ⟨houtcome, hperm', hsorted'⟩ :=
    Register.add_of_addStep hstep hd.nodup hd'.nodup hperm hsorted hroom
  exact ⟨houtcome, entries', hd', hperm', hsorted'⟩

/-- All calls together. -/
theorem Draft.Refines.run (calls : List AddCall) (h : d.Refines entityType schema r)
    (hroom : (run (Register.add schema) calls r).2.rows.size ≤ maxRows) :
    (run Draft.addCall calls d).1 = (run (Register.add schema) calls r).1 ∧
      (run Draft.addCall calls d).2.Refines entityType schema
        (run (Register.add schema) calls r).2 := by
  have := run_related (fun d r => Refines d entityType schema r) id
    (P := fun r : Register => r.rows.size ≤ maxRows)
    (fun call r => Nat.le_trans (Register.size_le_add schema call r))
    (fun call d r h => h.add call) calls h hroom
  rwa [List.map_id] at this

/-- A draft that refines a register is built to a table of its rows in ascending order of their
    ids. -/
theorem Draft.Refines.build (h : d.Refines entityType schema r) :
    ∃ t, d.build = .ok t ∧ t.Holds entityType schema r.entries ∧ t.sorted = true := by
  obtain ⟨entries, hd, hperm, -⟩ := h
  obtain ⟨t, entries', hbuild, ht, hsorted, hperm'⟩ := hd.build
  rw [Entry.eq_of_perm (hperm'.trans hperm) (ht.ascending hsorted) r.ascending_entries] at ht
  exact ⟨t, hbuild, ht, hsorted⟩

/-- Any calls on a new draft have the outcomes that the register gives, and leave a draft with as
    many rows, which is built to a table of the rows of the register in ascending order of their
    ids. -/
theorem run_register (entityType : EntityType) (schema : Schema) (settings : Settings)
    (calls : List AddCall) (hroom : (run (Register.add schema) calls {}).2.rows.size ≤ maxRows) :
    let (outcomes, d) := run Draft.addCall calls { entityType, schema, settings }
    let (expected, r) := run (Register.add schema) calls {}
    outcomes = expected ∧ d.size = r.rows.size ∧ d.isSorted = r.ascending ∧
      ∃ t, d.build = .ok t ∧ t.entityType = entityType ∧ t.schema = schema ∧ t.Lists r.entries ∧
        ∀ id, t.contains id = r.rows.contains id := by
  obtain ⟨houtcomes, h⟩ := (Draft.refines_nil entityType schema settings).run calls hroom
  obtain ⟨t, hbuild, ht, -⟩ := h.build
  obtain ⟨entries, hd, hperm, hsorted⟩ := h
  refine ⟨houtcomes, ?_, hsorted, t, hbuild, ht.entityType_eq, ht.schema_eq, ht.lists, ?_⟩
  · rw [hd.size_eq, hperm.length_eq, Register.length_entries]
  · intro id
    rw [Bool.eq_iff_iff, ht.contains_iff, ← Std.TreeMap.mem_iff_contains,
      Register.mem_rows (.refl _), List.mem_map]

/-! ## Ratings -/

/-- The schema of entities with a rating. -/
def ratings : Schema := ⟨[.rating], by decide, by decide, by decide⟩

/-- A record with a rating. -/
def ratingRecord (id : Int64) (v : Value) : Record := ⟨⟨"rating"⟩, id, ratings, [.long id, v]⟩

/-- A rating is replaced until an id comes late; a value that is no rating is an error. -/
theorem run_register_ratings :
    let calls : List AddCall :=
      [⟨ratingRecord 5 (.double ⟨0⟩), false⟩, ⟨ratingRecord 5 (.double ⟨1⟩), true⟩,
        ⟨ratingRecord 3 (.double ⟨2⟩), false⟩, ⟨ratingRecord 5 (.double ⟨3⟩), true⟩,
        ⟨ratingRecord 4 (.long 1), false⟩]
    let d := (run Draft.addCall calls { entityType := ⟨"rating"⟩, schema := ratings }).2
    (run (Register.add ratings) calls {}).2.rows.size ≤ maxRows ∧
      (run Draft.addCall calls { entityType := ⟨"rating"⟩, schema := ratings }).1
        = [.ok .added, .ok .replaced, .ok .added, .error (.replaceUnsorted 5),
          .error (.schema (.wrongKind "rating" .double .long))] ∧
      ∃ t, d.build = .ok t ∧ t.Lists (run (Register.add ratings) calls {}).2.entries := by
  intro calls d
  have hroom : (run (Register.add ratings) calls {}).2.rows.size ≤ maxRows := by decide
  obtain ⟨houtcomes, -, -, t, hbuild, -, -, hlists, -⟩ :=
    run_register ⟨"rating"⟩ ratings {} calls hroom
  exact ⟨hroom, houtcomes.trans (by decide), t, hbuild, hlists⟩

end ColumnStore.Table

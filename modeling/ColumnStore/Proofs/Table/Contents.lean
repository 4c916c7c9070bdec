import ColumnStore.Proofs.Table.Indexing
import ColumnStore.Proofs.Unambiguous
import ColumnStore.Table.Fingerprint

/-!
# The contents of a table tell its rows

The bytes that a fingerprint is taken of are written row by row, with nothing between the rows and
without their number (`Table.contents`). All the same they tell the rows: a cell begins with a tag
for its kind and ends where its kind or the length of its text says (`unambiguous_cellBytes`), and
a row ends with its last cell (`unambiguous_rowCode`). So two tables with as many attributes have
the same contents if and only if they have the same rows (`run_contents`).

The length of a text is written in eight bytes, so this is about texts whose length fits into
them (`Value.Writable`), as it does for all texts that there can be in memory.
-/

namespace ColumnStore

/-- The length of a text fits into eight bytes. -/
def Value.Writable : Value → Prop
  | .text s => s.utf8ByteSize < 256 ^ 8
  | .long _ | .int _ | .double _ | .bool _ => True

instance (v : Value) : Decidable v.Writable :=
  match v with
  | .text s => inferInstanceAs (Decidable (s.utf8ByteSize < 256 ^ 8))
  | .long _ | .int _ | .double _ | .bool _ => .isTrue trivial

/-! ## Cells -/

/-- The first byte of a cell of a kind, or of an absent one. -/
def cellTag : Option Kind → UInt8
  | none => 0
  | some .long => 1
  | some .int => 2
  | some .double => 3
  | some .bool => 4
  | some .text => 5

theorem cellTag_inj {k k' : Option Kind} (h : cellTag k = cellTag k') : k = k' := by
  rcases k with _ | _ | _ | _ | _ | _ <;> rcases k' with _ | _ | _ | _ | _ | _ <;>
    first | rfl | exact absurd h (by decide)

theorem head?_cellBytes (cell : Option Value) :
    (cellBytes cell).head? = some (cellTag (cell.map Value.kind)) := by
  rcases cell with _ | _ | _ | _ | _ | _ <;> rfl

theorem unambiguous_long :
    Unambiguous (fun n : Int64 => littleEndian 8 n.toUInt64.toNat) fun _ => True :=
  (unambiguous_littleEndian 8).comap (fun n _ => n.toUInt64.toNat_lt) fun m n h => by
    rw [← m.toInt64_toUInt64, UInt64.toNat_inj.1 h, n.toInt64_toUInt64]

theorem unambiguous_int :
    Unambiguous (fun n : Int32 => littleEndian 4 n.toUInt32.toNat) fun _ => True :=
  (unambiguous_littleEndian 4).comap (fun n _ => n.toUInt32.toNat_lt) fun m n h => by
    rw [← m.toInt32_toUInt32, UInt32.toNat_inj.1 h, n.toInt32_toUInt32]

theorem unambiguous_double :
    Unambiguous (fun x : Double => littleEndian 8 x.bits.toNat) fun _ => True :=
  (unambiguous_littleEndian 8).comap (fun x _ => x.bits.toNat_lt) fun _ _ h =>
    congrArg Double.mk (UInt64.toNat_inj.1 h)

theorem unambiguous_text :
    Unambiguous (fun s : String =>
      littleEndian 8 s.toUTF8.data.toList.length ++ s.toUTF8.data.toList)
      fun s => s.utf8ByteSize < 256 ^ 8 :=
  (unambiguous_lengthPrefixed 8).comap (fun _ hs => hs) fun _ _ h =>
    String.toByteArray_inj.1 (ByteArray.ext (Array.toList_inj.1 h))

theorem unambiguous_cellBytes : Unambiguous cellBytes fun cell => ∀ v ∈ cell, v.Writable := by
  intro a b ha hb r s h
  -- The first byte tells the kind, and after it the payloads are of one kind.
  have hkind : a.map Value.kind = b.map Value.kind := by
    have hhead := congrArg List.head? h
    rw [List.head?_append, List.head?_append, head?_cellBytes, head?_cellBytes, Option.some_or,
      Option.some_or] at hhead
    exact cellTag_inj (Option.some_inj.1 hhead)
  rcases a with _ | m | m | x | c | t <;> rcases b with _ | n | n | y | c' | t' <;>
    try cases hkind
  · exact ⟨rfl, (List.cons.inj h).2⟩
  · obtain ⟨rfl, hrest⟩ := unambiguous_long trivial trivial (List.cons.inj h).2
    exact ⟨rfl, hrest⟩
  · obtain ⟨rfl, hrest⟩ := unambiguous_int trivial trivial (List.cons.inj h).2
    exact ⟨rfl, hrest⟩
  · obtain ⟨rfl, hrest⟩ := unambiguous_double trivial trivial (List.cons.inj h).2
    exact ⟨rfl, hrest⟩
  · obtain ⟨hbyte, hrest⟩ := List.cons.inj (List.cons.inj h).2
    refine ⟨?_, hrest⟩
    cases c <;> cases c' <;> first | rfl | exact absurd hbyte (by decide)
  · obtain ⟨rfl, hrest⟩ := unambiguous_text (ha _ rfl) (hb _ rfl) (List.cons.inj h).2
    exact ⟨rfl, hrest⟩

/-! ## Rows -/

/-- A row in bytes: its id, then its cells. -/
def rowCode (row : Int64 × List (Option Value)) : List UInt8 :=
  littleEndian 8 row.1.toUInt64.toNat ++ row.2.flatMap cellBytes

/-- Rows of a number of cells. -/
theorem unambiguous_rowCode (n : Nat) :
    Unambiguous rowCode fun row => row.2.length = n ∧ ∀ cell ∈ row.2, ∀ v ∈ cell, v.Writable :=
  (unambiguous_long.append (unambiguous_cellBytes.flatMap n)).comap (f := id)
    (fun _ hrow => ⟨trivial, hrow⟩) fun _ _ => id

theorem rowCode_ne_nil (row : Int64 × List (Option Value)) : rowCode row ≠ [] := by
  intro h
  have hlength := congrArg List.length (List.append_eq_nil_iff.1 h).1
  rw [length_littleEndian] at hlength
  exact absurd hlength (by decide)

namespace Table

variable {t t' : Table} {i p : Nat}

/-- The cell of a row at the position of an attribute. -/
def cell (t : Table) (i p : Nat) : Option Value := (t.columnAt? i).bind (·.get? p)

/-- The cells of a row, but for the id. -/
def cells (t : Table) (p : Nat) : List (Option Value) := t.columns.toList.map (·.get? p)

/-- The rows of a table by their ids and their other cells. -/
def idRows (t : Table) : List (Int64 × List (Option Value)) :=
  (List.range t.size).map fun p => (t.idAt p, t.cells p)

/-- Two tables have the same ids and the same cells, row by row. -/
structure SameRows (t t' : Table) : Prop where
  size_eq : t.size = t'.size
  idAt_eq : ∀ p < t.size, t.idAt p = t'.idAt p
  cell_eq : ∀ p < t.size, ∀ i, t.cell i p = t'.cell i p

theorem contents_eq (t : Table) : t.contents = t.idRows.flatMap rowCode := by
  rw [idRows, List.flatMap_map, contents]
  refine congrArg (List.flatMap · _) (funext fun p => ?_)
  rw [rowBytes, rowCode, cells, List.flatMap_map]

theorem length_cells (t : Table) (p : Nat) : (t.cells p).length = t.columns.size := by
  rw [cells, List.length_map, Array.length_toList]

theorem getElem?_cells (t : Table) (i p : Nat) : (t.cells p)[i]?.join = t.cell (i + 1) p := by
  rw [cells, List.getElem?_map, Array.getElem?_toList, cell, columnAt?]
  cases t.columns[i]? <;> rfl

/-- The contents tell the ids and the other cells. -/
theorem contents_eq_iff (hcount : t.columns.size = t'.columns.size)
    (ht : ∀ p, ∀ cell ∈ t.cells p, ∀ v ∈ cell, v.Writable)
    (ht' : ∀ p, ∀ cell ∈ t'.cells p, ∀ v ∈ cell, v.Writable) :
    t.contents = t'.contents ↔ t.idRows = t'.idRows := by
  rw [contents_eq, contents_eq]
  refine ⟨(unambiguous_rowCode t.columns.size).flatMap_inj rowCode_ne_nil ?_ ?_, congrArg _⟩
  · intro row hrow
    obtain ⟨p, -, rfl⟩ := List.mem_map.1 hrow
    exact ⟨t.length_cells p, ht p⟩
  · intro row hrow
    obtain ⟨p, -, rfl⟩ := List.mem_map.1 hrow
    exact ⟨(t'.length_cells p).trans hcount.symm, ht' p⟩

/-- As many cells are the same if they are the same one by one. -/
theorem cells_eq_iff (hcount : t.columns.size = t'.columns.size) :
    t.cells p = t'.cells p ↔ ∀ i, t.cell (i + 1) p = t'.cell (i + 1) p := by
  simp only [← getElem?_cells]
  refine ⟨fun h i => by rw [h], fun h => List.ext_getElem ?_ fun i hi hi' => ?_⟩
  · rw [length_cells, length_cells, hcount]
  · have := h i
    rwa [List.getElem?_eq_getElem hi, List.getElem?_eq_getElem hi', Option.join_some,
      Option.join_some] at this

theorem idRows_eq_iff :
    t.idRows = t'.idRows ↔
      t.size = t'.size ∧ ∀ p < t.size, t.idAt p = t'.idAt p ∧ t.cells p = t'.cells p := by
  constructor
  · intro h
    have hsize : t.size = t'.size := by
      have := congrArg List.length h
      rwa [idRows, idRows, List.length_map, List.length_map, List.length_range,
        List.length_range] at this
    refine ⟨hsize, fun p hp => ?_⟩
    have hrow := congrArg (·[p]?) h
    simp only [idRows, List.getElem?_map, List.getElem?_range hp,
      List.getElem?_range (hsize ▸ hp), Option.map_some] at hrow
    exact Prod.mk.inj (Option.some_inj.1 hrow)
  · rintro ⟨hsize, hrows⟩
    rw [idRows, idRows, ← hsize]
    refine List.map_congr_left fun p hp => ?_
    obtain ⟨hid, hcells⟩ := hrows p (List.mem_range.1 hp)
    rw [hid, hcells]

namespace Holds

variable {entityType entityType' : EntityType} {schema schema' : Schema}
  {entries entries' : List Entry}

/-- The first cell is the id. -/
theorem cell_zero (ht : t.Holds entityType schema entries) (hp : p < t.size) :
    t.cell 0 p = some (.long (t.idAt p)) := by
  have hlt : p < entries.length := ht.size_eq ▸ hp
  have hentry : entries[p]? = some entries[p] := List.getElem?_eq_getElem hlt
  have hcell : t.cell 0 p = t.ids.get? p := rfl
  rw [hcell, ht.ids_holds.get?_eq, ht.idAt_eq, List.getElem?_map, hentry, Option.map_some,
    Option.join_some, Option.map_some, Option.getD_some]

theorem sameRows_iff (ht : t.Holds entityType schema entries)
    (ht' : t'.Holds entityType' schema' entries') (hcount : t.columns.size = t'.columns.size) :
    t.SameRows t' ↔ t.idRows = t'.idRows := by
  rw [idRows_eq_iff]
  constructor
  · intro h
    exact ⟨h.size_eq, fun p hp =>
      ⟨h.idAt_eq p hp, (cells_eq_iff hcount).2 fun i => h.cell_eq p hp (i + 1)⟩⟩
  · rintro ⟨hsize, hrows⟩
    refine ⟨hsize, fun p hp => (hrows p hp).1, fun p hp i => ?_⟩
    cases i with
    | zero => rw [ht.cell_zero hp, ht'.cell_zero (hsize ▸ hp), (hrows p hp).1]
    | succ i => exact (cells_eq_iff hcount).1 (hrows p hp).2 i

/-- There is a column for each attribute but the id. -/
theorem size_columns (ht : t.Holds entityType schema entries) :
    t.columns.size + 1 = schema.size := by
  have hlength := ht.columns.length_eq
  rwa [allColumns, List.length_cons, Array.length_toList] at hlength

/-- What is in the cells of a table is in its entries. -/
theorem forall_cells {P : Value → Prop} (ht : t.Holds entityType schema entries)
    (hall : ∀ e ∈ entries, e.All P) (p : Nat) : ∀ cell ∈ t.cells p, ∀ v ∈ cell, P v := by
  intro cell hcell v hv
  obtain ⟨c, hc, rfl⟩ := List.mem_map.1 hcell
  obtain ⟨i, hi, rfl⟩ := List.getElem_of_mem hc
  have hnamed := (List.forall₂_cons.1 ht.columns).2
  have hi' : i < schema.named.length := hnamed.length_eq ▸ hi
  have hheld : Entry.HeldBy entries t.columns.toList[i] schema.named[i] := hnamed.get hi hi'
  rw [hheld.get?_eq, List.getElem?_map, Option.mem_def, Option.join_eq_some_iff,
    Option.map_eq_some_iff] at hv
  obtain ⟨e, he, hvalue⟩ := hv
  rw [e.value_of_mem_named (List.getElem_mem hi')] at hvalue
  exact hall e (List.mem_of_getElem? he) _ v hvalue

end Holds

/-! ## Runs -/

namespace Draft

variable {d : Draft} {entityType : EntityType} {schema : Schema} {entries entries' : List Entry}
  {P : Value → Prop}

/-- After any steps on a new draft, the table that it is built to and the one that is peeked at hold
    no values but those of the entities. -/
theorem run_tables (entityType : EntityType) (schema : Schema) (settings : Settings)
    (steps : List BuildStep)
    (hsteps : ∀ call ∈ BuildStep.calls steps, ∀ field ∈ call.fields, P field.2) :
    let d := (run step steps { entityType, schema, settings }).2
    ∃ built peeked, d.build = .ok built ∧ d.peek = .ok peeked ∧ ∀ t ∈ [built, peeked],
      ∃ entries, t.Holds entityType schema entries ∧ ∀ e ∈ entries, e.All P := by
  obtain ⟨-, indexed, hdraft⟩ := run_step steps { entityType, schema, settings }
  obtain ⟨entries, hd, hall⟩ := (holds_nil entityType schema settings).run_all
    (BuildStep.calls steps) nofun hsteps
  replace hd := hdraft ▸ hd.withIndexed indexed
  obtain ⟨built, entries', hbuild, hbuilt, -, hperm⟩ := hd.build
  obtain ⟨peeked, hpeek, hpeeked, -⟩ := hd.peek
  refine ⟨built, peeked, hbuild, hpeek, ?_⟩
  rw [List.forall_mem_cons, List.forall_mem_singleton]
  exact ⟨⟨entries', hbuilt, fun e he => hall e (hperm.mem_iff.1 he)⟩, entries, hpeeked, hall⟩

end Draft

/-- Of two new drafts with as many attributes, after any steps on each: the tables that they are
    built to, and those that are peeked at, have the same contents if and only if they have the
    same rows. -/
theorem run_contents (entityType entityType' : EntityType) (schema schema' : Schema)
    (settings settings' : Settings) (steps steps' : List BuildStep)
    (hsize : schema.size = schema'.size)
    (hsteps : ∀ call ∈ BuildStep.calls steps, ∀ field ∈ call.fields, field.2.Writable)
    (hsteps' : ∀ call ∈ BuildStep.calls steps', ∀ field ∈ call.fields, field.2.Writable) :
    let d := (run Draft.step steps { entityType, schema, settings }).2
    let d' := (run Draft.step steps'
      { entityType := entityType', schema := schema', settings := settings' }).2
    ∃ built peeked built' peeked', d.build = .ok built ∧ d.peek = .ok peeked ∧
      d'.build = .ok built' ∧ d'.peek = .ok peeked' ∧
      ∀ t ∈ [built, peeked], ∀ t' ∈ [built', peeked'],
        t.contents = t'.contents ↔ t.SameRows t' := by
  obtain ⟨built, peeked, hbuild, hpeek, htables⟩ :=
    Draft.run_tables entityType schema settings steps hsteps
  obtain ⟨built', peeked', hbuild', hpeek', htables'⟩ :=
    Draft.run_tables entityType' schema' settings' steps' hsteps'
  refine ⟨built, peeked, built', peeked', hbuild, hpeek, hbuild', hpeek', ?_⟩
  intro t ht t' ht'
  obtain ⟨entries, hholds, hall⟩ := htables t ht
  obtain ⟨entries', hholds', hall'⟩ := htables' t' ht'
  have hcount : t.columns.size = t'.columns.size :=
    Nat.succ_inj.1 (hholds.size_columns.trans (hsize.trans hholds'.size_columns.symm))
  rw [contents_eq_iff hcount (hholds.forall_cells hall) (hholds'.forall_cells hall'),
    hholds.sameRows_iff hholds' hcount]

/-- The schema of entities with a name. -/
def titles : Schema := ⟨[.title], by decide, by decide, by decide⟩

/-- A record with a name. -/
def titleRecord (id : Int64) (name : String) : Record :=
  ⟨⟨"item"⟩, id, titles, [.long id, .text name]⟩

/-- A table of a name and one of a rating, of which the latter has an index. -/
theorem run_contents_titles_ratings :
    let steps : List BuildStep := [.add ⟨titleRecord 1 "ab", false⟩]
    let steps' : List BuildStep := [.addIndex "rating", .add ⟨ratingRecord 1 (.double ⟨2⟩), false⟩]
    let d := (run Draft.step steps { entityType := ⟨"item"⟩, schema := titles }).2
    let d' := (run Draft.step steps' { entityType := ⟨"rating"⟩, schema := ratings }).2
    titles.size = ratings.size ∧
      (∀ call ∈ BuildStep.calls steps, ∀ field ∈ call.fields, field.2.Writable) ∧
      (∀ call ∈ BuildStep.calls steps', ∀ field ∈ call.fields, field.2.Writable) ∧
      ∃ t t', d.build = .ok t ∧ d'.build = .ok t' ∧ (t.contents = t'.contents ↔ t.SameRows t') := by
  intro steps steps' d d'
  have hsize : titles.size = ratings.size := by decide
  have hsteps : ∀ call ∈ BuildStep.calls steps, ∀ field ∈ call.fields, field.2.Writable := by
    decide
  have hsteps' : ∀ call ∈ BuildStep.calls steps', ∀ field ∈ call.fields, field.2.Writable := by
    decide
  obtain ⟨t, s, t', s', hbuild, -, hbuild', -, hcontents⟩ :=
    run_contents ⟨"item"⟩ ⟨"rating"⟩ titles ratings {} {} steps steps' hsize hsteps hsteps'
  exact ⟨hsize, hsteps, hsteps', t, t', hbuild, hbuild',
    hcontents t List.mem_cons_self t' List.mem_cons_self⟩

end Table

end ColumnStore

import ColumnStore.Index
import ColumnStore.Proofs.Column.Layout
import ColumnStore.Proofs.Postings

/-!
# The index of a column is its inverse

An index is made by recording rows, under longs or under other values, and has under each value
the rows that were recorded with it, in the order of recording (`Index.lists_run`). There is no
other way to an index of longs than by longs.

The index of a column has its rows by value. Longs are read row by row, and all other values as
the segments list them, but either way the same cells are recorded (`Column.Holds.index_eq`).
Unless there are more rows than numbers for them, the rows under a value are just those that hold
it, in ascending order, and each row with a value is in one group (`Index.Inverts`). This is so for
all segments that make a column (`Index.inverts`).
-/

namespace ColumnStore

/-- The rows of cells that hold a value. -/
def positionsOf (cells : List (Option Value)) (v : Value) : List Nat :=
  (List.range cells.length).filter fun p => cells[p]?.join = some v

theorem zipIdx_eq_map (cells : List (Option Value)) :
    cells.zipIdx = (List.range cells.length).map fun p => (cells[p]?.join, p) :=
  List.ext_getElem (by simp) fun p hp _ => by
    rw [List.length_zipIdx] at hp
    simp [List.getElem?_eq_getElem hp]

/-- The index of a column has the rows that hold a value. -/
theorem under_zipIdx (cells : List (Option Value)) (v : Value) :
    Postings.under cells.zipIdx v = positionsOf cells v := by
  rw [zipIdx_eq_map, Postings.under_map_key, positionsOf]

namespace Index

/-! ## Recording rows -/

namespace Draft

/-- A call that records a row. -/
inductive Call where
  | add (v : Value) (row : Nat)
  | addLong (n : Int64) (row : Nat)

namespace Call

/-- The draft after a call. -/
def apply (d : Draft) : Call → Draft
  | add v row => d.add v row
  | addLong n row => d.addLong n row

/-- The value that a call is to record a row under. -/
def value : Call → Value
  | add v _ => v
  | addLong n _ => .long n

/-- The row that a call is to record. -/
def row : Call → Nat
  | add _ row | addLong _ row => row

end Call

theorem addLong_eq (d : Draft) (n : Int64) (row : Nat) : d.addLong n row = d.add (.long n) row := by
  rw [addLong, add, Postings.addLong_eq]

theorem rows_apply (d : Draft) (call : Call) :
    (call.apply d).rows = d.rows.addItem (call.value, call.row) := by
  cases call with
  | add v row => rfl
  | addLong n row => rw [Call.apply, addLong_eq]; rfl

theorem rows_foldl_addCell (d : Draft) (items : List (Option Value × Nat)) :
    (items.foldl addCell d).rows = items.foldl Postings.addItem d.rows :=
  (List.foldl_hom rows fun _ item => by rcases item with ⟨_ | _, _⟩ <;> rfl).symm

end Draft

/-- An index has the rows that were recorded under each value, in the order of the calls. -/
theorem lists_run (kind : Kind) (calls : List Draft.Call) :
    (calls.foldl Draft.Call.apply { kind }).build.Lists fun v =>
      if kind = .long ∧ v.kind ≠ .long then []
      else (calls.filter (·.value = v)).map Draft.Call.row := by
  have hrows : (calls.foldl Draft.Call.apply { kind }).build
      = .ofList (some kind) (calls.map fun call => (some call.value, call.row)) := by
    rw [Draft.build, Postings.ofList, List.foldl_map]
    exact (List.foldl_hom Draft.rows fun d call => (d.rows_apply call).symm).symm
  have hfound : Postings.found (some kind) (calls.map fun call => (some call.value, call.row))
      = fun v => if kind = .long ∧ v.kind ≠ .long then []
          else (calls.filter (·.value = v)).map Draft.Call.row := by
    funext v
    rw [Postings.found, Postings.under, List.filter_map, List.map_map]
    simp only [Function.comp_def, Option.some_inj]
  rw [hrows, ← hfound]
  exact Postings.lists_ofList (some kind) _

end Index

/-! ## Indexes of columns -/

theorem Index.rowNumber_of_lt {row : Nat} (h : row < rowNumbers) : rowNumber row = row :=
  Nat.mod_eq_of_lt h

/-- A column of cells is indexed by recording its cells in their order, if there are numbers for all
    of its rows. -/
theorem Column.Holds.index_eq {c : Column} {kind : Kind} {cells : List (Option Value)}
    (hc : c.Holds kind cells) (hroom : cells.length ≤ Index.rowNumbers) :
    Index.ofColumn c = Postings.ofList (some kind) cells.zipIdx := by
  rw [Index.ofColumn, hc.kind', Postings.ofList]
  split
  · rename_i hlong
    -- Where there are longs only, reading a cell as a long misses nothing.
    have hread (d : Index.Draft) (row : Nat) (hrow : row ∈ List.range cells.length) :
        d.addNumber (c.getInteger? row, Index.rowNumber row)
          = d.addCell (cells[row]?.join, row) := by
      rw [Index.rowNumber_of_lt (Nat.lt_of_lt_of_le (List.mem_range.1 hrow) hroom),
        hc.getInteger?_eq]
      cases hcell : cells[row]?.join with
      | none => rfl
      | some v =>
        have hv := hc.kind_of_mem (List.mem_of_getElem? (Option.join_eq_some_iff.1 hcell))
        obtain ⟨n, rfl⟩ := Value.exists_long_of_kind (hv.trans hlong)
        exact d.addLong_eq n row
    have hrows := Index.Draft.rows_foldl_addCell { kind } cells.zipIdx
    rw [zipIdx_eq_map, List.foldl_map] at hrows
    rw [Index.Draft.build, hc.size', List.foldl_ext _ _ _ hread, zipIdx_eq_map]
    exact hrows
  · have hrecord (d : Index.Draft) (cell : Option Value × Nat) (hcell : cell ∈ cells.zipIdx) :
        d.addCell (cell.1, Index.rowNumber cell.2) = d.addCell cell := by
      obtain ⟨hrow, -⟩ := List.getElem?_eq_some_iff.1 (List.mk_mem_zipIdx_iff_getElem?.1 hcell)
      rw [Index.rowNumber_of_lt (Nat.lt_of_lt_of_le hrow hroom)]
    rw [Index.Draft.build, hc.toList_eq, List.foldl_ext _ _ _ hrecord,
      Index.Draft.rows_foldl_addCell]

theorem Column.Holds.lists_index {c : Column} {kind : Kind} {cells : List (Option Value)}
    (hc : c.Holds kind cells) (hroom : cells.length ≤ Index.rowNumbers) :
    (Index.ofColumn c).Lists (positionsOf cells) := by
  have hfound : Postings.found (some kind) cells.zipIdx = positionsOf cells := by
    rw [Postings.found_eq_under]
    · funext v
      exact under_zipIdx cells v
    · intro v row hmem hlong
      rw [hc.kind_of_mem (List.mem_of_getElem? (List.mk_mem_zipIdx_iff_getElem?.1 hmem))]
      exact Option.some_inj.1 hlong
  rw [hc.index_eq hroom, ← hfound]
  exact Postings.lists_ofList (some kind) _

namespace Index

/-- The index has under each value the rows of the column that hold it. -/
structure Inverts (i : Index) (c : Column) : Prop where
  find_eq : ∀ v, i.find v = (List.range c.size).filter fun row => c.get? row = some v
  ascending : ∀ v, (i.find v).Pairwise (· < ·)
  mem_find : ∀ v row, row ∈ i.find v ↔ c.get? row = some v
  /-- Each value is listed once, and is one that some row holds. -/
  nodup_values : i.values.Nodup
  mem_values : ∀ v, v ∈ i.values ↔ ∃ row, c.get? row = some v
  /-- There is a group for each of the values, of the rows that hold it. -/
  groups_eq : i.groups = i.values.map fun v => (v, i.find v)
  ne_nil : ∀ group ∈ i.groups, group.2 ≠ []
  disjoint : (i.groups.map Prod.snd).Pairwise List.Disjoint
  /-- A row is in some group if it has a value. -/
  covers : ∀ row, (∃ group ∈ i.groups, row ∈ group.2) ↔ (c.get? row).isSome
  size_eq : i.size = i.groups.length

variable {c : Column} {kind : Kind} {cells : List (Option Value)}

theorem inverts_ofColumn (hc : c.Holds kind cells) (hroom : c.size ≤ rowNumbers) :
    Inverts (.ofColumn c) c := by
  have hlists := hc.lists_index (hc.size' ▸ hroom)
  have hfind (v : Value) : (ofColumn c).find v
      = (List.range c.size).filter fun row => c.get? row = some v := by
    rw [hlists.find_eq, positionsOf, hc.size']
    simp only [hc.get?_eq]
  have hmem (v : Value) (row : Nat) : row ∈ (ofColumn c).find v ↔ c.get? row = some v := by
    rw [hfind, List.mem_filter, decide_eq_true_iff, List.mem_range, and_iff_right_iff_imp]
    intro hrow
    refine Nat.lt_of_not_le fun hle => ?_
    rw [hc.get?_eq, List.getElem?_eq_none (hc.size' ▸ hle)] at hrow
    exact absurd hrow nofun
  have hvalues (v : Value) : v ∈ (ofColumn c).values ↔ ∃ row, c.get? row = some v := by
    rw [hlists.mem_values, ← hlists.find_eq, ← List.length_pos_iff, List.length_pos_iff_exists_mem]
    simp only [hmem]
  have hgroups : (ofColumn c).groups = (ofColumn c).values.map fun v => (v, (ofColumn c).find v) :=
    Postings.groups_eq_map _
  refine ⟨hfind, fun v => ?_, hmem, hlists.nodup_values, hvalues, hgroups, ?_, ?_, fun row => ?_,
    ?_⟩
  · rw [hfind]
    exact List.pairwise_lt_range.filter _
  · rintro ⟨v, rows⟩ hgroup
    exact ((hlists.groups.mem_iff v rows).1 hgroup).2
  -- A row holds one value only, so it is in the group of this value and in no other.
  · rw [hgroups, List.map_map, List.pairwise_map]
    refine hlists.nodup_values.imp fun {v w} hne row hv hw => hne ?_
    exact Option.some_inj.1 (((hmem v row).1 hv).symm.trans ((hmem w row).1 hw))
  · simp only [hgroups, List.mem_map, Option.isSome_iff_exists, ← hmem]
    constructor
    · rintro ⟨_, ⟨v, -, rfl⟩, hrow⟩
      exact ⟨v, hrow⟩
    · rintro ⟨v, hrow⟩
      exact ⟨_, ⟨v, (hvalues v).2 ⟨row, (hmem v row).1 hrow⟩, rfl⟩, hrow⟩
  · rw [hlists.size_eq, hgroups, List.length_map]

/-- Whatever calls record rows, the rows under a value are those that were recorded with it, in the
    order of the calls; to record a long as a long or as a value is one, and an index of longs has
    nothing under other values.

    The index of a column of segments that come up is its inverse, if there are numbers for all of
    its rows. -/
theorem inverts :
    (∀ (kind : Kind) (calls : List Draft.Call) (v : Value),
      (calls.foldl Draft.Call.apply { kind }).build.find v
        = if kind = .long ∧ v.kind ≠ .long then []
          else (calls.filter (·.value = v)).map Draft.Call.row) ∧
      (∀ (d : Draft) (n : Int64) (row : Nat), d.addLong n row = d.add (.long n) row) ∧
      ∀ (kind : Kind) (segments : Array Segment) (size : Nat) (c : Column),
        (∀ s ∈ segments, s.Reachable) → Column.ofSegments kind segments size = .ok c →
          c.size ≤ rowNumbers → Inverts (.ofColumn c) c := by
  refine ⟨fun kind calls => (lists_run kind calls).find_eq, Draft.addLong_eq, ?_⟩
  intro kind segments size c hreachable hc hroom
  obtain ⟨hlayout, rfl⟩ := Column.ofSegments_eq_ok_iff.1 hc
  exact inverts_ofColumn (hlayout.holds hreachable) hroom

/-- A column with a long in two of its rows and none between. -/
theorem inverts_longs :
    let segments := (run Column.Edit.apply
      [.append (some (.long 7)), .append none, .append (some (.long 7))]
      ({ kind := .long } : Column.Draft)).2.segments
    (∀ s ∈ segments, s.Reachable) ∧
      ∃ c, Column.ofSegments .long segments 3 = .ok c ∧ c.size ≤ rowNumbers ∧
        Inverts (.ofColumn c) c ∧ (ofColumn c).find (.long 7) = [0, 2] := by
  intro segments
  have hreachable : ∀ s ∈ segments, s.Reachable := Column.Draft.run_reachable _ _
  have hrows : (Column.ofSegments .long segments 3).map (fun c => (c.size,
      (List.range c.size).filter fun row => c.get? row = some (.long 7))) = .ok (3, [0, 2]) := by
    decide +kernel
  cases hc : Column.ofSegments .long segments 3 with
  | error e =>
    rw [hc] at hrows
    exact absurd hrows nofun
  | ok c =>
    rw [hc] at hrows
    obtain ⟨hsize, hfind⟩ := Prod.mk.inj (Except.ok.inj hrows)
    have hroom : c.size ≤ rowNumbers := by
      rw [hsize]
      decide
    have hinverts := inverts.2.2 .long segments 3 c hreachable hc hroom
    exact ⟨hreachable, c, rfl, hroom, hinverts, (hinverts.find_eq _).trans hfind⟩

end Index

end ColumnStore

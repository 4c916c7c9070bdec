import ColumnStore.Proofs.Column.Draft
import ColumnStore.Proofs.Keys
import ColumnStore.Proofs.Table.Basic
import ColumnStore.Table.Draft

/-!
# Drafts of tables as lists of entries

A draft holds the entries of its rows in the order in which they have come (`Draft.Holds`). What
an add can do to them is said once, by `AddStep`: which of its cases applies depends on the
entries, on whether their ids have ascended, and on the call, but not on how the ids are kept or
the columns are encoded (`Holds.add`).
-/

namespace ColumnStore.Table

/-- The ids that came agree with what is kept of them. -/
def Arrival.Tracks : Arrival → List Int64 → Prop
  | .ascending last, ids => last = ids.getLast? ∧ ids.Pairwise (· < ·)
  | .scattered seen, ids => ∀ id, id ∈ seen ↔ id ∈ ids

/-- One more new id came, and not late if the ids are to ascend. -/
theorem Arrival.Tracks.insert {arrival : Arrival} {ids : List Int64} {id : Int64}
    (h : arrival.Tracks ids)
    (hnext : ∀ last, arrival = .ascending last → ∀ k ∈ ids, k < id) :
    (arrival.insert id).Tracks (ids ++ [id]) := by
  cases arrival with
  | ascending last =>
    refine ⟨List.getLast?_concat.symm,
      List.pairwise_append.2 ⟨h.2, List.pairwise_singleton _ _, ?_⟩⟩
    intro k hk k' hk'
    rw [List.mem_singleton.1 hk']
    exact hnext last rfl k hk
  | scattered seen =>
    intro k
    rw [Std.HashSet.mem_insert, h k, List.mem_append, List.mem_singleton, beq_iff_eq, or_comm,
      eq_comm]

namespace Draft

/-- The draft holds a list of entries in its columns. -/
structure Holds (d : Draft) (entityType : EntityType) (schema : Schema) (entries : List Entry) :
    Prop where
  entityType_eq : d.entityType = entityType
  schema_eq : d.schema = schema
  columns : List.Forall₂ (fun (c : Column.Draft) a => c.Holds a.kind (entries.map (·.value a)))
    (d.ids :: d.columns) schema.attributes
  nodup : (entries.map Entry.id).Nodup
  room : entries.length ≤ maxRows
  arrival : d.arrival.Tracks (entries.map Entry.id)

variable {d : Draft} {entityType : EntityType} {schema : Schema} {entries : List Entry}
  {id : Int64} {row : Nat} {values : Attribute → Option Value}

/-- A new draft holds no entries. -/
theorem holds_nil (entityType : EntityType) (schema : Schema) (settings : Settings) :
    Holds { entityType, schema, settings } entityType schema [] where
  entityType_eq := rfl
  schema_eq := rfl
  columns := by
    refine .cons (Column.Draft.holds_nil .long) ?_
    rw [List.forall₂_map_left_iff, List.forall₂_same]
    exact fun a _ => Column.Draft.holds_nil a.kind
  nodup := List.nodup_nil
  room := Nat.zero_le _
  arrival := ⟨rfl, .nil⟩

/-- Values that a schema can take in a row. -/
def Fits (schema : Schema) (values : Attribute → Option Value) : Prop :=
  ∀ a ∈ schema.named, ∀ v ∈ values a, v.kind = a.kind

/-! ## The values of an entity -/

/-- The value for an attribute is one that a field has for it. -/
theorem mem_of_cellOf {fields : List (Attribute × Value)} {a : Attribute} {v : Value}
    (h : cellOf fields a = some v) : (a, v) ∈ fields := by
  revert h
  rw [cellOf]
  refine List.foldlRecOn (motive := fun cell => cell = some v → (a, v) ∈ fields) fields _ nofun ?_
  rintro cell ih ⟨b, w⟩ hfield h
  dsimp only at h
  split at h
  · rename_i hb
    rwa [← hb, ← Option.some_inj.1 h]
  · exact ih h

/-- Without a misfit all values are of the kinds of their attributes. -/
theorem fits_cellOf {fields : List (Attribute × Value)} (h : misfit? schema fields = none) :
    Fits schema (cellOf fields) := by
  intro a ha v hv
  have := List.findSome?_eq_none_iff.1 h (a, v) (mem_of_cellOf hv)
  simpa [ha, Kind.accepts] using this

/-- A cell is written to each column. -/
theorem writeCells_ok
    (write : Column.Draft → Option Value → Except WriteError Unit × Column.Draft)
    (values : Attribute → Option Value) (after : Attribute → List (Option Value))
    {before : Attribute → List (Option Value)} {attributes : List Attribute}
    {columns : List Column.Draft}
    (hcolumns : List.Forall₂ (fun (c : Column.Draft) a => c.Holds a.kind (before a)) columns
      attributes)
    (hwrite : ∀ c : Column.Draft, ∀ a ∈ attributes, c.Holds a.kind (before a) →
      ∃ c', write c (values a) = (.ok (), c') ∧ c'.Holds a.kind (after a)) :
    ∃ columns', writeCells write columns (attributes.map values) = (.ok (), columns') ∧
      List.Forall₂ (fun (c : Column.Draft) a => c.Holds a.kind (after a)) columns' attributes := by
  induction hcolumns with
  | nil => exact ⟨[], rfl, .nil⟩
  | @cons c a columns attributes hc _ ih =>
    obtain ⟨c', hwritten, hc'⟩ := hwrite c a List.mem_cons_self hc
    obtain ⟨columns', hrest, hcolumns'⟩ := ih fun c a ha => hwrite c a (List.mem_cons_of_mem _ ha)
    refine ⟨c' :: columns', ?_, .cons hc' hcolumns'⟩
    rw [List.map_cons, writeCells, hwritten]
    simp only [hrest]

/-- How an id may stand to ids that have ascended so far or not. -/
inductive Standing.Of (ids : List Int64) (sorted : Bool) (id : Int64) : Standing → Prop where
  | next : id ∉ ids → (sorted = true → ∀ k ∈ ids, k < id) → Of ids sorted id .next
  | late : sorted = true → id ∉ ids → (∃ k ∈ ids, id < k) → Of ids sorted id .late
  | held {row : Nat} : sorted = true → ids[row]? = some id → Of ids sorted id (.held row)
  | known : sorted = false → id ∈ ids → Of ids sorted id .known

/-- The last of ascending ids is the largest. -/
theorem le_getLast_of_pairwise {ids : List Int64} {last : Int64} (h : ids.Pairwise (· < ·))
    (hlast : ids.getLast? = some last) : ∀ k ∈ ids, k ≤ last := by
  obtain ⟨init, rfl⟩ := List.getLast?_eq_some_iff.1 hlast
  intro k hk
  rcases List.mem_append.1 hk with hk | hk
  · exact Int64.le_of_lt ((List.pairwise_append.1 h).2.2 k hk last List.mem_cons_self)
  · rw [List.mem_singleton.1 hk]
    exact Int64.le_refl _

/-- One more new id does not change whether the ids are taken to ascend. -/
theorem isSorted_of_arrival {d' : Draft} (h : d'.arrival = d.arrival.insert id) :
    d'.isSorted = d.isSorted := by
  rw [isSorted, isSorted, h]
  cases d.arrival <;> rfl

/-- The ids that rows have are put into a set. -/
theorem mem_foldl_insert {idOf : Nat → Option Int64} (rows : List Nat) (seen : Std.HashSet Int64) :
    id ∈ rows.foldl (fun seen row =>
      match idOf row with
      | some id => seen.insert id
      | none => seen) seen ↔ id ∈ seen ∨ ∃ row ∈ rows, idOf row = some id := by
  induction rows generalizing seen with
  | nil => simp
  | cons row rest ih =>
    rw [List.foldl_cons, ih]
    cases hrow : idOf row with
    | none => simp [hrow]
    | some id' => simp [hrow, or_assoc, or_left_comm]

namespace Holds

variable (hd : d.Holds entityType schema entries)
include hd

theorem ids_holds : d.ids.Holds .long (entries.map fun e => some (.long e.id)) := by
  rw [← Entry.map_value_entityId]
  exact (List.forall₂_cons.1 hd.columns).1

theorem named_holds : List.Forall₂
    (fun (c : Column.Draft) a => c.Holds a.kind (entries.map (·.value a))) d.columns schema.named :=
  (List.forall₂_cons.1 hd.columns).2

theorem size_eq : d.size = entries.length := by
  rw [size, hd.ids_holds.size_eq_length, List.length_map]

theorem getInteger?_ids (p : Nat) : d.ids.getInteger? p = entries[p]?.map Entry.id := by
  rw [hd.ids_holds.getInteger?_eq, List.getElem?_map]
  cases entries[p]? <;> rfl

theorem idAt_eq (p : Nat) : d.idAt p = ((entries.map Entry.id)[p]?).getD 0 := by
  rw [idAt, hd.getInteger?_ids, List.getElem?_map]

/-! ## Ids -/

theorem pairwise_of_isSorted (hsorted : d.isSorted = true) :
    (entries.map Entry.id).Pairwise (· < ·) := by
  have harrival := hd.arrival
  rw [isSorted] at hsorted
  cases hkept : d.arrival with
  | ascending last =>
    rw [hkept] at harrival
    exact harrival.2
  | scattered seen =>
    rw [hkept] at hsorted
    exact absurd hsorted nofun

theorem ascend (hids : (entries.map Entry.id).Pairwise (· < ·)) : Ascend d.size d.idAt := by
  have hidAt : d.idAt = fun p => (entries.map Entry.id)[p]?.getD 0 := funext hd.idAt_eq
  rw [hidAt, hd.size_eq, ← List.length_map Entry.id]
  exact ascend_getElem? hids

theorem mem_idSet : id ∈ d.idSet ↔ id ∈ entries.map Entry.id := by
  refine (mem_foldl_insert (List.range d.size) ∅).trans ?_
  rw [List.mem_map]
  simp only [Std.HashSet.not_mem_empty, false_or, List.mem_range, hd.getInteger?_ids,
    Option.map_eq_some_iff]
  constructor
  · rintro ⟨row, -, e, he, heq⟩
    exact ⟨e, List.mem_of_getElem? he, heq⟩
  · rintro ⟨e, he, heq⟩
    obtain ⟨row, hrow, rfl⟩ := List.getElem_of_mem he
    exact ⟨row, hd.size_eq ▸ hrow, entries[row], List.getElem?_eq_getElem hrow, heq⟩

/-- From now on the ids are kept in a set. -/
theorem scatter : d.scatter.Holds entityType schema entries where
  entityType_eq := hd.entityType_eq
  schema_eq := hd.schema_eq
  columns := hd.columns
  nodup := hd.nodup
  room := hd.room
  arrival := fun _ => hd.mem_idSet

/-- How an id stands to those of the entries. -/
theorem standing_of (id : Int64) : (d.standing id).Of (entries.map Entry.id) d.isSorted id := by
  have harrival := hd.arrival
  rw [standing, isSorted]
  cases hkept : d.arrival with
  | scattered seen =>
    rw [hkept] at harrival
    by_cases hid : id ∈ entries.map Entry.id
    · simp only [Std.HashSet.mem_iff_contains.1 ((harrival id).2 hid), if_true]
      exact .known rfl hid
    · have hseen : ¬seen.contains id := by
        rwa [← Std.HashSet.mem_iff_contains, harrival]
      simp only [hseen]
      exact .next hid nofun
  | ascending last =>
    rw [hkept] at harrival
    obtain ⟨hlast, hascend⟩ := harrival
    cases last with
    | none =>
      have hnil : entries.map Entry.id = [] := List.getLast?_eq_none_iff.1 hlast.symm
      rw [hnil]
      exact .next List.not_mem_nil fun _ _ h => absurd h List.not_mem_nil
    | some last =>
      have hle := le_getLast_of_pairwise hascend hlast.symm
      by_cases hid : last < id
      · have hlt (k : Int64) (hk : k ∈ entries.map Entry.id) : k < id :=
          Int64.lt_of_le_of_lt (hle k hk) hid
        simp only [hid, if_true]
        exact .next (fun h => Int64.lt_irrefl (hlt id h)) fun _ => hlt
      -- The ids ascend, so that the search finds the row of the id if there is one.
      · have hsearch := search_isPlace (hd.ascend hascend) id
        simp only [hid, if_false]
        cases hplace : search d.size id d.idAt with
        | held row =>
          rw [hplace] at hsearch
          obtain ⟨hrow, heq⟩ := hsearch
          rw [hd.size_eq, ← List.length_map] at hrow
          rw [hd.idAt_eq, List.getElem?_eq_getElem hrow, Option.getD_some] at heq
          exact .held rfl (by rw [List.getElem?_eq_getElem hrow, heq])
        | vacant row =>
          have hnot : id ∉ entries.map Entry.id := fun h => by
            obtain ⟨p, hp, heq⟩ := List.getElem_of_mem h
            have := (position?_search_eq_none (hd.ascend hascend)).1
              (by rw [hplace]; rfl : (search d.size id d.idAt).position? = none) p
              (by rw [hd.size_eq, ← List.length_map]; exact hp)
            rw [hd.idAt_eq, List.getElem?_eq_getElem hp, Option.getD_some] at this
            exact this heq
          have hmem : last ∈ entries.map Entry.id := List.mem_of_getLast? hlast.symm
          have hlt : id < last := Std.lt_of_le_of_ne (Int64.not_lt.1 hid) fun h => hnot (h ▸ hmem)
          exact .late rfl hnot ⟨last, hmem, hlt⟩

/-! ## Rows -/

/-- A row with a new id comes at the end. -/
theorem appendRow (hroom : entries.length < maxRows) (hfits : Fits schema values)
    (hid : id ∉ entries.map Entry.id)
    (harrival : (d.arrival.insert id).Tracks (entries.map Entry.id ++ [id])) :
    ∃ d', d.appendRow id (schema.named.map values) = (.ok .added, d') ∧
      d'.Holds entityType schema (entries ++ [⟨id, values⟩]) ∧
      d'.arrival = d.arrival.insert id := by
  obtain ⟨ids, hids, hids'⟩ := hd.ids_holds.append (some (.long id)) fun v hv =>
    Option.some_inj.1 hv ▸ rfl
  obtain ⟨columns, hcolumns, hcolumns'⟩ := writeCells_ok Column.Draft.append values
    (fun a => (entries ++ [(⟨id, values⟩ : Entry)]).map (·.value a)) hd.named_holds
    fun c a ha hc => by
      rw [List.map_append, List.map_singleton, Entry.value_of_mem_named _ ha]
      exact hc.append _ (hfits a ha)
  refine ⟨{ d with ids, columns, arrival := d.arrival.insert id }, ?_, ?_, rfl⟩
  · rw [Draft.appendRow, if_neg (by rw [hd.size_eq]; exact Nat.not_le.2 hroom)]
    simp only [hids, hcolumns]
  · exact
      { entityType_eq := hd.entityType_eq
        schema_eq := hd.schema_eq
        columns := by
          refine .cons ?_ hcolumns'
          rw [Entry.map_value_entityId, List.map_append]
          exact hids'
        nodup := by
          rw [List.map_append, List.map_singleton, List.nodup_append]
          refine ⟨hd.nodup, List.pairwise_singleton _ _, fun k hk k' hk' heq => hid ?_⟩
          have : k = id := heq.trans (List.mem_singleton.1 hk')
          exact this ▸ hk
        room := by
          rw [List.length_append, List.length_singleton]
          exact hroom
        arrival := by rwa [List.map_append, List.map_singleton] }

/-- Without room no row is added. -/
theorem appendRow_full (cells : List (Option Value)) (hfull : maxRows ≤ entries.length) :
    d.appendRow id cells = (.error (.rowLimit (entries.length + 1) maxRows), d) := by
  rw [Draft.appendRow, hd.size_eq, if_pos hfull]

/-- All of a row but its id is overwritten. -/
theorem overwriteRow {e : Entry} (hrow : entries[row]? = some e) (hfits : Fits schema values) :
    ∃ d', d.overwriteRow row (schema.named.map values) = (.ok .replaced, d') ∧
      d'.Holds entityType schema (entries.set row ⟨e.id, values⟩) ∧ d'.arrival = d.arrival := by
  have hids : (entries.set row ⟨e.id, values⟩).map Entry.id = entries.map Entry.id :=
    map_set_key hrow rfl
  obtain ⟨hlt, rfl⟩ := List.getElem?_eq_some_iff.1 hrow
  obtain ⟨columns, hcolumns, hcolumns'⟩ := writeCells_ok (·.set row ·) values
    (fun a => (entries.set row ⟨entries[row].id, values⟩).map (·.value a)) hd.named_holds
    fun c a ha hc => by
      rw [List.map_set, Entry.value_of_mem_named _ ha]
      exact hc.set (by rwa [List.length_map]) (hfits a ha)
  refine ⟨{ d with columns }, ?_, ?_, rfl⟩
  · simp only [Draft.overwriteRow, hcolumns]
    rfl
  · have hcells : (entries.set row ⟨entries[row].id, values⟩).map (·.value .entityId)
        = entries.map fun e => some (.long e.id) := by
      have := congrArg (List.map fun id => some (Value.long id)) hids
      rw [List.map_map, List.map_map] at this
      rw [Entry.map_value_entityId]
      exact this
    exact
      { entityType_eq := hd.entityType_eq
        schema_eq := hd.schema_eq
        columns := .cons (hcells ▸ hd.ids_holds) hcolumns'
        nodup := hids ▸ hd.nodup
        room := by
          rw [List.length_set]
          exact hd.room
        arrival := by
          rw [hids]
          exact hd.arrival }

end Holds

/-! ## Adding -/

/-- What an add can do to entries whose ids have ascended so far or not. -/
inductive AddStep (schema : Schema) (entries : List Entry) (sorted : Bool) (id : Int64)
    (fields : List (Attribute × Value)) (replace : Bool) :
    Except StoreError AddOutcome → List Entry → Bool → Prop where
  /-- A field has a value of another kind than its attribute's. -/
  | misfit {e : SchemaError} : misfit? schema fields = some e →
      AddStep schema entries sorted id fields replace (.error (.schema e)) entries sorted
  /-- There is no room for a new id. It may be noted that it is late. -/
  | full {sorted' : Bool} : misfit? schema fields = none → id ∉ entries.map Entry.id →
      maxRows ≤ entries.length →
      AddStep schema entries sorted id fields replace
        (.error (.rowLimit (entries.length + 1) maxRows)) entries sorted'
  /-- A new id comes at the end, and the ids still ascend if it is the largest. -/
  | added : misfit? schema fields = none → id ∉ entries.map Entry.id →
      entries.length < maxRows →
      AddStep schema entries sorted id fields replace (.ok .added)
        (entries ++ [⟨id, cellOf fields⟩]) (sorted && entries.all (·.id < id))
  /-- The row of a known id is overwritten. -/
  | replaced {row : Nat} {e : Entry} : misfit? schema fields = none → sorted = true →
      replace = true → entries[row]? = some e → e.id = id →
      AddStep schema entries sorted id fields replace (.ok .replaced)
        (entries.set row ⟨id, cellOf fields⟩) true
  /-- The row of a known id is not found any more. -/
  | refused : misfit? schema fields = none → sorted = false → replace = true →
      id ∈ entries.map Entry.id →
      AddStep schema entries sorted id fields replace (.error (.replaceUnsorted id)) entries false
  /-- A known id is left out. -/
  | dropped : misfit? schema fields = none → replace = false → id ∈ entries.map Entry.id →
      AddStep schema entries sorted id fields replace (.ok .dropped) entries sorted

/-- An add brings no value into the entries but those of the entity. -/
theorem AddStep.all {P : Value → Prop} {entries' : List Entry} {sorted sorted' replace : Bool}
    {fields : List (Attribute × Value)} {outcome : Except StoreError AddOutcome}
    (hstep : AddStep schema entries sorted id fields replace outcome entries' sorted')
    (hall : ∀ e ∈ entries, e.All P) (hfields : ∀ field ∈ fields, P field.2) :
    ∀ e ∈ entries', e.All P := by
  have hnew : (⟨id, cellOf fields⟩ : Entry).All P :=
    fun a v hv => hfields (a, v) (mem_of_cellOf hv)
  cases hstep with
  | misfit | full | refused | dropped => exact hall
  | added =>
    intro e he
    rcases List.mem_append.1 he with he | he
    · exact hall e he
    · rwa [List.mem_singleton.1 he]
  | replaced =>
    intro e he
    rcases List.mem_or_eq_of_mem_set he with he | rfl
    · exact hall e he
    · exact hnew

namespace Holds

variable (hd : d.Holds entityType schema entries)
include hd

/-- A new id comes at the end if there is room. -/
theorem exists_appendRow {fields : List (Attribute × Value)} {replace sorted : Bool}
    (hmisfit : misfit? schema fields = none) (hid : id ∉ entries.map Entry.id)
    (hsorted : d.isSorted = (sorted && entries.all (·.id < id))) :
    ∃ entries', (d.appendRow id (schema.named.map (cellOf fields))).2.Holds entityType schema
        entries' ∧
      AddStep schema entries sorted id fields replace
        (d.appendRow id (schema.named.map (cellOf fields))).1 entries'
        (d.appendRow id (schema.named.map (cellOf fields))).2.isSorted := by
  by_cases hroom : entries.length < maxRows
  -- If ids are still taken to ascend, then they do so with the new one, too.
  · have hnext (last : Option Int64) (hlast : d.arrival = .ascending last) :
        ∀ k ∈ entries.map Entry.id, k < id := by
      have hall : d.isSorted = true := by rw [isSorted, hlast]
      rw [hsorted, Bool.and_eq_true, List.all_eq_true] at hall
      intro k hk
      obtain ⟨e, he, rfl⟩ := List.mem_map.1 hk
      exact of_decide_eq_true (hall.2 e he)
    have harrival := hd.arrival.insert hnext
    obtain ⟨d', happend, hd', harrival'⟩ := hd.appendRow hroom (fits_cellOf hmisfit) hid harrival
    rw [happend, isSorted_of_arrival harrival', hsorted]
    exact ⟨_, hd', .added hmisfit hid hroom⟩
  · rw [hd.appendRow_full _ (Nat.le_of_not_lt hroom)]
    exact ⟨entries, hd, .full hmisfit hid (Nat.le_of_not_lt hroom)⟩

/-- Adding an entity takes one of the steps. -/
theorem add {ε : Type} [Entity ε] (e : ε) (replace : Bool) :
    ∃ entries', (d.add e replace).2.Holds entityType schema entries' ∧
      AddStep schema entries d.isSorted (Entity.id e) (Entity.fields e) replace
        (d.add e replace).1 entries' (d.add e replace).2.isSorted := by
  rw [Draft.add, hd.schema_eq, cellsOf]
  cases hmisfit : misfit? schema (Entity.fields e) with
  | some err => exact ⟨entries, hd, .misfit hmisfit⟩
  | none =>
    have hstanding := hd.standing_of (Entity.id e)
    dsimp only
    generalize d.standing (Entity.id e) = standing at hstanding ⊢
    cases hstanding with
    | next hid hlt =>
      refine hd.exists_appendRow hmisfit hid ?_
      cases hsorted : d.isSorted with
      | false => rfl
      | true =>
        refine (List.all_eq_true.2 ?_).symm
        intro e' he'
        exact decide_eq_true (hlt hsorted _ (List.mem_map_of_mem he'))
    | late _ hid hlate =>
      -- The row is appended to a draft that holds the same entries, but keeps their ids in a set.
      refine hd.scatter.exists_appendRow hmisfit hid ?_
      obtain ⟨k, hk, hlt⟩ := hlate
      obtain ⟨e', he', rfl⟩ := List.mem_map.1 hk
      have : entries.all (·.id < Entity.id e) = false :=
        List.all_eq_false.2 ⟨e', he', by simpa using Int64.le_of_lt hlt⟩
      rw [this, Bool.and_false]
      rfl
    | @held row hsorted hrow =>
      rw [List.getElem?_map, Option.map_eq_some_iff] at hrow
      obtain ⟨old, hold, heq⟩ := hrow
      cases replace with
      | false =>
        exact ⟨entries, hd, .dropped hmisfit rfl
          (List.mem_map.2 ⟨old, List.mem_of_getElem? hold, heq⟩)⟩
      | true =>
        obtain ⟨d', hwritten, hd', harrival⟩ := hd.overwriteRow hold (fits_cellOf hmisfit)
        have hsorted' : d'.isSorted = true := by rw [isSorted, harrival, ← isSorted, hsorted]
        simp only [if_true, hwritten, hsorted']
        rw [heq] at hd'
        exact ⟨_, hd', .replaced hmisfit hsorted rfl hold heq⟩
    | known hsorted hid =>
      cases replace with
      | false => exact ⟨entries, hd, .dropped hmisfit rfl hid⟩
      | true =>
        simp only [if_true, hsorted]
        exact ⟨entries, hd, .refused hmisfit rfl rfl hid⟩

end Holds

end Draft

end ColumnStore.Table

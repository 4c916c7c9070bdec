import ColumnStore.Proofs.Table.Draft
import ColumnStore.Proofs.Table.Exchanges
import Mathlib.Data.List.Perm.Basic

/-!
# Building tables

A draft that holds entries is built without fail to a table of those entries in ascending order
of their ids (`Draft.Holds.build`), whatever indexes were asked for. Before, it can be peeked at
any time, and then the entries are in the order in which they have come
(`Draft.Holds.peek`).
-/

namespace ColumnStore

/-- What succeeds for all members of a list succeeds for the list. -/
theorem exists_mapM {α β γ ε : Type} {f : α → Except ε β} {R : α → γ → Prop} {xs : List α}
    {zs : List γ} (S : β → γ → Prop) (h : List.Forall₂ R xs zs)
    (hf : ∀ x z, R x z → ∃ y, f x = .ok y ∧ S y z) :
    ∃ ys, xs.mapM f = .ok ys ∧ List.Forall₂ S ys zs := by
  induction h with
  | nil => exact ⟨[], rfl, .nil⟩
  | @cons x z xs zs hxz _ ih =>
    obtain ⟨y, hy, hyz⟩ := hf x z hxz
    obtain ⟨ys, hys, hrest⟩ := ih
    exact ⟨y :: ys, by rw [List.mapM_cons, hy, hys]; rfl, .cons hyz hrest⟩

namespace Table

variable {entityType : EntityType} {schema : Schema} {entries : List Entry}

/-! ## Entries in order -/

/-- The entries that an order names. -/
def arrange (entries : List Entry) (order : List Nat) : List Entry :=
  order.filterMap (entries[·]?)

theorem map_arrange {α : Type} {order : List Nat} (f : Entry → Option α)
    (horder : ∀ k ∈ order, k < entries.length) :
    (arrange entries order).map f = order.map fun k => (entries.map f)[k]?.join := by
  induction order with
  | nil => rfl
  | cons k rest ih =>
    have hk := horder k List.mem_cons_self
    rw [arrange, List.filterMap_cons_some (List.getElem?_eq_getElem hk), List.map_cons,
      List.map_cons, ← ih fun k hk => horder k (List.mem_cons_of_mem _ hk), List.getElem?_map,
      List.getElem?_eq_getElem hk, Option.map_some, Option.join_some]
    rfl

theorem arrange_range (entries : List Entry) :
    arrange entries (List.range entries.length) = entries := by
  have hmap : (List.range entries.length).map (entries[·]?) = entries.map some :=
    List.ext_getElem (by simp) fun k hk _ => by
      rw [List.length_map, List.length_range] at hk
      simp [List.getElem?_eq_getElem hk]
  calc arrange entries (List.range entries.length)
      = ((List.range entries.length).map (entries[·]?)).filterMap id := by
        rw [List.filterMap_map]
        rfl
    _ = entries := by
        rw [hmap, List.filterMap_map]
        exact List.filterMap_some

theorem arrange_perm {order : List Nat} (horder : order.Perm (List.range entries.length)) :
    (arrange entries order).Perm entries := by
  have := horder.filterMap (entries[·]?)
  rwa [← arrange, ← arrange, arrange_range] at this

/-- Entries with different ids ascend in the order of their ids. -/
theorem pairwise_arrange {keys : Array Int64} (hnodup : (entries.map Entry.id).Nodup)
    (hsize : keys.size = entries.length)
    (hkeys : ∀ k e, entries[k]? = some e → keys.getD k 0 = e.id) :
    ((arrange entries (sortingOrder keys).toList).map Entry.id).Pairwise (· < ·) := by
  have hle : (arrange entries (sortingOrder keys).toList).Pairwise fun e e' => e.id ≤ e'.id :=
    (pairwise_sortingOrder keys).filterMap _ fun p q hpq e he e' he' => by
      rwa [hkeys p e he, hkeys q e' he'] at hpq
  have hperm := arrange_perm (hsize ▸ sortingOrder_perm keys)
  have hne := (hperm.map Entry.id).nodup_iff.2 hnodup
  exact ((List.pairwise_map.2 hle).and hne).imp fun h => Std.lt_of_le_of_ne h.1 h.2

namespace Draft.Holds

variable {d : Draft} (hd : d.Holds entityType schema entries)
include hd

/-- The rows are sorted without fail. -/
theorem sort : ∃ d' entries', d.sort = .ok d' ∧ d'.Holds entityType schema entries' ∧
    d'.isSorted = true ∧ entries'.Perm entries := by
  obtain ⟨keys, hkeysEq⟩ : ∃ keys, (Array.range d.size).map d.idAt = keys := ⟨_, rfl⟩
  have hsize : keys.size = entries.length := by
    rw [← hkeysEq, Array.size_map, Array.size_range, hd.size_eq]
  have hkeys (k : Nat) (e : Entry) (he : entries[k]? = some e) : keys.getD k 0 = e.id := by
    obtain ⟨hk, -⟩ := List.getElem?_eq_some_iff.1 he
    have hk : k < keys.size := hsize ▸ hk
    have hget : keys.getD k 0 = keys[k] := (Array.getElem_eq_getD _).symm
    subst hkeysEq
    rw [hget, Array.getElem_map, Array.getElem_range, hd.idAt_eq, List.getElem?_map, he,
      Option.map_some, Option.getD_some]
  have horder : (sortingOrder keys).toList.Perm (List.range entries.length) :=
    hsize ▸ sortingOrder_perm keys
  have hlt (k : Nat) (hk : k ∈ (sortingOrder keys).toList) : k < entries.length :=
    List.mem_range.1 (horder.mem_iff.1 hk)
  -- The order comes from the ids, and each column makes the exchanges by itself.
  have hexchange (c : Column.Draft) (a : Attribute)
      (hc : c.Holds a.kind (entries.map (·.value a))) :
      ∃ c', c.exchange (exchanges (sortingOrder keys)) = .ok c' ∧
        c'.Holds a.kind ((arrange entries (sortingOrder keys).toList).map (·.value a)) := by
    rw [map_arrange _ hlt]
    exact hc.exchange (by rwa [List.length_map])
  obtain ⟨ids, hids, hids'⟩ := hexchange d.ids .entityId (List.forall₂_cons.1 hd.columns).1
  obtain ⟨columns, hcolumns, hcolumns'⟩ := exists_mapM _ hd.named_holds hexchange
  have hpairwise := pairwise_arrange hd.nodup hsize hkeys
  have hperm := arrange_perm horder
  refine ⟨{ d with ids, columns, arrival := .ascending (ids.getInteger? (ids.size - 1)) },
    arrange entries (sortingOrder keys).toList, ?_, ?_, rfl, hperm⟩
  · simp only [Draft.sort, hkeysEq, hids, hcolumns]
    rfl
  · exact
      { entityType_eq := hd.entityType_eq
        schema_eq := hd.schema_eq
        columns := .cons hids' hcolumns'
        nodup := (hperm.map Entry.id).nodup_iff.2 hd.nodup
        room := hperm.length_eq ▸ hd.room
        arrival := by
          refine ⟨?_, hpairwise⟩
          rw [hids'.getInteger?_eq, hids'.size_eq_length, List.length_map, List.getElem?_map,
            List.getLast?_map, List.getLast?_eq_getElem?]
          generalize arrange entries (sortingOrder keys).toList = sorted
          cases sorted[sorted.length - 1]? <;> rfl }

end Draft.Holds

/-! ## Tables of columns -/

/-- Columns that hold the values of entries make a table of them. -/
theorem exists_ofColumns {ids : Column} {columns : List Column} {indexes : Array (Option Index)}
    {sorted : Bool} (settings : Settings)
    (hcolumns : List.Forall₂ (Entry.HeldBy entries) (ids :: columns) schema.attributes)
    (hnodup : (entries.map Entry.id).Nodup) (hroom : entries.length ≤ maxRows)
    (hascending : sorted → (entries.map Entry.id).Pairwise (· < ·))
    (hindexes : ∀ i index, indexes.getD i none = some index →
      ∃ c, (ids :: columns)[i]? = some c ∧ index = .ofColumn c) :
    ∃ t, ofColumns entityType schema ids columns.toArray indexes sorted settings = .ok t ∧
      t.Holds entityType schema entries ∧ t.sorted = sorted ∧ t.indexes = indexes := by
  have hlength : columns.length + 1 = schema.size := hcolumns.length_eq
  have hsize : ∀ c ∈ ids :: columns, c.size = entries.length := fun c hc => by
    obtain ⟨i, hi, rfl⟩ := List.getElem_of_mem hc
    have := (hcolumns.get hi (hcolumns.length_eq ▸ hi)).size'
    rwa [List.length_map] at this
  have hragged : ¬columns.toArray.any (·.size ≠ ids.size) := by
    rw [List.any_toArray, List.any_eq_true]
    rintro ⟨c, hc, hne⟩
    refine of_decide_eq_true hne ?_
    rw [hsize c (List.mem_cons_of_mem _ hc), hsize ids List.mem_cons_self]
  refine ⟨{ entityType, schema, ids, columns := columns.toArray, indexes, sorted, settings }, ?_,
    ?_, rfl, rfl⟩
  · rw [ofColumns, if_neg (by rw [List.size_toArray, hlength]; exact fun h => h rfl),
      if_neg hragged]
  · exact
      { entityType_eq := rfl
        schema_eq := rfl
        columns := hcolumns
        nodup := hnodup
        room := hroom
        ascending := hascending
        index_eq := fun i index h => by
          obtain ⟨c, hc, heq⟩ := hindexes i index h
          exact ⟨c, (columnAt?_eq _ i).trans hc, heq⟩ }

/-- The indexes of a table are those of its columns. -/
theorem indexesOf_eq (indexed : PositionSet) (columns : List Column) (i : Nat) (index : Index)
    (h : (Draft.indexesOf indexed columns).toArray.getD i none = some index) :
    ∃ c, columns[i]? = some c ∧ index = .ofColumn c := by
  rw [Array.getD_eq_getD_getElem?, List.getElem?_toArray, Draft.indexesOf, List.getElem?_map,
    List.getElem?_zipIdx] at h
  cases hc : columns[i]? with
  | none =>
    rw [hc] at h
    exact absurd h nofun
  | some c =>
    rw [hc] at h
    refine ⟨c, rfl, ?_⟩
    simp only [Option.map_some, Option.getD_some] at h
    split at h
    · exact (Option.some_inj.1 h).symm
    · exact absurd h nofun

namespace Draft.Holds

variable {d : Draft}

/-- A draft is peeked at as it is, without any index. -/
theorem peek (hd : d.Holds entityType schema entries) :
    ∃ t, d.peek = .ok t ∧ t.Holds entityType schema entries ∧ t.sorted = d.isSorted ∧
      ∀ i, t.indexAt? i = none := by
  obtain ⟨columns, hcolumns, hcolumns'⟩ := exists_mapM
    (Entry.HeldBy entries) hd.named_holds
    fun c a hc => ⟨c.now, hc.peek_eq, hc⟩
  have hnone (i : Nat) :
      (Array.replicate schema.size (none : Option Index)).getD i none = none := by
    rw [Array.getD_eq_getD_getElem?, Array.getElem?_replicate]
    split <;> rfl
  obtain ⟨t, ht, hholds, hsorted, hindexes⟩ := exists_ofColumns d.settings
    (.cons (List.forall₂_cons.1 hd.columns).1 hcolumns') hd.nodup hd.room hd.pairwise_of_isSorted
    fun i index h => absurd ((hnone i).symm.trans h) nofun
  refine ⟨t, ?_, hholds, hsorted, ?_⟩
  · simp only [Draft.peek, hd.ids_holds.peek_eq, hcolumns, hd.entityType_eq, hd.schema_eq]
    exact ht
  · intro i
    rw [indexAt?, hindexes, hnone]

/-- Rows in ascending order of their ids are built as they are. -/
theorem build_of_isSorted (hd : d.Holds entityType schema entries) (hsorted : d.isSorted = true) :
    ∃ t, d.build = .ok t ∧ t.Holds entityType schema entries ∧ t.sorted = true := by
  obtain ⟨columns, hcolumns, hcolumns'⟩ := exists_mapM
    (Entry.HeldBy entries) hd.named_holds
    fun c a hc => ⟨c.now, hc.build_eq, hc⟩
  obtain ⟨t, ht, hholds, hsorted', -⟩ := exists_ofColumns d.settings
    (.cons (List.forall₂_cons.1 hd.columns).1 hcolumns') hd.nodup hd.room
    (fun _ => hd.pairwise_of_isSorted hsorted) (indexesOf_eq d.indexed _)
  refine ⟨t, ?_, hholds, hsorted'⟩
  simp only [Draft.build, hsorted, if_true, bind, Except.bind, hd.ids_holds.build_eq, hcolumns,
    hd.entityType_eq, hd.schema_eq]
  exact congrArg (Except.mapError StoreError.layout) ht

/-- A draft is built to a table of its entries in ascending order of their ids. -/
theorem build (hd : d.Holds entityType schema entries) :
    ∃ t entries', d.build = .ok t ∧ t.Holds entityType schema entries' ∧ t.sorted = true ∧
      entries'.Perm entries := by
  cases hsorted : d.isSorted with
  | true =>
    obtain ⟨t, hbuild, ht, hsorted'⟩ := hd.build_of_isSorted hsorted
    exact ⟨t, entries, hbuild, ht, hsorted', .refl _⟩
  | false =>
    obtain ⟨d', entries', hsort, hd', hsorted', hperm⟩ := hd.sort
    obtain ⟨t, hbuild, ht, hsorted''⟩ := hd'.build_of_isSorted hsorted'
    have heq : d.build = d'.build := by
      simp only [Draft.build, hsorted, hsort, hsorted']
      rfl
    exact ⟨t, entries', heq.trans hbuild, ht, hsorted'', hperm⟩

end Draft.Holds

end Table

end ColumnStore

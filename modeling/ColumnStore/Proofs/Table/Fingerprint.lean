import ColumnStore.Proofs.Table.Contents
import ColumnStore.Proofs.Table.Peek

/-!
# Fingerprints of the same rows

A fingerprint is taken of the rows in the order in which a table has them. Tables with the same set
of rows thus have the same contents if and only if the ids of their rows come in the same order
(`SameRowSet.contents_eq_iff`). They do in tables that were built, which have them in ascending
order. A table that was peeked at has them in the order of their arrival, so unless that is
ascending its contents are not those of the table that the draft is built to (`run_fingerprint`),
and fingerprints tell them apart (`fingerprint_peek_ne_build`).

Each row is told by its id within one set of rows, so nothing is asked of the values in the cells.
-/

namespace ColumnStore

/-- Rows with different ids can be told from what comes after them by the id alone. -/
theorem unambiguous_rowCode_of_nodup {rows : List (Int64 × List (Option Value))}
    (hnodup : (rows.map Prod.fst).Nodup) : Unambiguous rowCode (· ∈ rows) := by
  intro row row' hrow hrow' r s h
  rw [rowCode, rowCode, List.append_assoc, List.append_assoc] at h
  obtain ⟨hid, hrest⟩ := unambiguous_long trivial trivial h
  obtain rfl := List.inj_on_of_nodup_map hnodup hrow hrow' hid
  exact ⟨rfl, List.append_cancel_left hrest⟩

/-- Rows of one set are in one order if their ids are. -/
theorem eq_of_map_fst_eq {rows rows' : List (Int64 × List (Option Value))}
    (hnodup : (rows'.map Prod.fst).Nodup) (hsub : ∀ row ∈ rows, row ∈ rows')
    (hids : rows.map Prod.fst = rows'.map Prod.fst) : rows = rows' := by
  have hlength : rows.length = rows'.length := by
    rw [← List.length_map Prod.fst, hids, List.length_map]
  refine List.ext_getElem hlength fun i hi hi' => ?_
  have hid := congrArg (·[i]?) hids
  simp only [List.getElem?_map, List.getElem?_eq_getElem hi, List.getElem?_eq_getElem hi',
    Option.map_some] at hid
  exact List.inj_on_of_nodup_map hnodup (hsub _ (List.getElem_mem hi)) (List.getElem_mem hi')
    (Option.some_inj.1 hid)

/-- The row of an entry by its id and its other cells. -/
def Entry.idRow (schema : Schema) (e : Entry) : Int64 × List (Option Value) :=
  (e.id, schema.named.map e.value)

namespace Table

/-- Two tables have the same rows by their ids and their other cells, in whatever order. -/
def SameRowSet (t t' : Table) : Prop := ∀ row, row ∈ t.idRows ↔ row ∈ t'.idRows

variable {t t' : Table} {entityType entityType' : EntityType} {schema : Schema}
  {entries entries' : List Entry}

theorem map_fst_idRows (t : Table) : t.idRows.map Prod.fst = t.idSet.toList := by
  rw [idRows, List.map_map]
  rfl

namespace SameRowSet

variable (h : t.SameRowSet t')
include h

theorem mem_ids (id : Int64) : id ∈ t.idSet.toList ↔ id ∈ t'.idSet.toList := by
  rw [← map_fst_idRows, ← map_fst_idRows, List.mem_map, List.mem_map]
  exact exists_congr fun row => and_congr_left' (h row)

/-- The same rows have the same contents if they come in the same order, and only then. -/
theorem contents_eq_iff (ht' : t'.FindsIds) :
    t.contents = t'.contents ↔ t.idSet.toList = t'.idSet.toList := by
  have hnodup : (t'.idRows.map Prod.fst).Nodup := by
    rw [map_fst_idRows]
    exact ht'.nodup
  rw [contents_eq, contents_eq]
  constructor
  · intro hcode
    have hrows : t.idRows = t'.idRows := (unambiguous_rowCode_of_nodup hnodup).flatMap_inj
      rowCode_ne_nil (fun row => (h row).1) (fun _ => id) hcode
    rw [← map_fst_idRows, hrows, map_fst_idRows]
  · intro hids
    rw [← map_fst_idRows, ← map_fst_idRows] at hids
    rw [eq_of_map_fst_eq hnodup (fun row => (h row).1) hids]

/-- Rows have the contents of the same rows in ascending order if they ascend, and only then. -/
theorem contents_eq_iff_ascending (ht' : t'.FindsIds) (hsorted' : t'.sorted) :
    t.contents = t'.contents ↔ t.idSet.toList.Pairwise (· < ·) := by
  rw [h.contents_eq_iff ht']
  refine ⟨fun hids => hids ▸ ht'.ascending hsorted', fun hascend => ?_⟩
  exact eq_of_ascending hascend (ht'.ascending hsorted') h.mem_ids

theorem fingerprint_eq (ht : t.FindsIds) (ht' : t'.FindsIds) (hsorted : t.sorted)
    (hsorted' : t'.sorted) : t.fingerprint = t'.fingerprint :=
  congrArg MD5.hash ((h.contents_eq_iff_ascending ht' hsorted').2 (ht.ascending hsorted))

end SameRowSet

namespace Holds

/-- The rows of a table by the entries alone. -/
theorem idRows_eq (ht : t.Holds entityType schema entries) :
    t.idRows = entries.map (Entry.idRow schema) := by
  refine List.ext_getElem ?_ fun p hp hp' => ?_
  · rw [idRows, List.length_map, List.length_range, List.length_map, ht.size_eq]
  · rw [List.length_map] at hp'
    have hentry : entries[p]? = some entries[p] := List.getElem?_eq_getElem hp'
    have hcells : t.cells p = schema.named.map entries[p].value := by
      have hnamed := (List.forall₂_cons.1 ht.columns).2
      rw [cells, ← List.forall₂_eq_eq_eq, List.forall₂_map_left_iff, List.forall₂_map_right_iff]
      refine hnamed.imp fun c a hc => ?_
      rw [hc.get?_eq, List.getElem?_map, hentry, Option.map_some, Option.join_some]
    simp only [idRows, List.getElem_map, List.getElem_range, Entry.idRow, hcells, ht.idAt_eq,
      hentry, Option.map_some, Option.getD_some]

/-- The fingerprint by the entries alone. -/
theorem fingerprint_eq (ht : t.Holds entityType schema entries) :
    t.fingerprint = MD5.hash ((entries.map (Entry.idRow schema)).flatMap rowCode) := by
  rw [fingerprint, contents_eq, ht.idRows_eq]

/-- Tables of the same entries have the same set of rows. -/
theorem sameRowSet (ht : t.Holds entityType schema entries)
    (ht' : t'.Holds entityType' schema entries') (hperm : entries.Perm entries') :
    t.SameRowSet t' := by
  intro row
  rw [ht.idRows_eq, ht'.idRows_eq]
  exact (hperm.map _).mem_iff

end Holds

/-- After any steps on two new drafts with one schema: the table that a draft is peeked at has the
    rows of the one that it is built to, but the same contents only if the ids of its rows ascend.
    In general, tables that are built or peeked at and have the same set of rows have the same
    contents if and only if their ids come in the same order, and thus the same fingerprint if both
    are in order. -/
theorem run_fingerprint (entityType entityType' : EntityType) (schema : Schema)
    (settings settings' : Settings) (steps steps' : List BuildStep) :
    let d := (run Draft.step steps { entityType, schema, settings }).2
    let d' := (run Draft.step steps'
      { entityType := entityType', schema, settings := settings' }).2
    ∃ built peeked built' peeked', d.build = .ok built ∧ d.peek = .ok peeked ∧
      d'.build = .ok built' ∧ d'.peek = .ok peeked' ∧ built.sorted = true ∧
      peeked.sorted = d.isSorted ∧ peeked.SameRowSet built ∧
      (peeked.contents = built.contents ↔ peeked.idSet.toList.Pairwise (· < ·)) ∧
      (d.isSorted → peeked.fingerprint = built.fingerprint) ∧
      ∀ t ∈ [built, peeked], ∀ t' ∈ [built', peeked'], t.SameRowSet t' →
        (t.contents = t'.contents ↔ t.idSet.toList = t'.idSet.toList) ∧
        (t.sorted → t'.sorted → t.fingerprint = t'.fingerprint) := by
  have hd := Draft.run_arrivals entityType schema settings steps
  have hd' := Draft.run_arrivals entityType' schema settings' steps'
  dsimp only at hd hd' ⊢
  obtain ⟨built, entries, hbuild, hbuilt, hsorted, hperm⟩ := hd.build
  obtain ⟨peeked, hpeek, hpeeked, hpsorted, -⟩ := hd.peek
  obtain ⟨built', entries', hbuild', hbuilt', -, -⟩ := hd'.build
  obtain ⟨peeked', hpeek', hpeeked', -, -⟩ := hd'.peek
  have hsame := hpeeked.sameRowSet hbuilt hperm.symm
  refine ⟨built, peeked, built', peeked', hbuild, hpeek, hbuild', hpeek', hsorted, hpsorted, hsame,
    hsame.contents_eq_iff_ascending hbuilt.findsIds hsorted, ?_, ?_⟩
  · intro hascend
    exact hsame.fingerprint_eq hpeeked.findsIds hbuilt.findsIds (hpsorted.trans hascend) hsorted
  · intro t ht t' ht' hrows
    have hids : ∀ t ∈ [built, peeked], t.FindsIds :=
      List.forall_mem_cons.2 ⟨hbuilt.findsIds, List.forall_mem_singleton.2 hpeeked.findsIds⟩
    have hids' : ∀ t' ∈ [built', peeked'], t'.FindsIds :=
      List.forall_mem_cons.2 ⟨hbuilt'.findsIds, List.forall_mem_singleton.2 hpeeked'.findsIds⟩
    exact ⟨hrows.contents_eq_iff (hids' t' ht'), hrows.fingerprint_eq (hids t ht) (hids' t' ht')⟩

/-- Two ratings of which the second has the smaller id: the table that is peeked at has not the
    fingerprint of the table that is built. -/
theorem fingerprint_peek_ne_build :
    let steps : List BuildStep :=
      [.add ⟨ratingRecord 2 (.double ⟨0⟩), false⟩, .add ⟨ratingRecord 1 (.double ⟨0⟩), false⟩]
    let d := (run Draft.step steps { entityType := ⟨"rating"⟩, schema := ratings }).2
    ∃ built peeked, d.build = .ok built ∧ d.peek = .ok peeked ∧ peeked.SameRowSet built ∧
      peeked.fingerprint ≠ built.fingerprint := by
  intro steps d
  obtain ⟨-, hd⟩ := Draft.run_distinct ⟨"rating"⟩ ratings {} steps (by decide) (by decide)
  replace hd := hd (by decide)
  obtain ⟨built, entries, hbuild, hbuilt, hsorted, hperm⟩ := hd.build
  obtain ⟨peeked, hpeek, hpeeked, -, -⟩ := hd.peek
  refine ⟨built, peeked, hbuild, hpeek, hpeeked.sameRowSet hbuilt hperm.symm, ?_⟩
  have hreverse : entries = ((BuildStep.calls steps).map AddCall.entry).reverse :=
    Entry.eq_of_perm (hperm.trans (List.reverse_perm _).symm) (hbuilt.ascending hsorted) (by decide)
  rw [hpeeked.fingerprint_eq, hbuilt.fingerprint_eq, hreverse]
  decide +kernel

end Table

end ColumnStore

import ColumnStore.Proofs.Table.Fingerprint

/-!
# Entities may be added in any order

Entities with different ids are all added, whatever their order, and the draft is built to a table
with its rows in ascending order of the ids. So the order in which they are added does not matter,
nor which calls have leave to replace others or which indexes are asked for in between: the tables
have the same answers, row by row, and the same fingerprint (`run_reordered`).

This is about as many entities as there can be rows. Of more than that some are refused, and which
ones depends on their order.
-/

namespace ColumnStore

variable {calls calls' : List AddCall}

/-- The same entities bring the same rows. -/
theorem map_entry_perm (h : (calls'.map AddCall.content).Perm (calls.map AddCall.content)) :
    (calls'.map AddCall.entry).Perm (calls.map AddCall.entry) := by
  have hentry : AddCall.entry
      = (fun c : Int64 × List (Attribute × Value) => ⟨c.1, Table.Register.valuesOf c.2⟩)
        ∘ AddCall.content := rfl
  rw [hentry, ← List.map_map, ← List.map_map]
  exact h.map _

theorem map_id_perm (h : (calls'.map AddCall.content).Perm (calls.map AddCall.content)) :
    (calls'.map AddCall.id).Perm (calls.map AddCall.id) := by
  have hid : AddCall.id = Prod.fst ∘ AddCall.content := rfl
  rw [hid, ← List.map_map, ← List.map_map]
  exact h.map _

/-- What holds of the fields of some entities holds of the same in another order. -/
theorem forall_fields_of_perm {P : List (Attribute × Value) → Prop}
    (h : (calls'.map AddCall.content).Perm (calls.map AddCall.content))
    (hall : ∀ call ∈ calls, P call.fields) : ∀ call ∈ calls', P call.fields := by
  intro call hcall
  obtain ⟨call', hcall', heq⟩ := List.mem_map.1 (h.mem_iff.1 (List.mem_map_of_mem hcall))
  have hfields : call'.fields = call.fields := congrArg Prod.snd heq
  exact hfields ▸ hall call' hcall'

namespace Table

variable {t t' : Table} {entityType : EntityType} {schema : Schema} {entries : List Entry}

/-- Tables of the same entries in the same order have the same description. -/
theorem Holds.describe_eq (ht : t.Holds entityType schema entries)
    (ht' : t'.Holds entityType schema entries) : t.describe = t'.describe := by
  rw [describe, describe, ht.entityType_eq, ht'.entityType_eq, ht.schema_eq, ht'.schema_eq,
    ht.size_eq, ht'.size_eq, ht.fingerprint_eq, ht'.fingerprint_eq]

/-- The order in which entities with different ids, none of them a misfit, are added to a new draft
    does not matter: all are added if there is room for them, and then the draft is built to a table
    of them in ascending order of their ids, with the same answers and the same fingerprint. -/
theorem run_reordered (entityType : EntityType) (schema : Schema) (settings settings' : Settings)
    (steps steps' : List BuildStep)
    (hmisfit : ∀ call ∈ BuildStep.calls steps, Register.misfit? schema call.fields = none)
    (hnodup : ((BuildStep.calls steps).map AddCall.id).Nodup)
    (hperm : ((BuildStep.calls steps').map AddCall.content).Perm
      ((BuildStep.calls steps).map AddCall.content)) :
    let (given, d) := run Draft.step steps { entityType, schema, settings }
    let (given', d') := run Draft.step steps' { entityType, schema, settings := settings' }
    ((∀ outcome ∈ given.filterMap id, outcome = .ok .added) ↔
        (BuildStep.calls steps).length ≤ maxRows) ∧
      ((∀ outcome ∈ given.filterMap id, outcome = .ok .added) →
        (∀ outcome ∈ given'.filterMap id, outcome = .ok .added) ∧
          ∃ t t' entries, d.build = .ok t ∧ d'.build = .ok t' ∧ t.schema = schema ∧
            t'.schema = schema ∧ t.Lists entries ∧
            entries.Perm ((BuildStep.calls steps).map AddCall.entry) ∧
            (entries.map Entry.id).Pairwise (· < ·) ∧ SameAnswers t t' ∧
            (∀ id, t.positionOf? id = t'.positionOf? id) ∧ t.fingerprint = t'.fingerprint ∧
            t.describe = t'.describe) := by
  obtain ⟨hiff, hd⟩ := Draft.run_distinct entityType schema settings steps hmisfit hnodup
  have hmisfit' := forall_fields_of_perm (P := (Register.misfit? schema · = none)) hperm hmisfit
  obtain ⟨hiff', hd'⟩ := Draft.run_distinct entityType schema settings' steps' hmisfit'
    ((map_id_perm hperm).nodup_iff.2 hnodup)
  have hlength : (BuildStep.calls steps').length = (BuildStep.calls steps).length := by
    rw [← List.length_map AddCall.content, hperm.length_eq, List.length_map]
  dsimp only
  refine ⟨hiff, fun hadded => ?_⟩
  have hroom := hiff.1 hadded
  have hroom' := hlength ▸ hroom
  obtain ⟨t, entries, hbuild, ht, hsorted, hentries⟩ := (hd hroom).build
  obtain ⟨t', entries', hbuild', ht', hsorted', hentries'⟩ := (hd' hroom').build
  -- In ascending order of their ids the rows of both are the same list.
  rw [Entry.eq_of_perm ((hentries'.trans (map_entry_perm hperm)).trans hentries.symm)
    (ht'.ascending hsorted') (ht.ascending hsorted)] at ht'
  exact ⟨hiff'.2 hroom', t, t', entries, hbuild, hbuild', ht.schema_eq, ht'.schema_eq, ht.lists,
    hentries, ht.ascending hsorted, ht.sameAnswers ht', ht.positionOf?_congr ht',
    ht.fingerprint_eq.trans ht'.fingerprint_eq.symm, ht.describe_eq ht'⟩

/-- Two ratings in either order, the second time with an index and leave to replace. -/
theorem run_reordered_ratings :
    let steps : List BuildStep :=
      [.add ⟨ratingRecord 1 (.double ⟨0⟩), false⟩, .add ⟨ratingRecord 2 (.double ⟨1⟩), false⟩]
    let steps' : List BuildStep :=
      [.add ⟨ratingRecord 2 (.double ⟨1⟩), true⟩, .addIndex "rating",
        .add ⟨ratingRecord 1 (.double ⟨0⟩), false⟩]
    let d := (run Draft.step steps { entityType := ⟨"rating"⟩, schema := ratings }).2
    let d' := (run Draft.step steps' { entityType := ⟨"rating"⟩, schema := ratings }).2
    (∀ call ∈ BuildStep.calls steps, Register.misfit? ratings call.fields = none) ∧
      ((BuildStep.calls steps).map AddCall.id).Nodup ∧
      ((BuildStep.calls steps').map AddCall.content).Perm
        ((BuildStep.calls steps).map AddCall.content) ∧
      ∃ t t', d.build = .ok t ∧ d'.build = .ok t' ∧ SameAnswers t t' ∧
        t.fingerprint = t'.fingerprint := by
  intro steps steps' d d'
  have hmisfit : ∀ call ∈ BuildStep.calls steps, Register.misfit? ratings call.fields = none := by
    decide
  have hnodup : ((BuildStep.calls steps).map AddCall.id).Nodup := by decide
  have hperm : ((BuildStep.calls steps').map AddCall.content).Perm
      ((BuildStep.calls steps).map AddCall.content) := .swap ..
  obtain ⟨hiff, hsame⟩ :=
    run_reordered ⟨"rating"⟩ ratings {} {} steps steps' hmisfit hnodup hperm
  obtain ⟨-, t, t', -, hbuild, hbuild', -, -, -, -, -, hanswers, -, hfingerprint, -⟩ :=
    hsame (hiff.2 (by decide))
  exact ⟨hmisfit, hnodup, hperm, t, t', hbuild, hbuild', hanswers, hfingerprint⟩

end Table

end ColumnStore

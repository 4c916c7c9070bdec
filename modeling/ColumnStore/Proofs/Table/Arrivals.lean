import ColumnStore.Proofs.Table.Indexing

/-!
# Rows in the order of their arrival

What rows calls have brought is told by their outcomes (`arrivals`): a call that was added brings a
row that comes after all others, a call that replaced a row leaves other values in its place, and no
other call brings anything. A draft holds just these entries, after any steps
(`Draft.run_arrivals`).

Calls of entities with different ids, the values of which have the kinds of their attributes, are
all added as long as there is room for them, and a draft then holds them in their order
(`Draft.run_distinct`).
-/

namespace ColumnStore

/-- The row that a call brings. -/
def AddCall.entry (call : AddCall) : Entry := ⟨call.id, Table.Register.valuesOf call.fields⟩

namespace Table

/-- The rows after one more call, by its outcome. -/
def arrive (entries : List Entry) : AddCall × Except StoreError AddOutcome → List Entry
  | (call, .ok .added) => entries ++ [call.entry]
  | (call, .ok .replaced) => entries.map fun e => if e.id = call.id then call.entry else e
  | (_, .ok .dropped) | (_, .error _) => entries

/-- The rows that calls have brought, in the order of their arrival, by the outcomes of the
    calls. -/
def arrivals (calls : List AddCall) (outcomes : List (Except StoreError AddOutcome)) : List Entry :=
  (calls.zip outcomes).foldl arrive []

variable {calls : List AddCall} {outcomes : List (Except StoreError AddOutcome)}
  {entries entries' : List Entry} {schema : Schema}

/-- Calls that were all added bring their entries. -/
theorem arrivals_of_added (hlength : calls.length = outcomes.length)
    (hadded : ∀ outcome ∈ outcomes, outcome = .ok .added) :
    arrivals calls outcomes = calls.map AddCall.entry := by
  have hfold (entries : List Entry) :
      (calls.zip outcomes).foldl arrive entries = entries ++ calls.map AddCall.entry := by
    induction calls generalizing outcomes entries with
    | nil => exact (List.append_nil entries).symm
    | cons call rest ih =>
      obtain ⟨outcome, outcomes, rfl⟩ := List.exists_cons_of_length_eq_add_one hlength.symm
      rw [List.forall_mem_cons] at hadded
      obtain ⟨rfl, hadded⟩ := hadded
      rw [List.zip_cons_cons, List.foldl_cons, ih (Nat.succ_inj.1 hlength) hadded, arrive,
        List.append_assoc, List.map_cons, List.singleton_append]
  exact hfold []

/-- What an add does to the entries is told by its outcome. -/
theorem Draft.AddStep.eq_arrive {call : AddCall} {outcome : Except StoreError AddOutcome}
    {sorted sorted' : Bool}
    (hstep : AddStep schema entries sorted call.id call.fields call.replace outcome entries'
      sorted')
    (hnodup : (entries.map Entry.id).Nodup) : entries' = arrive entries (call, outcome) := by
  cases hstep with
  | misfit | full | refused | dropped => rfl
  | added => rw [arrive, AddCall.entry, cellOf_eq]
  | replaced _ _ _ hrow hid => rw [arrive, AddCall.entry, set_eq_map_key hnodup hrow, hid, cellOf_eq]

namespace Draft

variable {d : Draft} {entityType : EntityType}

/-- A call takes one of the steps, to the entries that its outcome tells. -/
theorem holds_addCall (call : AddCall) (hd : d.Holds entityType schema entries) :
    (addCall call d).2.Holds entityType schema (arrive entries (call, (addCall call d).1)) ∧
      AddStep schema entries d.isSorted call.id call.fields call.replace (addCall call d).1
        (arrive entries (call, (addCall call d).1)) (addCall call d).2.isSorted := by
  obtain ⟨entries', hd', hstep⟩ := hd.add call.value call.replace
  obtain rfl := AddStep.eq_arrive hstep hd.nodup
  exact ⟨hd', hstep⟩

theorem holds_run (calls : List AddCall) (hd : d.Holds entityType schema entries) :
    (run addCall calls d).2.Holds entityType schema
      ((calls.zip (run addCall calls d).1).foldl arrive entries) := by
  induction calls generalizing d entries with
  | nil => exact hd
  | cons call rest ih => exact ih (holds_addCall call hd).1

/-- After any steps a new draft holds what its calls have brought. -/
theorem run_arrivals (entityType : EntityType) (schema : Schema) (settings : Settings)
    (steps : List BuildStep) :
    let (given, d) := run step steps { entityType, schema, settings }
    d.Holds entityType schema (arrivals (BuildStep.calls steps) (given.filterMap id)) := by
  obtain ⟨hgiven, indexed, hdraft⟩ := run_step steps { entityType, schema, settings }
  dsimp only
  rw [hgiven, hdraft]
  exact (holds_run _ (holds_nil entityType schema settings)).withIndexed indexed

/-- A new id is added if there is room, unless the entity is a misfit. -/
theorem AddStep.added_iff {fields : List (Attribute × Value)} {id : Int64} {replace : Bool}
    {outcome : Except StoreError AddOutcome} {sorted sorted' : Bool}
    (hstep : AddStep schema entries sorted id fields replace outcome entries' sorted')
    (hmisfit : misfit? schema fields = none) (hid : id ∉ entries.map Entry.id) :
    outcome = .ok .added ↔ entries.length < maxRows := by
  cases hstep with
  | misfit h => exact absurd (hmisfit.symm.trans h) nofun
  | full _ _ hfull => exact ⟨nofun, fun hroom => absurd hroom (Nat.not_lt.2 hfull)⟩
  | added _ _ hroom => exact iff_of_true rfl hroom
  | replaced _ _ _ hrow heq =>
    exact absurd (List.mem_map.2 ⟨_, List.mem_of_getElem? hrow, heq⟩) hid
  | refused _ _ _ hknown => exact absurd hknown hid
  | dropped _ _ hknown => exact absurd hknown hid

/-- Calls of entities with new ids, no two of which are the same, are all added if there is room
    and no entity is a misfit. -/
theorem run_added_iff (calls : List AddCall) (hd : d.Holds entityType schema entries)
    (hmisfit : ∀ call ∈ calls, misfit? schema call.fields = none)
    (hnodup : (entries.map Entry.id ++ calls.map AddCall.id).Nodup)
    (hlength : entries.length ≤ maxRows) :
    (∀ outcome ∈ (run addCall calls d).1, outcome = .ok .added) ↔
      entries.length + calls.length ≤ maxRows := by
  induction calls generalizing d entries with
  | nil => exact iff_of_true nofun hlength
  | cons call rest ih =>
    rw [List.forall_mem_cons] at hmisfit
    rw [List.map_cons, List.append_cons] at hnodup
    obtain ⟨hd', hstep⟩ := holds_addCall call hd
    have hid : call.id ∉ entries.map Entry.id := by
      have := (List.nodup_append.1 (List.nodup_append.1 hnodup).1).2.2
      exact fun hmem => this _ hmem _ List.mem_cons_self rfl
    have hadded := hstep.added_iff hmisfit.1 hid
    rw [run_cons, List.forall_mem_cons, hadded, List.length_cons]
    by_cases hroom : entries.length < maxRows
    · rw [hadded.2 hroom, arrive] at hd'
      rw [and_iff_right hroom, ih hd' hmisfit.2 ?_ ?_, List.length_append, List.length_singleton]
      · omega
      · rwa [List.map_append, List.map_singleton]
      · rwa [List.length_append, List.length_singleton]
    · refine iff_of_false (fun h => hroom h.1) ?_
      omega

/-- Entities with different ids, none of them a misfit, are all added to a new draft if there is
    room for them, and it then holds them in their order. -/
theorem run_distinct (entityType : EntityType) (schema : Schema) (settings : Settings)
    (steps : List BuildStep)
    (hmisfit : ∀ call ∈ BuildStep.calls steps, Register.misfit? schema call.fields = none)
    (hnodup : ((BuildStep.calls steps).map AddCall.id).Nodup) :
    let (given, d) := run step steps { entityType, schema, settings }
    ((∀ outcome ∈ given.filterMap id, outcome = .ok .added) ↔
        (BuildStep.calls steps).length ≤ maxRows) ∧
      ((BuildStep.calls steps).length ≤ maxRows →
        d.Holds entityType schema ((BuildStep.calls steps).map AddCall.entry)) := by
  have hd := run_arrivals entityType schema settings steps
  obtain ⟨hgiven, -⟩ := run_step steps { entityType, schema, settings }
  have hiff := run_added_iff (BuildStep.calls steps) (holds_nil entityType schema settings)
    (fun call hcall => by rw [misfit?_eq, hmisfit call hcall, Option.map_none]) hnodup
    (Nat.zero_le _)
  rw [List.length_nil, Nat.zero_add, ← hgiven] at hiff
  refine ⟨hiff, fun hroom => ?_⟩
  dsimp only at hd ⊢
  rwa [arrivals_of_added (by rw [hgiven, length_run]) (hiff.2 hroom)] at hd

end Draft

end Table

end ColumnStore

import ColumnStore.Proofs.Catalog
import ColumnStore.Proofs.Table.Register
import Mathlib.Data.List.Induction
import Mathlib.Data.List.Nodup

/-!
# The last write to an id wins

A catalog in the making takes entities under their ids. A call is told to be dropped if its id is
known and it is not to replace, and all other calls write (`Draft.expected`). So the catalog has the
copy that the last of them has written to each id (`Draft.getElem?_run`), in ascending order of the
ids.

Indexes may be asked for in between, by name or by attribute, many times and for any kind. They
are made with drafts of indexes in the end, none of which fails (`Draft.assemble_eq`), and no answer
depends on them (`Keeps.backing_eq`, `run_lastWrites`).
-/

namespace ColumnStore

/-! ## Building with drafts of indexes -/

namespace RecordIndex.Draft

/-- Adds records to a draft one by one and builds it. -/
def index (d : Draft) (records : List Record) : Except StoreError RecordIndex := do
  let d ← records.foldlM add d
  let (i, _) ← d.build
  return i

/-- A draft that was not built yet takes all records. -/
theorem foldlM_add (name : String) (kind? : Option Kind) (records : List Record)
    (p : Postings Record) :
    records.foldlM add ⟨name, kind?, some p⟩
      = .ok ⟨name, kind?, some ((records.map fun r => (keyOf name kind? r, r)).foldl
          Postings.addItem p)⟩ := by
  induction records generalizing p with
  | nil => rfl
  | cons r rest ih =>
    rw [List.foldlM_cons, add_eq, List.map_cons, List.foldl_cons]
    exact ih _

/-- A new draft is built to the index of the records. -/
theorem index_eq (name : String) (kind? : Option Kind) (records : List Record) :
    index { name, kind? } records = .ok (ofRecords name kind? records) := by
  rw [index, foldlM_add]
  rfl

end RecordIndex.Draft

namespace Catalog

/-- What a catalog answers about ids and values is what its members tell. -/
structure AnswersFromMembers (c : Catalog) : Prop where
  of_lookup? : ∀ id r, c.lookup? id = some r → r ∈ c.members.toList ∧ r.id = id
  contains_eq : ∀ id, c.contains id = (c.lookup? id).isSome
  contains_iff : ∀ id, c.contains id ↔ id ∈ c.ids
  find_eq : ∀ name v, c.find name v = c.members.toList.filter fun r => r.get? name = some v
  findOf_eq : ∀ a v, c.findOf a v = if a.kind.accepts v then c.find a.name v else []
  /-- Each value that a member holds has a group, of the members that hold it. -/
  groups : ∀ name, Postings.Groups (c.grouped name) (c.find name)

namespace Keeps

variable {c c' : Catalog} {records : List Record}

theorem answersFromMembers (hc : c.Keeps records) : c.AnswersFromMembers where
  of_lookup? _ _ h := hc.members_eq ▸ hc.of_lookup? h
  contains_eq := hc.contains_eq
  contains_iff id := by
    rw [hc.contains_iff, ids, hc.members_eq]
  find_eq := hc.members_eq ▸ hc.find_eq
  findOf_eq := hc.findOf_eq
  groups := hc.groups

/-- Catalogs that keep the same records have the same answers, whatever indexes they have. -/
theorem backing_eq (hc : c.Keeps records) (hc' : c'.Keeps records) : c.backing = c'.backing := by
  have hmembers : c.members = c'.members :=
    Array.toList_inj.1 (hc.members_eq.trans hc'.members_eq.symm)
  have hpositions : c.positions = c'.positions := hc.positions_eq.trans hc'.positions_eq.symm
  have hfind : c.find = c'.find := by
    funext name v
    rw [hc.find_eq, hc'.find_eq]
  have hgrouped : c.grouped = c'.grouped := by
    funext name
    have hgroups := hc.groups name
    rw [hfind] at hgroups
    exact hgroups.eq_of_ascends (hc'.groups name) (c.ascends_grouped name) (c'.ascends_grouped name)
  simp only [backing, hfind, hgrouped, size, ids, hmembers, Backing.mk.injEq, true_and, and_true]
  constructor
  · funext id
    rw [lookup?, lookup?, hpositions, hmembers]
  · funext id
    rw [contains, contains, hpositions]

theorem findOf_congr (hc : c.Keeps records) (hc' : c'.Keeps records) : c.findOf = c'.findOf := by
  funext a v
  rw [hc.findOf_eq, hc'.findOf_eq, hc.find_eq, hc'.find_eq]

end Keeps

namespace Draft

/-- The catalog of the draft, its indexes being built from the records one after the other. -/
def assemble (d : Draft) : Except StoreError Catalog := do
  let indexes ← d.names.mapM fun name => (RecordIndex.Draft.ofName name).index d.records
  let kindIndexes ← d.attributes.mapM fun a => (RecordIndex.Draft.ofAttribute a).index d.records
  let members := d.records.toArray
  let positions := .ofList (d.records.map Record.id).zipIdx
  return { entityType := d.entityType, members, positions, indexes, kindIndexes }

/-- No index fails to be built. -/
theorem assemble_eq (d : Draft) : d.assemble = .ok d.build := by
  have hnames : (d.names.mapM fun name => (RecordIndex.Draft.ofName name).index d.records)
      = .ok (d.names.map fun name => .ofRecords name none d.records) := by
    simp only [RecordIndex.Draft.ofName, RecordIndex.Draft.index_eq]
    exact List.mapM_pure
  have hattributes :
      (d.attributes.mapM fun a => (RecordIndex.Draft.ofAttribute a).index d.records)
        = .ok (d.attributes.map fun a => .ofRecords a.name (some a.kind) d.records) := by
    simp only [RecordIndex.Draft.ofAttribute, RecordIndex.Draft.index_eq]
    exact List.mapM_pure
  rw [assemble, hnames, hattributes]
  rfl

/-! ## Writes -/

/-- What becomes of a call after others. -/
def expected (before : List AddCall) (call : AddCall) : AddOutcome :=
  if call.id ∈ before.map AddCall.id then if call.replace then .replaced else .dropped else .added

/-- The last call for an id that was not dropped. -/
def lastAccepted? (calls : List AddCall) (outcomes : List AddOutcome) (id : Int64) :
    Option AddCall :=
  ((select (fun call outcome => call.id = id ∧ outcome ≠ .dropped) calls outcomes).map
    Prod.fst).getLast?

variable {d : Draft} {entityType : EntityType} {call : AddCall} {calls : List AddCall} {id : Int64}

/-- A call is dropped, or its copy is kept under its id. -/
theorem getElem?_addCall (call : AddCall) (d : Draft) (id : Int64) :
    (d.addCall call).2.members[id]?
      = if call.id = id ∧ (d.addCall call).1 ≠ .dropped then some (Entity.toRecord call.value)
        else d.members[id]? := by
  have hinsert {outcome : AddOutcome} (h : outcome ≠ .dropped) :
      (d.members.insert call.id (Entity.toRecord call.value))[id]?
        = if call.id = id ∧ outcome ≠ .dropped then some (Entity.toRecord call.value)
          else d.members[id]? := by
    rw [Std.TreeMap.getElem?_insert]
    simp only [Std.LawfulEqOrd.compare_eq_iff_eq, h, ne_eq, not_false_eq_true, and_true]
  by_cases hid : call.id ∈ d.members
  · rw [addCall_known hid]
    split
    · exact hinsert nofun
    · exact (if_neg fun h => h.2 rfl).symm
  · rw [addCall_fresh hid]
    exact hinsert nofun

theorem mem_addCall (call : AddCall) (d : Draft) (id : Int64) :
    id ∈ (d.addCall call).2.members ↔ id ∈ d.members ∨ id = call.id := by
  have hinsert : id ∈ d.members.insert call.id (Entity.toRecord call.value) ↔
      id ∈ d.members ∨ id = call.id := by
    rw [Std.TreeMap.mem_insert, Std.LawfulEqOrd.compare_eq_iff_eq, or_comm, eq_comm]
  by_cases hid : call.id ∈ d.members
  · rw [addCall_known hid]
    split
    · exact hinsert
    · rw [or_iff_left_of_imp]
      rintro rfl
      exact hid
  · rw [addCall_fresh hid]
    exact hinsert

/-- The ids in a draft are those of the calls. -/
theorem mem_run :
    id ∈ (run addCall calls { entityType }).2.members ↔ id ∈ calls.map AddCall.id := by
  induction calls using List.reverseRecOn with
  | nil => exact iff_of_false Std.TreeMap.not_mem_emptyc nofun
  | append_singleton rest call ih =>
    rw [run_concat, mem_addCall, ih, List.map_append, List.mem_append, List.map_singleton,
      List.mem_singleton]

/-- What becomes of a call is told by the ids of the calls before. -/
theorem addCall_run (before : List AddCall) (call : AddCall) :
    ((run addCall before { entityType }).2.addCall call).1 = expected before call := by
  rw [expected]
  by_cases hid : call.id ∈ before.map AddCall.id
  · rw [addCall_known (mem_run.2 hid), if_pos hid]
    split <;> rfl
  · rw [addCall_fresh (mt mem_run.1 hid), if_neg hid]

theorem getElem?_outcomes (entityType : EntityType) (calls : List AddCall) (i : Nat) :
    (run addCall calls { entityType }).1[i]? = calls[i]?.map (expected (calls.take i)) := by
  induction calls using List.reverseRecOn with
  | nil => rfl
  | append_singleton rest call ih =>
    have hlength := length_run (f := addCall) rest { entityType }
    rw [run_concat, addCall_run]
    rcases Nat.lt_trichotomy i rest.length with hi | rfl | hi
    · rw [List.getElem?_append_left (hlength ▸ hi), List.getElem?_append_left hi, ih,
        List.take_append_of_le_length (Nat.le_of_lt hi)]
    · rw [← hlength, List.getElem?_concat_length, hlength, List.getElem?_concat_length,
        List.take_left, Option.map_some]
    · rw [List.getElem?_eq_none (by rw [List.length_append, hlength]; exact hi),
        List.getElem?_eq_none (by rw [List.length_append]; exact hi), Option.map_none]

/-- Under each id is what the last call for it has written that was not dropped. -/
theorem getElem?_run (entityType : EntityType) (calls : List AddCall) (id : Int64) :
    (run addCall calls { entityType }).2.members[id]?
      = (lastAccepted? calls (run addCall calls { entityType }).1 id).map
          fun call => Entity.toRecord call.value := by
  induction calls using List.reverseRecOn with
  | nil => exact Std.TreeMap.getElem?_emptyc
  | append_singleton rest call ih =>
    rw [run_concat, getElem?_addCall, ih, lastAccepted?, lastAccepted?,
      select_concat (length_run ..).symm, List.map_append]
    -- The call is the last one that was accepted for its id, if it was accepted at all.
    by_cases hlast : call.id = id ∧ ((run addCall rest { entityType }).2.addCall call).1 ≠ .dropped
    · rw [if_pos hlast, if_pos (decide_eq_true hlast), List.map_singleton, List.getLast?_concat,
        Option.map_some]
    · rw [if_neg hlast, if_neg (by rwa [decide_eq_true_eq]), List.map_nil, List.append_nil]

/-- What was accepted last for an id was called with it. -/
theorem mem_of_lastAccepted? {outcomes : List AddOutcome}
    (h : lastAccepted? calls outcomes id = some call) : call ∈ calls ∧ call.id = id := by
  obtain ⟨⟨call', outcome⟩, hmem, rfl⟩ := List.mem_map.1 (List.mem_of_getLast? h)
  obtain ⟨hzip, hkeep⟩ := List.mem_filter.1 hmem
  exact ⟨(List.of_mem_zip hzip).1, (of_decide_eq_true hkeep).1⟩

/-- Calls for different ids are all added. -/
theorem run_added (hnodup : (calls.map AddCall.id).Nodup) :
    (run addCall calls { entityType }).1 = .replicate calls.length .added := by
  refine List.eq_replicate_iff.2 ⟨length_run .., fun outcome houtcome => ?_⟩
  obtain ⟨i, hi⟩ := List.getElem?_of_mem houtcome
  rw [getElem?_outcomes, Option.map_eq_some_iff] at hi
  obtain ⟨call, hcall, rfl⟩ := hi
  refine if_neg fun hmem => ?_
  -- The id would be that of an earlier call, too.
  obtain ⟨hlt, rfl⟩ := List.getElem?_eq_some_iff.1 hcall
  rw [← List.take_append_drop i calls, List.map_append, List.nodup_append] at hnodup
  refine hnodup.2.2 _ hmem _ ?_ rfl
  rw [List.drop_eq_getElem_cons hlt, List.map_cons]
  exact List.mem_cons_self

/-- Of calls for different ids each copy is kept. -/
theorem getElem?_run_of_mem (hnodup : (calls.map AddCall.id).Nodup) (hcall : call ∈ calls) :
    (run addCall calls { entityType }).2.members[call.id]?
      = some (Entity.toRecord call.value) := by
  have hmem : call.id ∈ (run addCall calls { entityType }).2.members :=
    mem_run.2 (List.mem_map_of_mem hcall)
  rw [Std.TreeMap.mem_iff_isSome_getElem?, getElem?_run, Option.isSome_map,
    Option.isSome_iff_exists] at hmem
  -- Some call for the id was accepted, and there is no other than this one.
  obtain ⟨call', hlast⟩ := hmem
  obtain ⟨hcall', hid⟩ := mem_of_lastAccepted? hlast
  rw [getElem?_run, hlast, Option.map_some, List.inj_on_of_nodup_map hnodup hcall' hcall hid]

/-- If copies have the ids of their entities, each is filed under its id. -/
theorem filed_run (hcopy : ∀ call ∈ calls, (Entity.toRecord call.value).id = call.id) :
    (run addCall calls { entityType }).2.Filed := by
  intro id r hr
  rw [getElem?_run, Option.map_eq_some_iff] at hr
  obtain ⟨call, hcall, rfl⟩ := hr
  obtain ⟨hmem, rfl⟩ := mem_of_lastAccepted? hcall
  exact hcopy call hmem

/-- A record is looked up where it is filed. -/
theorem Filed.lookup? (h : d.Filed) (id : Int64) : d.build.lookup? id = d.members[id]? := by
  ext r
  rw [h.build.lookup?_eq_some, h.mem_records]
  constructor
  · rintro ⟨hr, rfl⟩
    exact hr
  · intro hr
    obtain rfl := h id r hr
    exact ⟨hr, rfl⟩

end Draft

/-- After any steps a new draft is built without fail, to a catalog that answers from its members,
    whose ids ascend. Any other steps that add the same entities have the same outcomes, and lead to
    a catalog with the same answers.

    If the copies of the entities have their ids, as all that are gathered do, the catalog has for
    each id that was called the copy that was written last, in ascending order of the ids. -/
theorem run_lastWrites (entityType : EntityType) (steps : List BuildStep) :
    let (given, d) := run Draft.step steps { entityType }
    let calls := BuildStep.calls steps
    let outcomes := given.filterMap id
    let c := d.build
    (∀ i, outcomes[i]? = calls[i]?.map (Draft.expected (calls.take i))) ∧
      d.assemble = .ok c ∧ c.ids.Pairwise (· ≤ ·) ∧ c.AnswersFromMembers ∧
      (∀ steps', BuildStep.calls steps' = calls →
        let (given', d') := run Draft.step steps' { entityType }
        given'.filterMap id = outcomes ∧ d'.build.backing = c.backing ∧
          d'.build.findOf = c.findOf) ∧
      ((∀ call ∈ calls, (Entity.toRecord call.value).id = call.id) →
        c.backing.Sound ∧ (∀ id, id ∈ c.ids ↔ id ∈ calls.map AddCall.id) ∧
        ∀ id, c.lookup? id = (Draft.lastAccepted? calls outcomes id).map
          fun call => Entity.toRecord call.value) := by
  obtain ⟨houtcomes, hmembers⟩ := Draft.run_step steps { entityType }
  have hkeeps := (run Draft.step steps { entityType }).2.build_keeps
  dsimp only
  rw [houtcomes]
  refine ⟨Draft.getElem?_outcomes entityType _, Draft.assemble_eq _,
    Draft.ascending_records _, hkeeps.answersFromMembers, ?_, ?_⟩
  · intro steps' hcalls
    obtain ⟨houtcomes', hmembers'⟩ := Draft.run_step steps' { entityType }
    have hkeeps' := (run Draft.step steps' { entityType }).2.build_keeps
    -- The records are the same, and all else that a catalog has is made of them.
    rw [hcalls] at houtcomes' hmembers'
    rw [Draft.records, hmembers', ← hmembers, ← Draft.records] at hkeeps'
    exact ⟨houtcomes', hkeeps'.backing_eq hkeeps, hkeeps'.findOf_congr hkeeps⟩
  · intro hcopy
    have hfiled : (run Draft.step steps { entityType }).2.Filed := by
      rw [Draft.Filed, hmembers]
      exact Draft.filed_run hcopy
    refine ⟨hfiled.build.sound, fun id => ?_, fun id => ?_⟩
    · rw [hfiled.build.ids_eq, hfiled.map_id_records, Std.TreeMap.mem_keys, hmembers, Draft.mem_run]
    · rw [hfiled.lookup?, hmembers, Draft.getElem?_run]

/-- Ratings that are doubles or not, with indexes of the longs, of the doubles and of all: one of
    them is replaced, and then another with its id is dropped. -/
theorem run_lastWrites_ratings :
    let steps : List BuildStep :=
      [.addIndexOf ⟨"rating", .long⟩, .add ⟨Table.ratingRecord 5 (.double ⟨0⟩), false⟩,
        .addIndex "rating", .add ⟨Table.ratingRecord 5 (.long 1), true⟩, .addIndexOf .rating,
        .add ⟨Table.ratingRecord 3 (.double ⟨2⟩), false⟩,
        .add ⟨Table.ratingRecord 5 (.double ⟨3⟩), false⟩]
    let c := (run Draft.step steps { entityType := ⟨"rating"⟩ }).2.build
    (∀ call ∈ BuildStep.calls steps, (Entity.toRecord call.value).id = call.id) ∧
      c.backing.Sound ∧ c.lookup? 5 = some (Table.ratingRecord 5 (.long 1)) := by
  intro steps c
  have hcopy : ∀ call ∈ BuildStep.calls steps, (Entity.toRecord call.value).id = call.id := by
    decide
  obtain ⟨-, -, -, -, -, hwrites⟩ := run_lastWrites ⟨"rating"⟩ steps
  obtain ⟨hsound, -, hlookup⟩ := hwrites hcopy
  exact ⟨hcopy, hsound, (hlookup 5).trans (by decide)⟩

end Catalog

end ColumnStore

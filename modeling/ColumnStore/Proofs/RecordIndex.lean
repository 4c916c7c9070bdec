import ColumnStore.Proofs.Postings
import ColumnStore.Proofs.Run
import ColumnStore.RecordIndex
import Mathlib.Data.List.Induction

/-!
# Indexes of records answer from the records

An index has under each value the records that hold it, in the order in which they were added and
as often as they were, and it has none under a value that it passes over (`RecordIndex.holders`).
Values, groups and sizes follow from that (`RecordIndex.Indexes`), whether the postings go by longs
or by values of any kind.

A draft of an index is in one of two states: it has the postings of all records that were added, or
it was built and has none (`Draft.run_apply`). In the first it takes every call, in the second none,
and there is no way back (`Draft.new_serves`).
-/

namespace ColumnStore.RecordIndex

variable {name : String} {kind? : Option Kind} {records : List Record} {v : Value}

/-- The records that hold a value, unless it is one that is passed over. -/
def holders (name : String) (kind? : Option Kind) (records : List Record) (v : Value) :
    List Record :=
  if kind?.all (·.accepts v) then records.filter fun r => r.get? name = some v else []

theorem keyOf_eq_some {r : Record} :
    keyOf name kind? r = some v ↔ r.get? name = some v ∧ kind?.all (·.accepts v) :=
  Option.filter_eq_some_iff

theorem under_keyOf (name : String) (kind? : Option Kind) (records : List Record) (v : Value) :
    Postings.under (records.map fun r => (keyOf name kind? r, r)) v
      = holders name kind? records v := by
  rw [Postings.under_map_key, holders]
  split
  · rename_i h
    exact List.filter_congr fun r _ => by simp [keyOf_eq_some, h]
  · rename_i h
    exact List.filter_eq_nil_iff.2 fun r _ => by simp [keyOf_eq_some, h]

/-- An index answers with the records that hold each value. -/
theorem lists_ofRecords (name : String) (kind? : Option Kind) (records : List Record) :
    (ofRecords name kind? records).postings.Lists (holders name kind? records) := by
  have hfound : Postings.found kind? (records.map fun r => (keyOf name kind? r, r))
      = holders name kind? records := by
    rw [Postings.found_eq_under]
    · funext v
      exact under_keyOf name kind? records v
    -- A record is indexed by values of the kind of the index only.
    · rintro v r hmem rfl
      obtain ⟨r, -, heq⟩ := List.mem_map.1 hmem
      obtain ⟨-, hkind⟩ := keyOf_eq_some.1 (Prod.mk.inj heq).1
      exact of_decide_eq_true hkind
  exact hfound ▸ Postings.lists_ofList kind? _

/-- An index has the records that hold a value, if the value is one that it does not pass over. -/
theorem find_ofRecords (h : kind?.all (·.accepts v)) :
    (ofRecords name kind? records).find v = records.filter fun r => r.get? name = some v :=
  ((lists_ofRecords name kind? records).find_eq v).trans (if_pos h)

theorem groups_ofRecords (name : String) (records : List Record) :
    Postings.Groups (ofRecords name none records).postings.groups fun v =>
      records.filter fun r => r.get? name = some v :=
  (lists_ofRecords name none records).groups

/-- The index is one of the records, in their order, of the values that they hold under a name,
    values of other kinds than that of the index being passed over. -/
structure Indexes (i : RecordIndex) (name : String) (kind? : Option Kind) (records : List Record) :
    Prop where
  name_eq : i.name = name
  kind?_eq : i.kind? = kind?
  find_eq : ∀ v, i.find v
    = if kind?.all (·.accepts v) then records.filter fun r => r.get? name = some v else []
  /-- Each value is listed once, and is one that some record holds. -/
  nodup_values : i.postings.values.Nodup
  mem_values : ∀ v, v ∈ i.postings.values ↔
    kind?.all (·.accepts v) ∧ ∃ r ∈ records, r.get? name = some v
  groups_eq : i.postings.groups = i.postings.values.map fun v => (v, i.find v)
  size_eq : i.postings.size = i.postings.values.length

theorem indexes_ofRecords (name : String) (kind? : Option Kind) (records : List Record) :
    (ofRecords name kind? records).Indexes name kind? records := by
  have hlists := lists_ofRecords name kind? records
  refine ⟨rfl, rfl, hlists.find_eq, hlists.nodup_values, fun v => ?_, ?_, hlists.size_eq⟩
  · rw [hlists.mem_values, holders]
    split
    · rename_i h
      simp [h]
    · rename_i h
      simp [h]
  · rw [hlists.groups_eq]
    exact List.map_congr_left fun v _ => congrArg (v, ·) (hlists.find_eq v).symm

/-! ## Calls -/

/-- A call on a draft of an index. -/
inductive Call where
  | add (r : Record)
  | build
deriving DecidableEq

namespace Call

/-- Makes a call: what it gives, an index if it builds one, and the draft that it leaves. -/
def apply : Call → Draft → Except StoreError (Option RecordIndex) × Draft
  | add r, d =>
    match d.add r with
    | .ok d => (.ok none, d)
    | .error e => (.error e, d)
  | build, d =>
    match d.build with
    | .ok (i, d) => (.ok (some i), d)
    | .error e => (.error e, d)

/-- The record of a call that adds one. -/
def record? : Call → Option Record
  | add r => some r
  | build => none

end Call

namespace Draft

variable {before : List Call}

/-- A draft that was not built yet takes a record. -/
theorem add_eq (name : String) (kind? : Option Kind) (p : Postings Record) (r : Record) :
    add ⟨name, kind?, some p⟩ r = .ok ⟨name, kind?, some (p.addItem (keyOf name kind? r, r))⟩ := by
  rw [add]
  cases keyOf name kind? r <;> rfl

/-- The postings of the records that calls add. -/
def postingsOf (name : String) (kind? : Option Kind) (calls : List Call) : Postings Record :=
  (ofRecords name kind? (calls.filterMap Call.record?)).postings

theorem postingsOf_concat (name : String) (kind? : Option Kind) (calls : List Call) (r : Record) :
    postingsOf name kind? (calls ++ [.add r])
      = (postingsOf name kind? calls).addItem (keyOf name kind? r, r) := by
  rw [postingsOf, postingsOf, List.filterMap_append, ofRecords, ofRecords]
  dsimp only
  rw [Postings.ofList, Postings.ofList, List.map_append, List.foldl_append]
  rfl

/-- Calls leave a draft with the postings of all records, or without any once it was built. -/
theorem run_apply (name : String) (kind? : Option Kind) (calls : List Call) :
    (run Call.apply calls { name, kind? }).2
      = ⟨name, kind?, if .build ∈ calls then none else some (postingsOf name kind? calls)⟩ := by
  induction calls using List.reverseRecOn with
  | nil => rfl
  | append_singleton before call ih =>
    rw [run_concat, ih]
    by_cases hbuilt : Call.build ∈ before
    · rw [if_pos hbuilt, if_pos (List.mem_append_left _ hbuilt)]
      cases call <;> rfl
    · rw [if_neg hbuilt]
      cases call with
      | add r =>
        rw [if_neg (by simpa using hbuilt), postingsOf_concat, Call.apply, add_eq]
      | build =>
        rw [if_pos (by simp)]
        rfl

/-- A draft of an index takes records until it is built, and is built to the index of these. From
    then on it refuses all calls and stays as it is. -/
structure Serves (d : Draft) (name : String) (kind? : Option Kind) : Prop where
  takes : ∀ before r, .build ∉ before →
    (Call.apply (.add r) (run Call.apply before d).2).1 = .ok none
  builds : ∀ before, .build ∉ before →
    ∃ i, (Call.apply .build (run Call.apply before d).2).1 = .ok (some i) ∧
      i.Indexes name kind? (before.filterMap Call.record?)
  refuses : ∀ before call, .build ∈ before →
    Call.apply call (run Call.apply before d).2
      = (.error .indexAlreadyBuilt, (run Call.apply before d).2)

theorem serves (name : String) (kind? : Option Kind) :
    Serves { name, kind? } name kind? where
  takes before r hbuild := by
    rw [run_apply, if_neg hbuild, Call.apply, add_eq]
  builds before hbuild := by
    rw [run_apply, if_neg hbuild]
    exact ⟨_, rfl, indexes_ofRecords name kind? _⟩
  refuses before call hbuild := by
    rw [run_apply, if_pos hbuild]
    cases call <;> rfl

/-- A new draft serves once, whether it is for the values of an attribute or for all values under a
    name: after any calls on it, none of which has built it, it takes a record and is built to the
    index of those that were added, and after any others it takes no call. -/
theorem new_serves (a : Attribute) (name : String) :
    (ofAttribute a).Serves a.name (some a.kind) ∧ (ofName name).Serves name none :=
  ⟨serves a.name (some a.kind), serves name none⟩

end Draft

end ColumnStore.RecordIndex

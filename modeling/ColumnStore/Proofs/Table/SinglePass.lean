import ColumnStore.Proofs.Table.Reduce
import Mathlib.Data.List.Induction
import Mathlib.Data.List.Nodup

/-!
# Lawful reductions take a single pass

A way to fold numbers and to combine results is lawful if two lists that are folded one by one come
to the same as both in one (`Merges`). Then segments do not show in a result: what is reduced
segment by segment comes to one fold of all numbers in order (`Merges.reduce_eq`), and so does what
is reduced chunk by chunk of the rows of a table (`Merges.reduceCells_eq`).

Counting is lawful (`Count.merges`). So a table counts the rows that have a value under the name of
an attribute of numbers. These are the rows in the groups of the name, where each of them is once
(`Table.Holds.grouped_perm`).
-/

namespace ColumnStore

variable {β : Type} {start : β} {push : β → Double → β} {combine : β → β → β}

/-- Two lists of numbers that are folded from the start on, and combined, come to one fold of
    both. -/
def Merges (start : β) (push : β → Double → β) (combine : β → β → β) : Prop :=
  ∀ xs ys : List Double,
    combine (xs.foldl push start) (ys.foldl push start) = (xs ++ ys).foldl push start

namespace Segment

/-- The numbers of the slots that have one, in order. There are none where values are kept as they
    are. -/
def presentNumbers : Segment → List Double
  | s@(.numbers ..) => numbersOf s.toList
  | .objects .. => []

/-- A segment folds its numbers, whatever its encoding. -/
theorem fold_eq_foldl (s : Segment) (start : β) (push : β → Double → β) :
    s.fold start push = s.presentNumbers.foldl push start := by
  cases s with
  | numbers f slots => exact fold_eq (s := .numbers f slots) trivial start push
  | objects kind cells => exact List.foldl_fixed _

/-- Values that are kept as they are in a segment of their kind are no numbers. -/
theorem presentNumbers_eq {s : Segment} (hs : s.WellKinded) :
    s.presentNumbers = numbersOf s.toList := by
  cases s with
  | numbers f slots => rfl
  | objects kind cells =>
    have hnone (slot : Nat) : ((objects kind cells).get? slot).bind Value.number? = none :=
      (getNumber?_eq hs).symm
    rw [numbersOf, toList, List.filterMap_map]
    exact (List.filterMap_eq_nil_iff.2 fun slot _ => hnone slot).symm

end Segment

/-! ## Cells in chunks -/

/-- The chunks up to some number are the cells up to where the last of them ends. -/
theorem flatMap_chunk (cells : List (Option Value)) (n : Nat) :
    (List.range n).flatMap (chunk cells) = cells.take (n * Segment.capacity) := by
  induction n with
  | zero => simp
  | succ n ih =>
    rw [List.range_succ, List.flatMap_append, ih, List.flatMap_singleton, chunk, ← List.take_add,
      Nat.succ_mul]

/-- All chunks together are the cells. -/
theorem flatMap_chunk_chunkCount (cells : List (Option Value)) :
    (List.range (chunkCount cells)).flatMap (chunk cells) = cells := by
  rw [flatMap_chunk, List.take_of_length_le]
  rw [chunkCount, Segment.capacity_eq]
  omega

namespace Merges

variable (h : Merges start push combine)
include h

/-- Parts that are folded one by one and combined come to one fold of them all. -/
theorem foldl_combine (parts : List (List Double)) :
    (parts.map (·.foldl push start)).foldl combine start = parts.flatten.foldl push start := by
  induction parts using List.reverseRecOn with
  | nil => rfl
  | append_singleton rest part ih =>
    -- The law puts the last part after what all those before it come to.
    rw [List.map_append, List.foldl_append, ih, List.flatten_append, List.flatten_singleton, ← h]
    rfl

/-- A reduction takes one pass over the numbers of the segments. -/
theorem reduce_eq (segments : List Segment) :
    reduce segments start push combine
      = (segments.flatMap Segment.presentNumbers).foldl push start := by
  have hfolds : segments.map (fun s => s.fold start push)
      = (segments.map Segment.presentNumbers).map (·.foldl push start) := by
    rw [List.map_map]
    exact List.map_congr_left fun s _ => s.fold_eq_foldl start push
  rw [reduce, hfolds, h.foldl_combine, List.flatMap_def]

/-- Where chunks of cells end does not show in a reduction. -/
theorem reduceCells_eq (cells : List (Option Value)) :
    reduceCells cells start push combine = (numbersOf cells).foldl push start := by
  have hparts : ((List.range (chunkCount cells)).map fun k => numbersOf (chunk cells k)).flatten
      = numbersOf cells := by
    conv_rhs => rw [numbersOf, ← flatMap_chunk_chunkCount cells, List.filterMap_flatMap]
    rw [List.flatMap_def]
    rfl
  rw [reduceCells, ← hparts, ← h.foldl_combine, List.map_map, List.foldl_map]
  rfl

end Merges

/-! ## Counting -/

namespace Count

theorem foldl_push (xs : List Double) (n : Nat) :
    xs.foldl Accumulator.push (⟨n⟩ : Count) = ⟨n + xs.length⟩ := by
  induction xs generalizing n with
  | nil => rfl
  | cons x rest ih =>
    rw [List.foldl_cons, List.length_cons, Nat.add_comm rest.length, ← Nat.add_assoc]
    exact ih (n + 1)

theorem merges : Merges (Accumulator.empty : Count) Accumulator.push Accumulator.combine := by
  intro xs ys
  have hempty : (Accumulator.empty : Count) = ⟨0⟩ := rfl
  rw [hempty, foldl_push, foldl_push, foldl_push, List.length_append]
  simp only [Nat.zero_add]
  rfl

end Count

/-! ## Groups -/

namespace Postings.Groups

variable {α : Type} {groups : List (Value × List α)} {items : List α} {value? : α → Option Value}

/-- If items are grouped by a value that they may have, each item with a value is in one group,
    once. -/
theorem flatMap_perm (h : Groups groups fun v => items.filter fun x => value? x = some v)
    (hnodup : items.Nodup) :
    (groups.flatMap Prod.snd).Perm (items.filter fun x => (value? x).isSome) := by
  have hmem (v : Value) (xs : List α) (hxs : (v, xs) ∈ groups) (x : α) :
      x ∈ xs ↔ x ∈ items ∧ value? x = some v := by
    rw [((h.mem_iff v xs).1 hxs).1, List.mem_filter, decide_eq_true_eq]
  refine (List.perm_ext_iff_of_nodup ?_ (hnodup.filter _)).2 fun x => ?_
  · refine List.nodup_flatMap.2 ⟨fun (v, xs) hxs => ?_, ?_⟩
    · rw [((h.mem_iff v xs).1 hxs).1]
      exact hnodup.filter _
    · -- An item in two groups would have two values.
      refine (List.pairwise_map.1 h.nodup).imp_of_mem fun {g g'} hg hg' hne => ?_
      refine List.disjoint_left.2 fun x hx hx' => hne ?_
      exact Option.some_inj.1 (((hmem _ _ hg x).1 hx).2.symm.trans ((hmem _ _ hg' x).1 hx').2)
  · rw [List.mem_flatMap, List.mem_filter, Option.isSome_iff_exists]
    constructor
    · rintro ⟨⟨v, xs⟩, hxs, hx⟩
      obtain ⟨hitem, hv⟩ := (hmem v xs hxs x).1 hx
      exact ⟨hitem, v, hv⟩
    · rintro ⟨hitem, v, hv⟩
      have hx : x ∈ items.filter fun x => value? x = some v :=
        List.mem_filter.2 ⟨hitem, decide_eq_true hv⟩
      exact ⟨(v, _), (h.mem_iff v _).2 ⟨rfl, List.ne_nil_of_mem hx⟩, hx⟩

end Postings.Groups

namespace Table

variable {t : Table} {entityType : EntityType} {schema : Schema} {entries : List Entry}
  {a : Attribute} {name : String}

theorem nodup_rows (t : Table) : t.rows.Nodup :=
  List.nodup_range.map fun _ _ h => congrArg Row.position h

namespace Holds

variable (ht : t.Holds entityType schema entries)
include ht

/-- The rows in the groups are those that have a value. -/
theorem grouped_perm (name : String) :
    ((t.grouped name).flatMap Prod.snd).Perm (t.rows.filter fun r => (r.get? name).isSome) := by
  have hgroups := ht.groups name
  rw [funext (ht.find_eq name)] at hgroups
  exact hgroups.flatMap_perm t.nodup_rows

/-- Under the name of an attribute of numbers, each value is a number. -/
theorem length_numbersOf_rows (ha : a ∈ schema.attributes) (hnumeric : a.kind.isNumeric) :
    (numbersOf (t.rows.map (·.get? a.name))).length
      = (t.rows.filter fun r => (r.get? a.name).isSome).length := by
  have hnumber (r : Row) (hr : r ∈ t.rows) :
      ((r.get? a.name).bind Value.number?).isSome = (r.get? a.name).isSome := by
    obtain ⟨p, -, rfl⟩ := List.mem_map.1 hr
    cases hv : Row.get? ⟨t, p⟩ a.name with
    | none => rfl
    | some v =>
      obtain ⟨b, hb, hname, hkind⟩ := ht.exists_of_get?_row hv
      rw [Schema.eq_of_name_eq hb ha hname] at hkind
      rw [← hkind] at hnumeric
      cases v <;> first | rfl | cases hnumeric
  rw [numbersOf, List.filterMap_map, List.length_filterMap_eq_countP, List.countP_eq_length_filter]
  exact congrArg List.length (List.filter_congr hnumber)

end Holds

/-- A lawful reduction of the numbers under a name takes one pass over the rows, in order. -/
def ReducesInOnePass (t : Table) : Prop :=
  ∀ a ∈ t.schema.attributes, a.kind.isNumeric →
    ∀ {β : Type} {start : β} {push : β → Double → β} {combine : β → β → β},
      Merges start push combine → t.reduce a.name start push combine
        = .ok ((numbersOf (t.rows.map (·.get? a.name))).foldl push start)

/-- The rows that have a value under the name of an attribute of numbers are counted, and these are
    as many as there are in the groups of the name. -/
def CountsPresent (t : Table) : Prop :=
  ∀ a ∈ t.schema.attributes, a.kind.isNumeric →
    t.summarize Count a.name = .ok ⟨(t.rows.filter fun r => (r.get? a.name).isSome).length⟩ ∧
      ((t.grouped a.name).map fun group => group.2.length).sum
        = (t.rows.filter fun r => (r.get? a.name).isSome).length

theorem ReducesRows.inOnePass (h : t.ReducesRows) : t.ReducesInOnePass := by
  intro a ha hnumeric β start push combine hmerges
  rw [h, Schema.attribute?_eq_some.2 ⟨ha, rfl⟩, hmerges.reduceCells_eq]
  exact if_pos hnumeric

theorem Holds.countsPresent (ht : t.Holds entityType schema entries)
    (hreduces : t.ReducesInOnePass) : t.CountsPresent := by
  intro a ha hnumeric
  refine ⟨?_, ?_⟩
  · rw [summarize, hreduces a ha hnumeric Count.merges]
    have hempty : (Accumulator.empty : Count) = ⟨0⟩ := rfl
    rw [hempty, Count.foldl_push, Nat.zero_add,
      ht.length_numbersOf_rows (ht.schema_eq ▸ ha) hnumeric]
  · rw [← (ht.grouped_perm a.name).length_eq, List.length_flatMap]

/-- A lawful reduction takes one pass over the numbers of all segments, however many there are and
    wherever they end. In segments of their kind these are the numbers among the values. Counting is
    lawful.

    After any steps on a new draft, the table that it is built to and the one that is peeked at
    reduce their rows in one pass, and count those that have a value, which are those in the
    groups. -/
theorem run_singlePass (entityType : EntityType) (schema : Schema) (settings : Settings)
    (steps : List BuildStep) :
    (∀ {β : Type} {start : β} {push : β → Double → β} {combine : β → β → β},
      Merges start push combine → ∀ segments : List Segment,
        ColumnStore.reduce segments start push combine
          = (segments.flatMap Segment.presentNumbers).foldl push start) ∧
    (∀ s : Segment, s.WellKinded → s.presentNumbers = numbersOf s.toList) ∧
    Merges (Accumulator.empty : Count) Accumulator.push Accumulator.combine ∧
    let d := (run Draft.step steps { entityType, schema, settings }).2
    ∃ built peeked, d.build = .ok built ∧ d.peek = .ok peeked ∧ ∀ t ∈ [built, peeked],
      t.schema = schema ∧ t.ReducesInOnePass ∧ t.CountsPresent := by
  refine ⟨fun h => h.reduce_eq, fun s => Segment.presentNumbers_eq, Count.merges, ?_⟩
  obtain ⟨entries, hd, hspare⟩ := Draft.run_noSpare entityType schema settings steps
  obtain ⟨built, entries', hbuild, hbuilt, -⟩ := hd.build
  obtain ⟨peeked, hpeek, hpeeked, -⟩ := hd.peek
  refine ⟨built, peeked, hbuild, hpeek, ?_⟩
  have hcounts {t : Table} {entries : List Entry} (ht : t.Holds entityType schema entries)
      (hspare : t.NoSpare) : t.schema = schema ∧ t.ReducesInOnePass ∧ t.CountsPresent :=
    have honce := ReducesRows.inOnePass (ht.reducesRows hspare)
    ⟨ht.schema_eq, honce, ht.countsPresent honce⟩
  rw [List.forall_mem_cons, List.forall_mem_singleton]
  exact ⟨hcounts hbuilt (hspare.build hbuild), hcounts hpeeked (hspare.peek hpeek)⟩

/-- Listing numbers is lawful. Of two entities one has a rating, which is listed and counted. -/
theorem run_singlePass_ratings :
    let steps : List BuildStep :=
      [.add ⟨Record.idOnly ⟨"rating"⟩ 7, false⟩, .add ⟨ratingRecord 5 (.double ⟨3⟩), false⟩]
    let d := (run Draft.step steps { entityType := ⟨"rating"⟩, schema := ratings }).2
    Merges [] (fun xs x => xs ++ [x]) (· ++ ·) ∧ ∃ t, d.peek = .ok t ∧
      t.reduce "rating" [] (fun xs x => xs ++ [x]) (· ++ ·) = .ok [⟨3⟩] ∧
      t.summarize Count "rating" = .ok ⟨1⟩ ∧
      ((t.grouped "rating").map fun group => group.2.length).sum = 1 := by
  intro steps d
  have hmerges : Merges [] (fun (xs : List Double) x => xs ++ [x]) (· ++ ·) := fun xs ys => by
    simp
  obtain ⟨-, -, -, built, t, -, hpeek, htables⟩ := run_singlePass ⟨"rating"⟩ ratings {} steps
  obtain ⟨hschema, honce, hcounts⟩ := htables t (List.mem_cons_of_mem _ List.mem_cons_self)
  have hrating : .rating ∈ t.schema.attributes := by
    rw [hschema]
    decide
  have hrows : d.peek.map (fun t => t.rows.map (·.get? Attribute.rating.name))
      = .ok [none, some (.double ⟨3⟩)] := by decide +kernel
  rw [hpeek] at hrows
  replace hrows : t.rows.map (·.get? Attribute.rating.name) = [none, some (.double ⟨3⟩)] :=
    Except.ok.inj hrows
  have hpresent :
      ((t.rows.map (·.get? Attribute.rating.name)).filter Option.isSome).length = 1 := by
    rw [hrows]
    rfl
  rw [List.filter_map, List.length_map] at hpresent
  have hlist := honce .rating hrating rfl hmerges
  rw [hrows] at hlist
  obtain ⟨hcount, hgroups⟩ := hcounts .rating hrating rfl
  exact ⟨hmerges, t, hpeek, hlist, hpresent ▸ hcount, hgroups.trans hpresent⟩

end Table

end ColumnStore

import ColumnStore.Postings
import Mathlib.Data.List.Nodup

/-!
# Postings answer from what was recorded

Postings have a list under some of the values (`Postings.list?`), which is all there is to their
answers: they list the values that have one, each of them once, and group what is found by them
(`lists_of_list?`). Whether they go by longs or by values of any kind makes no difference to that.

Postings that were made of a list of items keep, under each value that they take, the items that
came with it in their order (`lists_ofList`). Their groups are those lists, one for each value that
came with any item (`Lists.groups`).
-/

namespace ColumnStore.Postings

variable {α : Type} {items rest : List (Option Value × α)} {p : Postings α} {kind? : Option Kind}
  {v w : Value} {x : α}

/-! ## The list under a value -/

/-- The list under a value, if there is one. -/
def list? (p : Postings α) (v : Value) : Option (Array α) :=
  match p, v with
  | .byLong lists, .long n => lists[n]?
  | .byLong _, _ => none
  | .byValue lists, v => lists[v]?

/-- Items can be recorded under the value. -/
def takes : Postings α → Value → Bool
  | .byLong _, v => v.kind = .long
  | .byValue _, _ => true

/-- Postings of a kind take all values unless the kind is that of longs, when they take longs. -/
theorem takes_empty (kind? : Option Kind) (v : Value) :
    (empty kind? : Postings α).takes v = (kind? ≠ some .long || v.kind = .long) := by
  rcases kind? with _ | kind
  · rfl
  · cases kind <;> simp [empty, takes]

theorem list?_empty (kind? : Option Kind) (v : Value) :
    (empty kind? : Postings α).list? v = none := by
  rcases kind? with _ | kind
  · exact Std.HashMap.getElem?_empty
  · cases kind <;> cases v <;> first | rfl | exact Std.HashMap.getElem?_empty

theorem getElem?_push {κ : Type} [DecidableEq κ] [Hashable κ]
    (lists : Std.HashMap κ (Array α)) (k l : κ) (x : α) :
    (push lists k x)[l]?
      = if k = l then some ((lists[k]?.getD #[]).push x) else lists[l]? := by
  rw [push, Std.HashMap.getElem?_alter]
  by_cases hkl : k = l
  · rw [if_pos hkl, if_pos (beq_iff_eq.2 hkl)]
    cases lists[k]? <;> rfl
  · rw [if_neg hkl, if_neg (by simpa using hkl)]

theorem add_byValue (lists : Std.HashMap Value (Array α)) (v : Value) (x : α) :
    (byValue lists).add v x = byValue (push lists v x) := by
  cases v <;> rfl

@[simp]
theorem takes_add (p : Postings α) (w : Value) (x : α) (v : Value) :
    (p.add w x).takes v = p.takes v := by
  cases p with
  | byLong lists => cases w <;> rfl
  | byValue lists => rw [add_byValue]; rfl

/-- A long is recorded as any other value. -/
theorem addLong_eq (p : Postings α) (n : Int64) (x : α) : p.addLong n x = p.add (.long n) x := by
  cases p <;> rfl

/-- An item comes at the end of the list under its value. -/
theorem list?_add (hw : p.takes w) (x : α) (v : Value) :
    (p.add w x).list? v
      = if w = v then some (((p.list? w).getD #[]).push x) else p.list? v := by
  cases p with
  | byLong lists =>
    cases w with
    | long m =>
      cases v with
      | long n =>
        rw [add, addLong, list?, getElem?_push]
        simp only [Value.long.injEq]
        rfl
      | int | double | bool | text => rfl
    | int | double | bool | text => exact absurd hw nofun
  | byValue lists =>
    rw [add_byValue]
    exact getElem?_push lists w v x

/-- An item with a value that is not taken is passed over. -/
theorem add_of_not_takes (hw : p.takes w = false) (x : α) : p.add w x = p := by
  cases p with
  | byLong lists =>
    cases w with
    | long n => exact absurd hw nofun
    | int | double | bool | text => rfl
  | byValue lists => exact absurd hw nofun

/-! ## Answers -/

/-- What postings answer is what is found under each value, as far as anything is. -/
structure Lists (p : Postings α) (found : Value → List α) : Prop where
  find_eq : ∀ v, p.find v = found v
  nodup_values : p.values.Nodup
  mem_values : ∀ v, v ∈ p.values ↔ found v ≠ []
  /-- There is a group for each of the values, of what is found under it. -/
  groups_eq : p.groups = p.values.map fun v => (v, found v)
  size_eq : p.size = p.values.length

theorem find_eq_list? (p : Postings α) (v : Value) : p.find v = ((p.list? v).getD #[]).toList := by
  cases p with
  | byLong lists =>
    cases v with
    | long n => rw [find, list?, Std.HashMap.getD_eq_getD_getElem?]
    | int | double | bool | text => rfl
  | byValue lists => rw [find, list?, Std.HashMap.getD_eq_getD_getElem?]

/-- The entries are the values that have a list, with this list. -/
theorem mem_entries {xs : Array α} : (v, xs) ∈ p.entries ↔ p.list? v = some xs := by
  cases p with
  | byLong lists =>
    simp only [entries, List.mem_map, Prod.exists, Prod.mk.injEq,
      Std.HashMap.mem_toList_iff_getElem?_eq_some]
    constructor
    · rintro ⟨n, ys, hn, rfl, rfl⟩
      exact hn
    · intro h
      cases v with
      | long n => exact ⟨n, xs, h, rfl, rfl⟩
      | int | double | bool | text => exact absurd h nofun
  | byValue lists => exact Std.HashMap.mem_toList_iff_getElem?_eq_some

/-- No value has two entries. -/
theorem nodup_entries (p : Postings α) : (p.entries.map Prod.fst).Nodup := by
  cases p with
  | byLong lists =>
    have hkeys : (entries (.byLong lists)).map Prod.fst = lists.keys.map Value.long := by
      rw [entries, List.map_map, ← Std.HashMap.map_fst_toList_eq_keys, List.map_map]
      rfl
    rw [hkeys]
    exact Std.HashMap.nodup_keys.map fun _ _ h => Value.long.inj h
  | byValue lists =>
    rw [entries, Std.HashMap.map_fst_toList_eq_keys]
    exact Std.HashMap.nodup_keys

theorem length_entries (p : Postings α) : p.entries.length = p.size := by
  cases p with
  | byLong lists => rw [entries, List.length_map, Std.HashMap.length_toList, size]
  | byValue lists => rw [entries, Std.HashMap.length_toList, size]

theorem mem_values : v ∈ p.values ↔ (p.list? v).isSome := by
  rw [values, List.mem_mergeSort, List.mem_map, Option.isSome_iff_exists]
  constructor
  · rintro ⟨⟨w, xs⟩, hmem, rfl⟩
    exact ⟨xs, mem_entries.1 hmem⟩
  · rintro ⟨xs, hxs⟩
    exact ⟨(v, xs), mem_entries.2 hxs, rfl⟩

theorem groups_eq_map (p : Postings α) : p.groups = p.values.map fun v => (v, p.find v) := by
  have hvalues : p.values = (p.entries.mergeSort fun a b => a.1.precedes b.1).map Prod.fst :=
    (List.map_mergeSort (f := Prod.fst) fun _ _ _ _ => rfl).symm
  rw [groups, Value.inOrder, hvalues, List.map_map]
  refine List.map_congr_left fun ⟨v, xs⟩ hmem => ?_
  have hxs : p.list? v = some xs := mem_entries.1 (List.mem_mergeSort.1 hmem)
  rw [Function.comp_apply, find_eq_list?, hxs, Option.getD_some]

/-- Postings answer from the lists that there are, none of which is empty. -/
theorem lists_of_list? {found : Value → List α}
    (h : ∀ v, p.list? v = if found v = [] then none else some (found v).toArray) :
    p.Lists found := by
  have hfind (v : Value) : p.find v = found v := by
    rw [find_eq_list?, h]
    split
    · rename_i hnil
      rw [Option.getD_none, hnil]
    · rw [Option.getD_some]
  refine ⟨hfind, ?_, fun v => ?_, ?_, ?_⟩
  · rw [values, (List.mergeSort_perm ..).nodup_iff]
    exact p.nodup_entries
  · rw [mem_values, h]
    split <;> simpa
  · simp only [groups_eq_map, hfind]
  · rw [values, List.length_mergeSort, List.length_map, length_entries]

/-! ## Groups -/

/-- The groups are what is found under each value, as far as anything is. -/
structure Groups (groups : List (Value × List α)) (found : Value → List α) : Prop where
  /-- No value has two groups. -/
  nodup : (groups.map Prod.fst).Nodup
  mem_iff : ∀ v xs, (v, xs) ∈ groups ↔ xs = found v ∧ xs ≠ []

namespace Groups

variable {groups groups' : List (Value × List α)} {found : Value → List α}

theorem nil : Groups [] fun _ => ([] : List α) where
  nodup := List.nodup_nil
  mem_iff _ _ := ⟨nofun, fun h => absurd h.1 h.2⟩

/-- What is found is seen in another way, and so is what is in the groups. -/
theorem map {β : Type} (h : Groups groups found) (f : α → β) :
    Groups (groups.map fun group => (group.1, group.2.map f)) fun v => (found v).map f where
  nodup := by
    rw [List.map_map]
    exact h.nodup
  mem_iff v ys := by
    rw [List.mem_map]
    constructor
    · rintro ⟨⟨w, xs⟩, hmem, heq⟩
      obtain ⟨rfl, rfl⟩ := Prod.mk.inj heq
      obtain ⟨rfl, hne⟩ := (h.mem_iff w xs).1 hmem
      exact ⟨rfl, List.map_eq_nil_iff.not.2 hne⟩
    · rintro ⟨rfl, hne⟩
      exact ⟨(v, found v), (h.mem_iff v _).2 ⟨rfl, List.map_eq_nil_iff.not.1 hne⟩, rfl⟩

/-- What is found leaves no choice but the order of the groups. -/
theorem perm (h : Groups groups found) (h' : Groups groups' found) : groups.Perm groups' :=
  (List.perm_ext_iff_of_nodup (.of_map Prod.fst h.nodup) (.of_map Prod.fst h'.nodup)).2
    fun ⟨v, xs⟩ => (h.mem_iff v xs).trans (h'.mem_iff v xs).symm

end Groups

theorem Lists.groups {found : Value → List α} (h : p.Lists found) : Groups p.groups found where
  nodup := by
    rw [h.groups_eq, List.map_map]
    exact (List.map_id _).symm ▸ h.nodup_values
  mem_iff v xs := by
    rw [h.groups_eq, List.mem_map]
    constructor
    · rintro ⟨w, hw, heq⟩
      obtain ⟨rfl, rfl⟩ := Prod.mk.inj heq
      exact ⟨rfl, (h.mem_values w).1 hw⟩
    · rintro ⟨rfl, hne⟩
      exact ⟨v, (h.mem_values v).2 hne, rfl⟩

/-! ## Items -/

/-- The items that came with a value. -/
def under (items : List (Option Value × α)) (v : Value) : List α :=
  (items.filter (·.1 = some v)).map Prod.snd

/-- Where each item comes with a value of its own, it is found under that. -/
theorem under_map_key (key : α → Option Value) (xs : List α) (v : Value) :
    under (xs.map fun x => (key x, x)) v = xs.filter fun x => key x = some v := by
  rw [under, List.filter_map, List.map_map]
  exact List.map_id _

/-- Items come with the same values if they are seen in another way. -/
theorem under_map {β : Type} (f : α → β) (items : List (Option Value × α)) (v : Value) :
    under (items.map fun item => (item.1, f item.2)) v = (under items v).map f := by
  rw [under, under, List.filter_map, List.map_map, List.map_map]
  rfl

theorem under_concat (items : List (Option Value × α)) (w? : Option Value) (x : α) (v : Value) :
    under (items ++ [(w?, x)]) v = under items v ++ if w? = some v then [x] else [] := by
  rw [under, under, List.filter_append, List.map_append]
  by_cases h : w? = some v <;> simp [h]

/-- Under each value that is taken the items are recorded that came with it, and nothing under
    others. -/
def Records (p : Postings α) (items : List (Option Value × α)) : Prop :=
  ∀ v, p.list? v
    = if p.takes v = false ∨ under items v = [] then none else some (under items v).toArray

theorem records_empty (kind? : Option Kind) : (empty kind? : Postings α).Records [] := fun v => by
  rw [list?_empty, if_pos (.inr rfl)]

theorem Records.add (h : p.Records items) (w : Value) (x : α) :
    (p.add w x).Records (items ++ [(some w, x)]) := by
  intro v
  rw [takes_add, under_concat]
  by_cases hw : p.takes w
  · rw [list?_add hw, h, h]
    by_cases hv : w = v
    · subst hv
      by_cases hnil : under items w = [] <;> simp [hw, hnil]
    · rw [if_neg hv, if_neg fun heq => hv (Option.some_inj.1 heq), List.append_nil]
  · rw [Bool.not_eq_true] at hw
    rw [add_of_not_takes hw, h]
    by_cases hv : w = v
    · subst hv
      rw [if_pos (.inl hw), if_pos (.inl hw)]
    · rw [if_neg fun heq => hv (Option.some_inj.1 heq), List.append_nil]

theorem Records.skip (h : p.Records items) (x : α) : p.Records (items ++ [(none, x)]) := by
  intro v
  rw [under_concat, if_neg (Option.some_ne_none v).symm, List.append_nil, h v]

/-- Recording items one by one comes to the same as recording them all. -/
theorem records_foldl (h : p.Records items) (rest : List (Option Value × α)) :
    (rest.foldl addItem p).Records (items ++ rest) := by
  induction rest generalizing p items with
  | nil => rwa [List.append_nil]
  | cons item rest ih =>
    rw [List.append_cons]
    obtain ⟨w?, x⟩ := item
    cases w? with
    | none => exact ih (h.skip x)
    | some w => exact ih (h.add w x)

theorem takes_foldl (p : Postings α) (rest : List (Option Value × α)) (v : Value) :
    (rest.foldl addItem p).takes v = p.takes v := by
  induction rest generalizing p with
  | nil => rfl
  | cons item rest ih =>
    obtain ⟨w?, x⟩ := item
    cases w? with
    | none => exact ih p
    | some w => exact (ih (p.add w x)).trans (takes_add p w x v)

/-- What postings of a kind have under a value. -/
def found (kind? : Option Kind) (items : List (Option Value × α)) (v : Value) : List α :=
  if kind? = some .long ∧ v.kind ≠ .long then [] else under items v

/-- Postings of longs lose nothing if all items came with longs. -/
theorem found_eq_under (h : ∀ v x, (some v, x) ∈ items → kind? = some .long → v.kind = .long) :
    found kind? items = under items := by
  funext v
  rw [found]
  split
  · rename_i hnot
    refine (List.map_eq_nil_iff.2 (List.filter_eq_nil_iff.2 ?_)).symm
    rintro ⟨w?, x⟩ hmem heq
    obtain rfl : w? = some v := of_decide_eq_true heq
    exact hnot.2 (h v x hmem hnot.1)
  · rfl

/-- Postings of items answer with the items that came with each value. -/
theorem lists_ofList (kind? : Option Kind) (items : List (Option Value × α)) :
    (ofList kind? items).Lists (found kind? items) := by
  refine lists_of_list? fun v => ?_
  have hrecords := records_foldl (records_empty kind?) items v
  rw [List.nil_append, takes_foldl, takes_empty] at hrecords
  rw [ofList, hrecords, found]
  by_cases hnot : kind? = some .long ∧ v.kind ≠ .long
  · rw [if_pos hnot, if_pos rfl]
    exact if_pos (.inl (by simpa using hnot))
  · rw [if_neg hnot]
    refine if_congr (or_iff_right ?_) rfl rfl
    simpa using hnot

end ColumnStore.Postings

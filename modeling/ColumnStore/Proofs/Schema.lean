import ColumnStore.Proofs.PositionSet
import ColumnStore.Schema
import Mathlib.Data.List.Nodup

/-!
# Schemas find their attributes

No two attributes of a schema have one name, so a name stands for one attribute at most
(`Schema.attribute?`), and its position is that of the attribute (`position?_eq_some`). A
position that is asked for with an attribute is the one that its name has, provided that the
schema has the attribute with the same kind (`positionOf?_eq_some`).

Attributes of different names make a schema unless they are too many (`create_of_nodup`). A schema
without the attributes at some positions keeps the others in their order (`named_without`).
-/

namespace ColumnStore.Schema

variable {s : Schema} {a b : Attribute} {name : String} {i : Nat}

theorem eq_of_named {s' : Schema} (h : s.named = s'.named) : s = s' := by
  cases s
  cases s'
  cases h
  rfl

theorem mem_attributes : a ∈ s.attributes ↔ a = .entityId ∨ a ∈ s.named := List.mem_cons

theorem entityId_mem : .entityId ∈ s.attributes := List.mem_cons_self

theorem nodup_names (s : Schema) : (s.attributes.map Attribute.name).Nodup := by
  rw [attributes, List.map_cons, List.nodup_cons]
  refine ⟨?_, s.nodup⟩
  intro h
  obtain ⟨a, ha, heq⟩ := List.mem_map.1 h
  exact s.name_ne_id a ha heq

theorem eq_of_name_eq (ha : a ∈ s.attributes) (hb : b ∈ s.attributes) (h : a.name = b.name) :
    a = b := List.inj_on_of_nodup_map s.nodup_names ha hb h

theorem position_eq_of_name_eq {j : Nat} (hi : i < s.attributes.length)
    (hj : j < s.attributes.length) (h : s.attributes[i].name = s.attributes[j].name) : i = j :=
  (s.nodup_names.of_map Attribute.name).getElem_inj_iff.1
    (eq_of_name_eq (List.getElem_mem hi) (List.getElem_mem hj) h)

/-- The attribute with the given name. -/
def attribute? (s : Schema) (name : String) : Option Attribute :=
  s.attributes.find? (·.name = name)

theorem attribute?_eq_some : s.attribute? name = some a ↔ a ∈ s.attributes ∧ a.name = name := by
  constructor
  · intro h
    exact ⟨List.mem_of_find?_eq_some h, by simpa using List.find?_some h⟩
  · rintro ⟨ha, rfl⟩
    obtain ⟨b, hb⟩ : ∃ b, s.attribute? a.name = some b := by
      rw [← Option.isSome_iff_exists, attribute?, List.find?_isSome]
      exact ⟨a, ha, by simp⟩
    have hname : b.name = a.name := by simpa using List.find?_some hb
    rw [hb, eq_of_name_eq (List.mem_of_find?_eq_some hb) ha hname]

theorem attribute?_idName : s.attribute? Attribute.idName = some .entityId :=
  attribute?_eq_some.2 ⟨entityId_mem, rfl⟩

/-- A name has the position of its attribute. -/
theorem position?_eq_some :
    s.position? name = some i ↔ ∃ a, s.attributes[i]? = some a ∧ s.attribute? name = some a := by
  rw [position?, List.findIdx?_eq_some_iff_getElem]
  constructor
  · rintro ⟨hi, hname, -⟩
    have hname : s.attributes[i].name = name := by simpa using hname
    exact ⟨_, List.getElem?_eq_getElem hi,
      attribute?_eq_some.2 ⟨List.getElem_mem hi, hname⟩⟩
  · rintro ⟨a, ha, hname⟩
    obtain ⟨hi, rfl⟩ := List.getElem?_eq_some_iff.1 ha
    obtain ⟨-, hname⟩ := attribute?_eq_some.1 hname
    refine ⟨hi, by simpa, fun j hj heq => Nat.ne_of_lt hj ?_⟩
    exact position_eq_of_name_eq (Nat.lt_trans hj hi) hi ((of_decide_eq_true heq).trans hname.symm)

/-- Whichever attribute has a name, its position is found. -/
theorem position?_eq_some_iff :
    s.position? name = some i ↔ ∃ a, s.attributes[i]? = some a ∧ a.name = name := by
  rw [position?_eq_some]
  constructor
  · rintro ⟨a, ha, hname⟩
    exact ⟨a, ha, (attribute?_eq_some.1 hname).2⟩
  · rintro ⟨a, ha, rfl⟩
    exact ⟨a, ha, attribute?_eq_some.2 ⟨List.mem_of_getElem? ha, rfl⟩⟩

theorem position?_eq_none : s.position? name = none ↔ s.attribute? name = none := by
  rw [position?, List.findIdx?_eq_none_iff, attribute?, List.find?_eq_none]
  simp

/-- An attribute of the schema has the position of its name. -/
theorem positionOf?_eq_some : s.positionOf? a = some i ↔ s.attributes[i]? = some a := by
  rw [positionOf?, List.findIdx?_eq_some_iff_getElem]
  constructor
  · rintro ⟨hi, heq, -⟩
    rw [List.getElem?_eq_getElem hi, of_decide_eq_true heq]
  · intro ha
    obtain ⟨hi, rfl⟩ := List.getElem?_eq_some_iff.1 ha
    refine ⟨hi, by simp, fun j hj heq => Nat.ne_of_lt hj ?_⟩
    exact position_eq_of_name_eq (Nat.lt_trans hj hi) hi (by rw [of_decide_eq_true heq])

theorem positionOf?_eq_none : s.positionOf? a = none ↔ a ∉ s.attributes := by
  rw [positionOf?, List.findIdx?_eq_none_iff]
  simp only [decide_eq_false_iff_not]
  exact ⟨fun h ha => h a ha rfl, fun h b hb heq => h (heq ▸ hb)⟩

/-- The position of an attribute is that of its name if the schema has it. -/
theorem positionOf?_eq (s : Schema) (a : Attribute) :
    s.positionOf? a = if a ∈ s.attributes then s.position? a.name else none := by
  split
  · rename_i ha
    refine Option.ext ?_
    intro i
    rw [positionOf?_eq_some, position?_eq_some, attribute?_eq_some.2 ⟨ha, rfl⟩]
    exact ⟨fun h => ⟨a, h, rfl⟩, fun ⟨b, hb, heq⟩ => Option.some_inj.1 heq ▸ hb⟩
  · rename_i ha
    exact positionOf?_eq_none.2 ha

/-! ## Making a schema -/

/-- Nothing is wrong with attributes of different names, none of which is that of the id or one that
    was seen. -/
theorem firstFault?_eq_none_iff {seen : List String} {as : List Attribute} :
    firstFault? seen as = none ↔ (∀ a ∈ as, a.name ≠ Attribute.idName) ∧
      (∀ a ∈ as, a.name ∉ seen) ∧ (as.map Attribute.name).Nodup := by
  refine ⟨wellNamed_of_firstFault?, ?_⟩
  induction as generalizing seen with
  | nil => exact fun _ => rfl
  | cons a rest ih =>
    rintro ⟨hids, hfresh, hnodup⟩
    rw [List.map_cons, List.nodup_cons] at hnodup
    obtain ⟨hid, hids⟩ := List.forall_mem_cons.1 hids
    obtain ⟨hseen, hfresh⟩ := List.forall_mem_cons.1 hfresh
    rw [firstFault?, if_neg hid, if_neg hseen]
    refine ih ⟨hids, fun b hb => ?_, hnodup.2⟩
    rw [List.mem_cons, not_or]
    exact ⟨fun heq => hnodup.1 (List.mem_map.2 ⟨b, hb, heq⟩), hfresh b hb⟩

/-- Attributes of different names, none of which is that of the id, make a schema if they are not
    too many. -/
theorem create_of_nodup {as : List Attribute} (hids : ∀ a ∈ as, a.name ≠ Attribute.idName)
    (hnodup : (as.map Attribute.name).Nodup) :
    create as = if h : as.length < PositionSet.capacity then .ok ⟨as, hids, hnodup, h⟩
      else .error (.tooManyAttributes (as.length + 1) PositionSet.capacity) := by
  have hafter : afterId as = as := by
    cases as with
    | nil => rfl
    | cons a rest =>
      refine if_neg fun hid => hids a List.mem_cons_self ?_
      rw [of_decide_eq_true hid]
      rfl
  have hfault : firstFault? [] (afterId as) = none := by
    rw [hafter]
    exact firstFault?_eq_none_iff.2 ⟨hids, fun _ _ => List.not_mem_nil, hnodup⟩
  rw [create]
  split
  · rename_i e he
    exact absurd (hfault.symm.trans he) nofun
  · simp only [hafter]

/-! ## Parts of a schema -/

/-- The attributes that stay in a schema are those at other positions. -/
theorem mem_named_without {s : Schema} {missing : PositionSet} {a : Attribute} :
    a ∈ (s.without missing).named ↔
      ∃ i, s.named[i]? = some a ∧ missing.contains (i + 1) = false := by
  rw [without, restrict, List.mem_map]
  simp only [List.mem_filter, Bool.not_eq_true', Prod.exists, exists_and_right, exists_eq_right]
  constructor
  · rintro ⟨i, hmem, hstays⟩
    obtain ⟨hle, hi⟩ := List.mk_mem_zipIdx_iff_le_and_getElem?_sub.1 hmem
    exact ⟨i - 1, hi, by rwa [Nat.sub_add_cancel hle]⟩
  · rintro ⟨i, hi, hstays⟩
    exact ⟨i + 1, List.mk_mem_zipIdx_iff_le_and_getElem?_sub.2 ⟨Nat.le_add_left _ _, hi⟩, hstays⟩

/-- The attributes that stay are those for which this is so at their positions. -/
theorem named_without {s : Schema} {missing : PositionSet} (stays : Attribute → Bool)
    (h : ∀ i a, s.named[i]? = some a → missing.contains (i + 1) = !stays a) :
    (s.without missing).named = s.named.filter stays := by
  have hstays : (s.named.zipIdx 1).filter (fun p => !missing.contains p.2)
      = (s.named.zipIdx 1).filter (stays ∘ Prod.fst) := by
    refine List.filter_congr fun p hp => ?_
    obtain ⟨hle, hi⟩ := List.mk_mem_zipIdx_iff_le_and_getElem?_sub.1 hp
    have hcontains := h _ _ hi
    rw [Nat.sub_add_cancel hle] at hcontains
    rw [hcontains, Bool.not_not, Function.comp_apply]
  rw [without, restrict]
  dsimp only
  rw [hstays, ← List.filter_map, List.zipIdx_map_fst]

/-- Without no positions the schema stays as it is. -/
theorem without_of_isEmpty (s : Schema) {missing : PositionSet} (h : missing.isEmpty) :
    s.without missing = s := by
  refine eq_of_named ?_
  rw [named_without (fun _ => true) fun i _ _ => missing.contains_of_isEmpty h _,
    List.filter_true]

end ColumnStore.Schema

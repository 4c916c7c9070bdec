import ColumnStore.Directory
import ColumnStore.Proofs.Declaration

/-!
# Directories find what they list

A directory has a list of attributes and a table of positions, which are filled side by side. They
stay inverse to each other, so a directory is a schema with a table of its names:

* As long as the names are different, the table has for each of them the position in the list
  (`Directory.Lists.push`), whatever is entered, and in whatever part of it is made anew.
* Entering a list of attributes comes to the schema of the list, or to the same error
  (`Directory.create_eq`), and leaving attributes out comes to the schema without them
  (`Directory.without_ofSchema`).
-/

namespace ColumnStore

variable {as : List Attribute} {a : Attribute} {i : Nat} {e : SchemaError}

/-! ## Lists and their tables -/

namespace Directory

variable {d : Directory}

/-- The attributes are those of the list, and the table has the position of each of their names. -/
structure Lists (d : Directory) (as : List Attribute) : Prop where
  toList_attributes : d.attributes.toList = as
  position?_eq_some : ∀ name i,
    d.position? name = some i ↔ ∃ a, as[i]? = some a ∧ a.name = name

/-- The directory of attributes that are entered without looking at them. -/
def ofList (as : List Attribute) : Directory := as.foldl push {}

theorem lists_nil : Lists {} [] where
  toList_attributes := rfl
  position?_eq_some name i := by
    rw [position?, Std.HashMap.getElem?_empty]
    exact ⟨nofun, fun ⟨_, ha, _⟩ => nomatch ha⟩

/-- A new name goes to the end of the list, and to the table with the position there. -/
theorem Lists.push (h : d.Lists as) (ha : a.name ∉ as.map Attribute.name) :
    (d.push a).Lists (as ++ [a]) where
  toList_attributes := by
    rw [Directory.push, Array.toList_push, h.toList_attributes]
  position?_eq_some name i := by
    have hsize : d.attributes.size = as.length := by
      rw [← h.toList_attributes, Array.length_toList]
    have hposition : (d.push a).position? name
        = if a.name = name then some as.length else d.position? name := by
      rw [position?, Directory.push, Std.HashMap.getElem?_insert, hsize]
      simp only [beq_iff_eq]
      rfl
    rw [hposition]
    simp only [getElem?_concat_eq_some]
    split
    · rename_i hname
      constructor
      · intro hi
        exact ⟨a, .inr ⟨(Option.some_inj.1 hi).symm, rfl⟩, hname⟩
      · -- The table forgets nothing by the new name, as no attribute in the list has it.
        rintro ⟨b, hb | ⟨rfl, rfl⟩, hbname⟩
        · exact absurd (List.mem_map.2 ⟨b, List.mem_of_getElem? hb, hbname.trans hname.symm⟩) ha
        · rfl
    · rename_i hname
      rw [h.position?_eq_some]
      constructor
      · rintro ⟨b, hb, hbname⟩
        exact ⟨b, .inl hb, hbname⟩
      · rintro ⟨b, hb | ⟨rfl, rfl⟩, hbname⟩
        · exact ⟨b, hb, hbname⟩
        · exact absurd hbname hname

@[simp]
theorem ofList_concat : ofList (as ++ [a]) = (ofList as).push a := by
  rw [ofList, List.foldl_append]
  rfl

theorem toList_attributes_ofList (as : List Attribute) : (ofList as).attributes.toList = as := by
  induction as using List.reverseRecOn with
  | nil => rfl
  | append_singleton rest a ih => rw [ofList_concat, push, Array.toList_push, ih]

theorem size_ofList (as : List Attribute) : (ofList as).size = as.length := by
  rw [size, ← Array.length_toList, toList_attributes_ofList]

/-- Attributes of different names are found where they are entered. -/
theorem lists_ofList (h : (as.map Attribute.name).Nodup) : (ofList as).Lists as := by
  induction as using List.reverseRecOn with
  | nil => exact lists_nil
  | append_singleton rest a ih =>
    rw [List.map_append, List.map_singleton, ← List.concat_eq_append, List.nodup_concat] at h
    rw [ofList_concat]
    exact (ih h.2).push h.1

/-! ## Directories of schemas -/

/-- The list of a schema with a table of its names. -/
def ofSchema (s : Schema) : Directory := ofList s.attributes

theorem lists_ofSchema (s : Schema) : (ofSchema s).Lists s.attributes :=
  lists_ofList s.nodup_names

theorem toList_attributes_ofSchema (s : Schema) : (ofSchema s).attributes.toList = s.attributes :=
  toList_attributes_ofList s.attributes

theorem getElem?_attributes_ofSchema (s : Schema) (i : Nat) :
    (ofSchema s).attributes[i]? = s.attributes[i]? := by
  rw [← Array.getElem?_toList, toList_attributes_ofSchema]

/-- The table has the position that a search through the list would find. -/
theorem position?_ofSchema (s : Schema) (name : String) :
    (ofSchema s).position? name = s.position? name := by
  refine Option.ext ?_
  intro i
  rw [(lists_ofSchema s).position?_eq_some, Schema.position?_eq_some_iff]

theorem hasName_ofSchema (s : Schema) (name : String) :
    (ofSchema s).hasName name = s.hasName name := by
  rw [hasName, Std.HashMap.contains_eq_isSome_getElem?, Schema.hasName, ← position?_ofSchema]
  rfl

theorem positionOf?_ofSchema (s : Schema) (a : Attribute) :
    (ofSchema s).positionOf? a = s.positionOf? a := by
  refine Option.ext ?_
  intro i
  rw [positionOf?, Option.filter_eq_some_iff, Schema.positionOf?_eq_some,
    (lists_ofSchema s).position?_eq_some, getElem?_attributes_ofSchema, decide_eq_true_eq]
  constructor
  · rintro ⟨⟨b, hb, hname⟩, hkind⟩
    rw [hb, Option.map_some, Option.some_inj] at hkind
    rw [hb, Attribute.ext hname hkind]
  · intro ha
    exact ⟨⟨a, ha, rfl⟩, by rw [ha, Option.map_some]⟩

/-- Entering attributes finds the first fault in them, where the table has the names that were
    seen. -/
theorem foldlM_enter {seen : List String} (hfirst : i = 0 → Schema.afterId as = as)
    (hseen : ∀ name ≠ Attribute.idName, d.positions.contains name ↔ name ∈ seen) :
    (as.zipIdx i).foldlM enter d =
      match Schema.firstFault? seen as with
      | some e => .error e
      | none => .ok (as.foldl push d) := by
  induction as generalizing i d seen with
  | nil => rfl
  | cons a rest ih =>
    rw [List.zipIdx_cons, List.foldlM_cons, enter, Schema.firstFault?]
    by_cases hname : a.name = Attribute.idName
    · -- A leading id would have been dropped, so this one is out of place.
      have hplace : (i = 0 && a.isEntityId) = false := by
        refine Bool.eq_false_iff.2 fun h => ?_
        obtain ⟨hi, ha⟩ := (Bool.and_eq_true _ _).mp h
        have hdropped := hfirst (of_decide_eq_true hi)
        rw [Schema.afterId, if_pos ha] at hdropped
        exact List.cons_ne_self a rest hdropped.symm
      rw [if_pos hname, if_pos hname, hplace]
      rfl
    · rw [if_neg hname, if_neg hname]
      by_cases hmem : a.name ∈ seen
      · rw [if_pos hmem, if_pos ((hseen _ hname).2 hmem)]
        rfl
      · rw [if_neg hmem, if_neg fun h => hmem ((hseen _ hname).1 h)]
        refine ih (fun h => absurd h (Nat.succ_ne_zero i)) fun name hother => ?_
        rw [push, Std.HashMap.contains_insert, Bool.or_eq_true, beq_iff_eq, hseen name hother,
          List.mem_cons, eq_comm]

theorem foldlM_enter_idOnly (as : List Attribute) :
    as.zipIdx.foldlM enter idOnly =
      match Schema.firstFault? [] (Schema.afterId as) with
      | some e => .error e
      | none => .ok (ofList (.entityId :: Schema.afterId as)) := by
  have hseen (name : String) (hname : name ≠ Attribute.idName) :
      idOnly.positions.contains name ↔ name ∈ [] := by
    have hempty : (∅ : Std.HashMap String Nat).contains name = false := Std.HashMap.contains_empty
    rw [idOnly, push, Std.HashMap.contains_insert, hempty, Bool.or_false, beq_iff_eq]
    exact ⟨fun h => absurd h.symm hname, nofun⟩
  cases as with
  | nil => rfl
  | cons a rest =>
    by_cases ha : a.isEntityId
    · have hafter : Schema.afterId (a :: rest) = rest := if_pos ha
      have henter : enter idOnly (a, 0) = .ok idOnly := by
        have hname : a.name = Attribute.idName := congrArg Attribute.name (of_decide_eq_true ha)
        rw [enter, if_pos hname, ha]
        rfl
      rw [List.zipIdx_cons, List.foldlM_cons, henter, hafter]
      exact foldlM_enter nofun hseen
    · have hafter : Schema.afterId (a :: rest) = a :: rest := if_neg ha
      rw [hafter]
      exact foldlM_enter (fun _ => hafter) hseen

/-- A list makes the directory of its schema, or tells the same error. -/
theorem create_eq (as : List Attribute) : create as = (Schema.create as).map ofSchema := by
  rw [create, foldlM_enter_idOnly]
  cases hfault : Schema.firstFault? [] (Schema.afterId as) with
  | some e =>
    rw [Schema.create_of_fault hfault]
    rfl
  | none =>
    have hsize : (ofList (.entityId :: Schema.afterId as)).attributes.size
        = (Schema.afterId as).length + 1 := size_ofList _
    rcases Schema.create_cases hfault with ⟨s, hs, hnamed, hle⟩ | ⟨hlt, herror⟩
    · rw [hs, Except.map, ofSchema, Schema.attributes, hnamed]
      exact if_neg (by rw [hsize]; exact Nat.not_lt.2 hle)
    · rw [herror, Except.map, ← hsize]
      exact if_pos (by rw [hsize]; exact hlt)

theorem create_eq_ok : create as = .ok d ↔ ∃ s, Schema.create as = .ok s ∧ d = ofSchema s := by
  rw [create_eq]
  cases Schema.create as with
  | error e => exact ⟨nofun, fun ⟨s, hs, _⟩ => nomatch hs⟩
  | ok s =>
    refine ⟨fun h => ⟨s, rfl, (Except.ok.inj h).symm⟩, ?_⟩
    rintro ⟨s', hs', rfl⟩
    rw [Except.ok.inj hs', Except.map]

theorem create_eq_error : create as = .error e ↔ Schema.create as = .error e := by
  rw [create_eq]
  cases Schema.create as with
  | error e' => rw [Except.map, Except.error.injEq, Except.error.injEq]
  | ok s => exact ⟨nofun, nofun⟩

/-! ## Parts of directories -/

/-- A position stays if it is the first, or not missing. -/
def stays (missing : PositionSet) (i : Nat) : Bool := i = 0 || !missing.contains i

/-- The attributes of a list at the positions that stay. -/
def staying (as : List Attribute) (missing : PositionSet) : List Attribute :=
  (as.zipIdx.filter fun item => stays missing item.2).map Prod.fst

theorem stays_zero (missing : PositionSet) : stays missing 0 := rfl

theorem stays_of_pos {missing : PositionSet} (h : 0 < i) :
    stays missing i = !missing.contains i := by
  rw [stays, decide_eq_false (Nat.ne_of_gt h), Bool.false_or]

theorem lt_length_of_mem_zipIdx {item : Attribute × Nat} (h : item ∈ as.zipIdx) :
    item.2 < as.length :=
  (List.getElem?_eq_some_iff.1 (List.mk_mem_zipIdx_iff_getElem?.1 h)).1

/-- All attributes stay if and only if none after the first is missing. -/
theorem staying_eq_self {missing : PositionSet} :
    staying as missing = as ↔ ∀ i, 1 ≤ i → i < as.length → missing.contains i = false := by
  have hfilter : staying as missing = as ↔ ∀ item ∈ as.zipIdx, stays missing item.2 := by
    rw [← List.length_filter_eq_length_iff, List.length_zipIdx]
    constructor
    · intro h
      rw [← List.length_map Prod.fst]
      exact congrArg List.length h
    · intro h
      rw [staying, List.filter_eq_self.2, List.zipIdx_map_fst]
      rwa [← List.length_filter_eq_length_iff, List.length_zipIdx]
  rw [hfilter]
  constructor
  · intro h i hpos hi
    have hstays := h (as[i], i) (List.mk_mem_zipIdx_iff_getElem?.2 (List.getElem?_eq_getElem hi))
    rwa [stays_of_pos hpos, Bool.not_eq_true'] at hstays
  · intro h item hitem
    rcases Nat.eq_zero_or_pos item.2 with hzero | hpos
    · rw [hzero, stays_zero]
    · rw [stays_of_pos hpos, h _ hpos (lt_length_of_mem_zipIdx hitem), Bool.not_false]

/-- What stays depends on the positions after the first and before the end. -/
theorem staying_congr {missing missing' : PositionSet}
    (h : ∀ i, 1 ≤ i → i < as.length → missing.contains i = missing'.contains i) :
    staying as missing = staying as missing' := by
  rw [staying, staying]
  congr 1
  refine List.filter_congr fun item hitem => ?_
  rcases Nat.eq_zero_or_pos item.2 with hzero | hpos
  · rw [hzero, stays_zero, stays_zero]
  · rw [stays_of_pos hpos, stays_of_pos hpos, h _ hpos (lt_length_of_mem_zipIdx hitem)]

/-- What stays of the attributes of a schema are those of the schema without the missing ones. -/
theorem staying_attributes (s : Schema) (missing : PositionSet) :
    staying s.attributes missing = (s.without missing).attributes := by
  have hnamed : (s.named.zipIdx 1).filter (fun item => stays missing item.2)
      = (s.named.zipIdx 1).filter fun item => !missing.contains item.2 :=
    List.filter_congr fun item hitem =>
      stays_of_pos (List.mk_mem_zipIdx_iff_le_and_getElem?_sub.1 hitem).1
  rw [staying, Schema.attributes, List.zipIdx_cons, List.filter_cons, if_pos (stays_zero missing),
    hnamed]
  rfl

/-- The directory is made anew for the attributes that stay. -/
theorem without_ofList (as : List Attribute) (missing : PositionSet) :
    (ofList as).without missing = ofList (staying as missing) := by
  rw [without, toList_attributes_ofList]
  split
  · rename_i hempty
    rw [staying_eq_self.2 fun i _ _ => missing.contains_of_isEmpty hempty i]
  · rw [ofList, staying, List.foldl_map, List.foldl_filter]
    congr 1
    funext kept (a, i)
    have hstays : stays missing i = !(i ≠ 0 && missing.contains i) := by
      rw [Bool.not_and, stays, decide_not, Bool.not_not]
    dsimp only
    rw [hstays]
    cases i ≠ 0 && missing.contains i <;> rfl

theorem without_ofSchema (s : Schema) (missing : PositionSet) :
    (ofSchema s).without missing = ofSchema (s.without missing) := by
  rw [ofSchema, without_ofList, staying_attributes, ofSchema]

theorem foldl_without_ofSchema (s : Schema) (masks : List PositionSet) :
    masks.foldl without (ofSchema s) = ofSchema (masks.foldl Schema.without s) :=
  List.foldl_hom ofSchema fun s missing => without_ofSchema s missing

/-- The list and the table of a directory are inverse to each other. -/
structure Inverse (d : Directory) : Prop where
  first : d.attributes[0]? = some .entityId
  nodup : (d.attributes.toList.map Attribute.name).Nodup
  size_le : d.size ≤ 64
  position?_eq_some : ∀ name i,
    d.position? name = some i ↔ ∃ a, d.attributes[i]? = some a ∧ a.name = name
  positionOf?_eq_some : ∀ a i, d.positionOf? a = some i ↔ d.attributes[i]? = some a
  hasName_iff : ∀ name, d.hasName name ↔ ∃ i, d.position? name = some i

/-- A directory loses the missing attributes after the first one, and nothing else. -/
structure Loses (d : Directory) (missing : PositionSet) : Prop where
  toList_eq : (d.without missing).attributes.toList = staying d.attributes.toList missing
  eq_of_agree : ∀ missing' : PositionSet,
    (∀ i, 1 ≤ i → i < d.size → missing.contains i = missing'.contains i) →
      d.without missing = d.without missing'
  isSameAs_iff : (d.without missing).isSameAs d ↔
    ∀ i, 1 ≤ i → i < d.size → missing.contains i = false

theorem inverse_ofSchema (s : Schema) : (ofSchema s).Inverse where
  first := getElem?_attributes_ofSchema s 0
  nodup := by
    rw [toList_attributes_ofSchema]
    exact s.nodup_names
  size_le := by
    rw [ofSchema, size_ofList]
    exact s.length_lt
  position?_eq_some name i := by
    rw [position?_ofSchema, getElem?_attributes_ofSchema, Schema.position?_eq_some_iff]
  positionOf?_eq_some a i := by
    rw [positionOf?_ofSchema, getElem?_attributes_ofSchema, Schema.positionOf?_eq_some]
  hasName_iff name := by
    rw [hasName_ofSchema, position?_ofSchema, Schema.hasName, Option.isSome_iff_exists]

theorem loses_ofList (as : List Attribute) (missing : PositionSet) :
    (ofList as).Loses missing where
  toList_eq := by
    rw [without_ofList, toList_attributes_ofList, toList_attributes_ofList]
  eq_of_agree missing' h := by
    rw [size_ofList] at h
    rw [without_ofList, without_ofList, staying_congr h]
  isSameAs_iff := by
    rw [without_ofList, size_ofList, ← staying_eq_self, isSameAs, decide_eq_true_eq,
      ← Array.toList_inj, toList_attributes_ofList, toList_attributes_ofList]

/-- A list makes a directory if and only if it declares its names and there are not too many of
    them; otherwise the first offence is told, and only without one that there are too many.
    Whatever is left out of a directory, time and again, list and table stay inverse to each other,
    and just the missing attributes are lost. -/
theorem create_then_without (as : List Attribute) :
    ((∃ d, create as = .ok d) ↔ Schema.Declares as ∧ (Schema.added as).length + 1 ≤ 64) ∧
      (∀ e, create as = .error e ↔
        (∃ i, Schema.offenceAt? as i = some e ∧ ∀ j < i, Schema.offenceAt? as j = none) ∨
          Schema.Declares as ∧ 64 < (Schema.added as).length + 1 ∧
            e = .tooManyAttributes ((Schema.added as).length + 1) 64) ∧
      (∀ d, create as = .ok d → d.attributes.toList = .entityId :: Schema.added as) ∧
      ∀ d, create as = .ok d ∨ d = idOnly → ∀ masks : List PositionSet,
        (masks.foldl without d).Inverse ∧ ∀ missing, (masks.foldl without d).Loses missing := by
  refine ⟨?_, fun e => ?_, fun d hd => ?_, fun d hd masks => ?_⟩
  · rw [← Schema.exists_create_eq_ok]
    simp only [create_eq_ok]
    exact ⟨fun ⟨_, s, hs, _⟩ => ⟨s, hs⟩, fun ⟨s, hs⟩ => ⟨_, s, hs, rfl⟩⟩
  · rw [create_eq_error, Schema.create_eq_error]
  · obtain ⟨s, hs, rfl⟩ := create_eq_ok.1 hd
    rw [toList_attributes_ofSchema, (Schema.attributes_of_create hs).2.2]
  · obtain ⟨s, rfl⟩ : ∃ s, d = ofSchema s := by
      rcases hd with hd | rfl
      · obtain ⟨s, -, heq⟩ := create_eq_ok.1 hd
        exact ⟨s, heq⟩
      · exact ⟨Schema.idOnly, rfl⟩
    rw [foldl_without_ofSchema]
    exact ⟨inverse_ofSchema _, loses_ofList _⟩

end Directory

end ColumnStore

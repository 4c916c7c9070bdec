import ColumnStore.Proofs.Schema
import Mathlib.Data.List.Induction

/-!
# What lists of attributes declare

A list declares its names if they are different, and the id is none of them but the first, as a long
(`Schema.Declares`). An attribute offends by the name of the id in another place or with another
kind, or by a name that came before (`Schema.offence?`). So a list declares its names if there is no
offence in it (`Schema.offenceAt?_eq_none_iff`), and what it is refused for is the first one
(`Schema.firstFault?_afterId_eq_some`).

A list makes a schema if and only if it declares its names and there are 64 attributes at most, with
the id (`Schema.exists_create_eq_ok`). Otherwise its first offence is told, and only if it has none,
that there are too many (`Schema.create_eq_error`).
-/

namespace ColumnStore

variable {as : List Attribute} {a : Attribute} {i : Nat} {e : SchemaError}

theorem getElem?_concat_eq_some {b : Attribute} :
    (as ++ [a])[i]? = some b ↔ as[i]? = some b ∨ i = as.length ∧ a = b := by
  rcases Nat.lt_trichotomy i as.length with hi | rfl | hi
  · rw [List.getElem?_append_left hi, or_iff_left fun h => Nat.ne_of_lt hi h.1]
  · rw [List.getElem?_concat_length, List.getElem?_eq_none (Nat.le_refl _), Option.some_inj]
    exact ⟨fun h => .inr ⟨rfl, h⟩, fun h => (h.resolve_left nofun).2⟩
  · rw [List.getElem?_eq_none (by rw [List.length_append]; exact hi),
      List.getElem?_eq_none (Nat.le_of_lt hi)]
    exact ⟨nofun, fun h => absurd (h.resolve_left nofun).1 (Nat.ne_of_gt hi)⟩

namespace Schema

/-- What is wrong with an attribute that comes after others: none but the first can be the id, as a
    long, and no name comes again. -/
def offence? (before : List Attribute) (a : Attribute) : Option SchemaError :=
  if a.name = Attribute.idName then
    if before = [] ∧ a = .entityId then none else some .misplacedId
  else if a.name ∈ before.map Attribute.name then some (.duplicateAttribute a.name)
  else none

/-- What is wrong with the attribute at a position of a list. -/
def offenceAt? (as : List Attribute) (i : Nat) : Option SchemaError :=
  as[i]?.bind (offence? (as.take i))

/-- The names are different, and the name of the id is at most that of a long in first place. -/
structure Declares (as : List Attribute) : Prop where
  id_first : ∀ i a, as[i]? = some a → a.name = Attribute.idName → i = 0 ∧ a.kind = .long
  nodup : (as.map Attribute.name).Nodup

/-- The attributes that a list adds to the id. -/
def added (as : List Attribute) : List Attribute := as.filter (·.name ≠ Attribute.idName)

theorem offenceAt?_of_length_le (h : as.length ≤ i) : offenceAt? as i = none := by
  rw [offenceAt?, List.getElem?_eq_none h, Option.bind_none]

theorem lt_length_of_offenceAt? (h : offenceAt? as i = some e) : i < as.length :=
  Nat.lt_of_not_le fun hle => by
    rw [offenceAt?_of_length_le hle] at h
    cases h

/-- At the end of a list there may be one more offence. -/
theorem offenceAt?_concat (as : List Attribute) (a : Attribute) (i : Nat) :
    offenceAt? (as ++ [a]) i = if i = as.length then offence? as a else offenceAt? as i := by
  rcases Nat.lt_trichotomy i as.length with hi | rfl | hi
  · rw [if_neg (Nat.ne_of_lt hi), offenceAt?, offenceAt?, List.getElem?_append_left hi,
      List.take_append_of_le_length (Nat.le_of_lt hi)]
  · rw [if_pos rfl, offenceAt?, List.getElem?_concat_length, List.take_left, Option.bind_some]
  · rw [if_neg (Nat.ne_of_gt hi), offenceAt?_of_length_le (Nat.le_of_lt hi)]
    exact offenceAt?_of_length_le (by rw [List.length_append]; exact hi)

/-- Whether one attribute is at fault depends on whether its name was seen. -/
theorem firstFault?_singleton_congr {seen seen' : List String}
    (h : a.name ≠ Attribute.idName → (a.name ∈ seen ↔ a.name ∈ seen')) :
    firstFault? seen [a] = firstFault? seen' [a] := by
  rw [firstFault?, firstFault?.eq_def seen']
  by_cases hname : a.name = Attribute.idName
  · rw [if_pos hname]
    exact (if_pos hname).symm
  · rw [if_neg hname]
    exact (if_congr (h hname) rfl rfl).trans (if_neg hname).symm

/-- The last attribute of a list is looked at if nothing is wrong with those before. -/
theorem firstFault?_concat (seen : List String) (as : List Attribute) (a : Attribute) :
    firstFault? seen (as ++ [a])
      = (firstFault? seen as).or (firstFault? (as.map Attribute.name ++ seen) [a]) := by
  induction as generalizing seen with
  | nil => rfl
  | cons b rest ih =>
    rw [List.cons_append, firstFault?, firstFault?]
    by_cases hname : b.name = Attribute.idName
    · rw [if_pos hname, if_pos hname, Option.some_or]
    · rw [if_neg hname, if_neg hname]
      by_cases hseen : b.name ∈ seen
      · rw [if_pos hseen, if_pos hseen, Option.some_or]
      · rw [if_neg hseen, if_neg hseen, ih]
        congr 1
        refine firstFault?_singleton_congr fun _ => ?_
        simp only [List.map_cons, List.cons_append, List.mem_append, List.mem_cons]
        exact or_left_comm

theorem firstFault?_afterId_concat (as : List Attribute) (a : Attribute) :
    firstFault? [] (afterId (as ++ [a]))
      = (firstFault? [] (afterId as)).or (offence? as a) := by
  cases as with
  | nil =>
    rw [List.nil_append]
    by_cases ha : a = .entityId
    · subst ha
      rfl
    · have hafter : afterId [a] = [a] := if_neg fun hid => ha (of_decide_eq_true hid)
      rw [hafter, offence?, if_neg fun h : ([] : List Attribute) = [] ∧ a = .entityId => ha h.2]
      rfl
  | cons b rest =>
    have hafter : afterId (b :: rest ++ [a]) = afterId (b :: rest) ++ [a] := by
      rw [List.cons_append, afterId, afterId]
      split <;> rfl
    rw [hafter, firstFault?_concat]
    congr 1
    rw [firstFault?, offence?, if_neg fun h : b :: rest = [] ∧ _ => List.cons_ne_nil _ _ h.1]
    by_cases hname : a.name = Attribute.idName
    · rw [if_pos hname, if_pos hname]
    · rw [if_neg hname, if_neg hname]
      -- The id may lead the list and be left out of it, but it is not the name that is looked for.
      refine if_congr ?_ rfl rfl
      rw [List.append_nil, afterId]
      split
      · rename_i hid
        have hb : b.name = Attribute.idName := congrArg Attribute.name (of_decide_eq_true hid)
        rw [List.map_cons, List.mem_cons, hb, or_iff_right hname]
      · rfl

/-- There is no offence in a longer list if there is none in the list, and none at its end. -/
theorem forall_offenceAt?_concat :
    (∀ i, offenceAt? (as ++ [a]) i = none) ↔
      (∀ i, offenceAt? as i = none) ∧ offence? as a = none := by
  simp only [offenceAt?_concat]
  constructor
  · intro h
    refine ⟨fun i => ?_, (if_pos rfl).symm.trans (h as.length)⟩
    by_cases hi : i = as.length
    · exact offenceAt?_of_length_le hi.ge
    · exact (if_neg hi).symm.trans (h i)
  · rintro ⟨h, ha⟩ i
    rw [h, ha, ite_self]

theorem offence?_eq_none : offence? as a = none ↔
    (a.name = Attribute.idName → as = [] ∧ a.kind = .long) ∧ a.name ∉ as.map Attribute.name := by
  rw [offence?]
  by_cases hname : a.name = Attribute.idName
  · rw [if_pos hname]
    by_cases hfirst : as = [] ∧ a = .entityId
    · obtain ⟨rfl, rfl⟩ := hfirst
      exact ⟨fun _ => ⟨fun _ => ⟨rfl, rfl⟩, List.not_mem_nil⟩, fun _ => rfl⟩
    · rw [if_neg hfirst]
      refine ⟨nofun, fun h => absurd ?_ hfirst⟩
      exact ⟨(h.1 hname).1, Attribute.ext hname (h.1 hname).2⟩
  · rw [if_neg hname]
    by_cases hmem : a.name ∈ as.map Attribute.name
    · rw [if_pos hmem]
      exact ⟨nofun, fun h => absurd hmem h.2⟩
    · rw [if_neg hmem]
      exact ⟨fun _ => ⟨fun h => absurd h hname, hmem⟩, fun _ => rfl⟩

/-- One more attribute is declared if it is no offence. -/
theorem declares_concat : Declares (as ++ [a]) ↔ Declares as ∧ offence? as a = none := by
  have hnodup : ((as ++ [a]).map Attribute.name).Nodup ↔
      a.name ∉ as.map Attribute.name ∧ (as.map Attribute.name).Nodup := by
    rw [List.map_append, List.map_singleton, ← List.concat_eq_append, List.nodup_concat]
  rw [offence?_eq_none]
  constructor
  · intro h
    obtain ⟨hnew, hnames⟩ := hnodup.1 h.nodup
    refine ⟨⟨fun i b hb => h.id_first i b (getElem?_concat_eq_some.2 (.inl hb)), hnames⟩,
      fun hname => ?_, hnew⟩
    obtain ⟨hzero, hkind⟩ :=
      h.id_first as.length a (getElem?_concat_eq_some.2 (.inr ⟨rfl, rfl⟩)) hname
    exact ⟨List.length_eq_zero_iff.1 hzero, hkind⟩
  · rintro ⟨h, hid, hnew⟩
    refine ⟨fun i b hb hname => ?_, hnodup.2 ⟨hnew, h.nodup⟩⟩
    rcases getElem?_concat_eq_some.1 hb with hb | ⟨rfl, rfl⟩
    · exact h.id_first i b hb hname
    · obtain ⟨rfl, hkind⟩ := hid hname
      exact ⟨rfl, hkind⟩

/-- There is no offence in a list that declares its names. -/
theorem offenceAt?_eq_none_iff : (∀ i, offenceAt? as i = none) ↔ Declares as := by
  induction as using List.reverseRecOn with
  | nil => exact ⟨fun _ => ⟨nofun, List.nodup_nil⟩, fun _ _ => rfl⟩
  | append_singleton rest a ih => rw [forall_offenceAt?_concat, declares_concat, ih]

theorem firstFault?_afterId_eq_none :
    firstFault? [] (afterId as) = none ↔ ∀ i, offenceAt? as i = none := by
  induction as using List.reverseRecOn with
  | nil => exact ⟨fun _ _ => rfl, fun _ => rfl⟩
  | append_singleton rest a ih =>
    rw [firstFault?_afterId_concat, Option.or_eq_none_iff, ih, forall_offenceAt?_concat]

/-- The fault that is told of a list is its first offence. -/
theorem firstFault?_afterId_eq_some :
    firstFault? [] (afterId as) = some e ↔
      ∃ i, offenceAt? as i = some e ∧ ∀ j < i, offenceAt? as j = none := by
  induction as using List.reverseRecOn with
  | nil => exact ⟨nofun, fun ⟨i, hi, _⟩ => nomatch hi⟩
  | append_singleton rest a ih =>
    rw [firstFault?_afterId_concat, Option.or_eq_some_iff, ih, firstFault?_afterId_eq_none]
    simp only [offenceAt?_concat]
    constructor
    · rintro (⟨i, hi, hbefore⟩ | ⟨hnone, ha⟩)
      · have hlt := lt_length_of_offenceAt? hi
        refine ⟨i, (if_neg (Nat.ne_of_lt hlt)).trans hi, fun j hj => ?_⟩
        exact (if_neg (Nat.ne_of_lt (Nat.lt_trans hj hlt))).trans (hbefore j hj)
      · exact ⟨rest.length, (if_pos rfl).trans ha, fun j hj =>
          (if_neg (Nat.ne_of_lt hj)).trans (hnone j)⟩
    · rintro ⟨i, hi, hbefore⟩
      -- The first offence is that of the last attribute, or one of the list before it.
      by_cases hlast : i = rest.length
      · subst hlast
        refine .inr ⟨fun j => ?_, (if_pos rfl).symm.trans hi⟩
        rcases Nat.lt_or_ge j rest.length with hj | hj
        · exact (if_neg (Nat.ne_of_lt hj)).symm.trans (hbefore j hj)
        · exact offenceAt?_of_length_le hj
      · rw [if_neg hlast] at hi
        have hlt := lt_length_of_offenceAt? hi
        exact .inl ⟨i, hi, fun j hj =>
          (if_neg (Nat.ne_of_lt (Nat.lt_trans hj hlt))).symm.trans (hbefore j hj)⟩

/-! ## Schemas of lists -/

theorem create_of_fault (h : firstFault? [] (afterId as) = some e) : create as = .error e := by
  rw [create]
  rw! [h]
  rfl

/-- A list without a fault makes a schema unless it is too long. -/
theorem create_cases (h : firstFault? [] (afterId as) = none) :
    (∃ s, create as = .ok s ∧ s.named = afterId as ∧ (afterId as).length + 1 ≤ 64) ∨
      (64 < (afterId as).length + 1 ∧
        create as = .error (.tooManyAttributes ((afterId as).length + 1) 64)) := by
  rw [create]
  rw! [h]
  by_cases hlt : (afterId as).length < PositionSet.capacity
  · exact .inl ⟨_, dif_pos hlt, rfl, hlt⟩
  · exact .inr ⟨Nat.lt_succ_of_le (Nat.le_of_not_lt hlt), dif_neg hlt⟩

theorem Declares.afterId_eq (h : Declares as) : afterId as = added as := by
  cases as with
  | nil => rfl
  | cons a rest =>
    have hrest (b : Attribute) (hb : b ∈ rest) : b.name ≠ Attribute.idName := fun hname => by
      obtain ⟨i, hi⟩ := List.getElem?_of_mem hb
      exact absurd (h.id_first (i + 1) b hi hname).1 (Nat.succ_ne_zero i)
    have hadded : added rest = rest :=
      List.filter_eq_self.2 fun b hb => decide_eq_true (hrest b hb)
    rw [afterId, added, List.filter_cons, ← added, hadded]
    by_cases hname : a.name = Attribute.idName
    · have ha : a.isEntityId :=
        decide_eq_true (Attribute.ext hname (h.id_first 0 a rfl hname).2)
      rw [if_pos ha, if_neg (by simpa using hname)]
    · have ha : ¬a.isEntityId := fun ha => hname (congrArg Attribute.name (of_decide_eq_true ha))
      rw [if_neg ha, if_pos (by simpa using hname)]

/-- A schema of a list has the id and then what the list adds to it. -/
theorem attributes_of_create {s : Schema} (h : create as = .ok s) :
    Declares as ∧ (added as).length + 1 ≤ 64 ∧ s.attributes = .entityId :: added as := by
  have hfault : firstFault? [] (afterId as) = none :=
    Option.eq_none_iff_forall_ne_some.2 fun e he => by
      rw [create_of_fault he] at h
      cases h
  have hdeclares := offenceAt?_eq_none_iff.1 (firstFault?_afterId_eq_none.1 hfault)
  rcases create_cases hfault with ⟨s', hs', hnamed, hle⟩ | ⟨-, herror⟩
  · obtain rfl := Except.ok.inj (h.symm.trans hs')
    rw [hdeclares.afterId_eq] at hnamed hle
    exact ⟨hdeclares, hle, congrArg _ hnamed⟩
  · rw [herror] at h
    cases h

/-- A list makes a schema if and only if it declares its names and there are not too many of
    them. -/
theorem exists_create_eq_ok :
    (∃ s, create as = .ok s) ↔ Declares as ∧ (added as).length + 1 ≤ 64 := by
  constructor
  · rintro ⟨s, hs⟩
    obtain ⟨hdeclares, hle, -⟩ := attributes_of_create hs
    exact ⟨hdeclares, hle⟩
  · rintro ⟨hdeclares, hle⟩
    have hfault := firstFault?_afterId_eq_none.2 (offenceAt?_eq_none_iff.2 hdeclares)
    rcases create_cases hfault with ⟨s, hs, -, -⟩ | ⟨hlt, -⟩
    · exact ⟨s, hs⟩
    · rw [hdeclares.afterId_eq] at hlt
      exact absurd hle (Nat.not_le.2 hlt)

/-- Otherwise the first offence is told, and only without one that there are too many. -/
theorem create_eq_error :
    create as = .error e ↔
      (∃ i, offenceAt? as i = some e ∧ ∀ j < i, offenceAt? as j = none) ∨
        Declares as ∧ 64 < (added as).length + 1 ∧
          e = .tooManyAttributes ((added as).length + 1) 64 := by
  rw [← firstFault?_afterId_eq_some, ← offenceAt?_eq_none_iff, ← firstFault?_afterId_eq_none]
  cases hfault : firstFault? [] (afterId as) with
  | some e' =>
    rw [create_of_fault hfault]
    simp
  | none =>
    have hdeclares := offenceAt?_eq_none_iff.1 (firstFault?_afterId_eq_none.1 hfault)
    have hcases := create_cases hfault
    rw [hdeclares.afterId_eq] at hcases
    rcases hcases with ⟨s, hs, -, hle⟩ | ⟨hlt, herror⟩
    · rw [hs]
      refine ⟨nofun, ?_⟩
      rintro (hsome | ⟨-, hlt, -⟩)
      · cases hsome
      · exact absurd hle (Nat.not_le.2 hlt)
    · rw [herror]
      refine ⟨fun h => .inr ⟨rfl, hlt, (Except.error.inj h).symm⟩, ?_⟩
      rintro (hsome | ⟨-, -, rfl⟩)
      · cases hsome
      · rfl

end Schema

end ColumnStore

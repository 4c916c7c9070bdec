import ColumnStore.Entity

/-!
# Calls on collections in the making

Whatever backs a collection, it is made by steps (`BuildStep`): entities are added, each with
or without leave to take the place of one with its id (`AddCall`), and indexes are asked for.

Ids may come in any order, but not all collections replace entities after a new id has come
late. Whether one has is told by the ids alone (`Scattered`), and calls are orderly when none
of them asks for a replacement after that (`Orderly`).
-/

namespace ColumnStore

/-- A call that adds an entity, of whatever type that entity is. -/
structure AddCall where
  {type : Type}
  [entity : Entity type]
  value : type
  /-- The entity is to take the place of one with its id. -/
  replace : Bool

attribute [instance] AddCall.entity

namespace AddCall

/-- The id of the entity. -/
def id (call : AddCall) : Int64 := Entity.id call.value

/-- The fields of the entity. -/
def fields (call : AddCall) : List (Attribute × Value) := Entity.fields call.value

/-- What the call is to add, with or without leave to replace. -/
def content (call : AddCall) : Int64 × List (Attribute × Value) := (call.id, call.fields)

end AddCall

/-- What is done to a collection in the making before it is built. -/
inductive BuildStep where
  | add (call : AddCall)
  | addIndex (name : String)
  | addIndexOf (a : Attribute)

namespace BuildStep

/-- The call of a step that adds an entity. -/
def call? : BuildStep → Option AddCall
  | add call => some call
  | addIndex _ | addIndexOf _ => none

/-- The calls that add entities among steps. -/
def calls (steps : List BuildStep) : List AddCall := steps.filterMap call?

end BuildStep

/-! ## The order of ids -/

/-- One of the ids came late: it was new and smaller than one before it. -/
def Scattered (ids : List Int64) : Prop :=
  ∃ before id, before ++ [id] <+: ids ∧ id ∉ before ∧ ∃ k ∈ before, id < k

/-- No call asks to replace a known entity after an id came late. -/
def Orderly (calls : List AddCall) : Prop :=
  ∀ before call, before ++ [call] <+: calls → call.replace = true →
    call.id ∈ before.map AddCall.id → ¬Scattered (before.map AddCall.id)

variable {ids : List Int64} {id : Int64} {calls : List AddCall} {call : AddCall}

theorem not_scattered_nil : ¬Scattered [] := by
  rintro ⟨before, id, hpre, -⟩
  exact absurd (List.prefix_nil.1 hpre) (List.append_ne_nil_of_right_ne_nil _ nofun)

/-- One more id leaves the ids scattered if they are, and scatters them if it comes late. -/
theorem scattered_concat :
    Scattered (ids ++ [id]) ↔ Scattered ids ∨ id ∉ ids ∧ ∃ k ∈ ids, id < k := by
  constructor
  · rintro ⟨before, id', hpre, hlate⟩
    rcases List.prefix_concat_iff.1 hpre with heq | hpre
    · obtain ⟨rfl, hid⟩ := List.append_inj' heq rfl
      obtain rfl := List.singleton_inj.1 hid
      exact .inr hlate
    · exact .inl ⟨before, id', hpre, hlate⟩
  · rintro (⟨before, id', hpre, hlate⟩ | hlate)
    · exact ⟨before, id', hpre.trans (List.prefix_append _ _), hlate⟩
    · exact ⟨ids, id, List.prefix_refl _, hlate⟩

theorem orderly_nil : Orderly [] := fun _ _ hpre =>
  absurd (List.prefix_nil.1 hpre) (List.append_ne_nil_of_right_ne_nil _ nofun)

/-- Orderly calls stay so with one more call unless it asks for a replacement too late. -/
theorem orderly_concat :
    Orderly (calls ++ [call]) ↔ Orderly calls ∧
      (call.replace = true → call.id ∈ calls.map AddCall.id →
        ¬Scattered (calls.map AddCall.id)) := by
  constructor
  · intro h
    exact ⟨fun before call' hpre => h before call' (hpre.trans (List.prefix_append _ _)),
      h calls call (List.prefix_refl _)⟩
  · rintro ⟨h, hlast⟩ before call' hpre
    rcases List.prefix_concat_iff.1 hpre with heq | hpre
    · obtain ⟨rfl, hcall⟩ := List.append_inj' heq rfl
      obtain rfl := List.singleton_inj.1 hcall
      exact hlast
    · exact h before call' hpre

end ColumnStore

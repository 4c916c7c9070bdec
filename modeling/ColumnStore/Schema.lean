import ColumnStore.Attribute
import ColumnStore.PositionSet

/-!
# Schemas

A schema is a list of attributes with positions. The entity id comes first, no two attributes
have one name, and a schema is small enough for its positions to fit a `PositionSet`.

* `Schema.create` makes a schema of a list of attributes or tells what is wrong with it.
* `Schema.restrict` keeps some of the attributes after the id.
-/

namespace ColumnStore

/-- The attributes of an entity or of a table: the id, and those in `named`. -/
structure Schema where
  /-- The attributes after the id. -/
  named : List Attribute
  name_ne_id : ∀ a ∈ named, a.name ≠ Attribute.idName
  nodup : (named.map Attribute.name).Nodup
  length_lt : named.length < PositionSet.capacity
deriving DecidableEq

namespace Schema

/-- The schema of the id alone. -/
def idOnly : Schema := ⟨[], nofun, List.nodup_nil, by decide⟩

instance : Inhabited Schema := ⟨idOnly⟩

/-- The first fault in a list of attributes that follow the id and those named in `seen`. -/
def firstFault? (seen : List String) : List Attribute → Option SchemaError
  | [] => none
  | a :: rest =>
    if a.name = Attribute.idName then some .misplacedId
    else if a.name ∈ seen then some (.duplicateAttribute a.name)
    else firstFault? (a.name :: seen) rest

theorem wellNamed_of_firstFault? {seen : List String} {as : List Attribute}
    (h : firstFault? seen as = none) :
    (∀ a ∈ as, a.name ≠ Attribute.idName) ∧ (∀ a ∈ as, a.name ∉ seen)
      ∧ (as.map Attribute.name).Nodup := by
  induction as generalizing seen with
  | nil => simp
  | cons a rest ih =>
    rw [firstFault?] at h
    split at h
    · simp at h
    · rename_i hid
      split at h
      · simp at h
      · rename_i hseen
        obtain ⟨hids, hfresh, hnodup⟩ := ih h
        refine ⟨?_, ?_, ?_⟩
        · simpa [hid] using hids
        · intro b hb
          rcases List.mem_cons.1 hb with rfl | hb
          · exact hseen
          · exact fun hmem => hfresh b hb (List.mem_cons_of_mem _ hmem)
        · rw [List.map_cons, List.nodup_cons]
          refine ⟨fun hmem => ?_, hnodup⟩
          obtain ⟨b, hb, heq⟩ := List.mem_map.1 hmem
          exact hfresh b hb (heq ▸ List.mem_cons_self)

/-- The attributes that a list declares after the id: the id itself may lead the list. -/
def afterId : List Attribute → List Attribute
  | [] => []
  | a :: rest => if a.isEntityId then rest else a :: rest

/-- The schema of a list of attributes. The first fault in the list is the error; only a list
    without one can be too long. -/
def create (attributes : List Attribute) : Except SchemaError Schema :=
  let named := afterId attributes
  match h : firstFault? [] named with
  | some e => .error e
  | none =>
    if hlen : named.length < PositionSet.capacity then
      .ok ⟨named, (wellNamed_of_firstFault? h).1, (wellNamed_of_firstFault? h).2.2, hlen⟩
    else .error (.tooManyAttributes (named.length + 1) PositionSet.capacity)

variable (s : Schema)

/-- All attributes, by position. -/
def attributes : List Attribute := .entityId :: s.named

/-- The number of attributes. -/
def size : Nat := s.named.length + 1

/-- The names of the attributes, by position. -/
def names : List String := s.attributes.map Attribute.name

/-- The attribute at a position. -/
def get? (i : Nat) : Option Attribute := s.attributes[i]?

/-- The attribute at a position, which has to be one of the schema. -/
def get (i : Nat) : Except LayoutError Attribute :=
  match s.get? i with
  | some a => .ok a
  | none => .error (.pastEnd s.size i)

/-- The position of the attribute with the given name. -/
def position? (name : String) : Option Nat := s.attributes.findIdx? (·.name = name)

/-- The position of the given attribute, the kind being the same, too. -/
def positionOf? (a : Attribute) : Option Nat := s.attributes.findIdx? (· = a)

/-- An attribute has the given name. -/
def hasName (name : String) : Bool := (s.position? name).isSome

/-- The schema with only a part of the attributes after the id. -/
def restrict (named : List Attribute) (h : named.Sublist s.named) : Schema where
  named
  name_ne_id a ha := s.name_ne_id a (h.subset ha)
  nodup := (h.map Attribute.name).nodup s.nodup
  length_lt := Nat.lt_of_le_of_lt h.length_le s.length_lt

/-- The id and the attributes that satisfy `p`. -/
def filter (p : Attribute → Bool) : Schema := s.restrict (s.named.filter p) List.filter_sublist

/-- The schema without the attributes at the given positions; the id always stays. -/
def without (missing : PositionSet) : Schema :=
  s.restrict (((s.named.zipIdx 1).filter fun (_, i) => !missing.contains i).map Prod.fst) <| by
    have h := (List.filter_sublist (p := fun x : Attribute × Nat => !missing.contains x.2)
      (l := s.named.zipIdx 1)).map Prod.fst
    rwa [List.zipIdx_map_fst] at h

/-- A schema in descriptions. -/
def display : String :=
  "[" ++ ", ".intercalate (s.attributes.map fun a => Text.quoted a.display) ++ "]"

end Schema

end ColumnStore

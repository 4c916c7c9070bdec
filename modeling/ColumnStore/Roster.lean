import ColumnStore.AddOutcome
import ColumnStore.Entity
import ColumnStore.Search
import Std.Data.TreeSet

/-!
# Rosters

A roster holds no more of its entities than their ids, in ascending order; it hands them out
as records of the id alone.
-/

namespace ColumnStore

/-- Ids of entities of one type. -/
structure Roster where
  entityType : EntityType
  /-- The ids in ascending order. -/
  ids : Array Int64

namespace Roster

variable (r : Roster)

/-- The number of ids. -/
def size : Nat := r.ids.size

/-- The id is one of the roster. -/
def contains (id : Int64) : Bool := (search r.size id (r.ids.getD · 0)).position?.isSome

/-- The record of an id. -/
def member (id : Int64) : Record := .idOnly r.entityType id

/-- The record of an id of the roster. -/
def lookup? (id : Int64) : Option Record := if r.contains id then some (r.member id) else none

/-- The records that hold a value under a name: they hold nothing but their ids. -/
def find (name : String) (v : Value) : List Record :=
  if name = Attribute.idName then (v.long?.bind r.lookup?).toList else []

/-- The records in ascending order of their ids. -/
def members : List Record := r.ids.toList.map r.member

/-- The values under a name with the records that hold each, the values ascending. -/
def grouped (name : String) : List (Value × List Record) :=
  if name = Attribute.idName then r.members.map fun m => (.long m.id, [m]) else []

/-- A roster in the making. -/
structure Draft where
  entityType : EntityType
  ids : Std.TreeSet Int64 := ∅

namespace Draft

/-- The number of ids. -/
def size (d : Draft) : Nat := d.ids.size

/-- Adds the id of an entity. -/
def add [Entity ε] (d : Draft) (e : ε) (replace : Bool) : AddOutcome × Draft :=
  let id := Entity.id e
  if d.ids.contains id then (if replace then .replaced else .dropped, d)
  else (.added, { d with ids := d.ids.insert id })

/-- The roster of the draft. -/
def build (d : Draft) : Roster := ⟨d.entityType, d.ids.toArray⟩

end Draft

end Roster

end ColumnStore

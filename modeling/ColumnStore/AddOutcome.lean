/-!
# Outcomes of adding

Every collection in the making tells what became of an entity that was added to it.
-/

namespace ColumnStore

/-- What became of an entity that was added. -/
inductive AddOutcome where
  /-- It makes a new row. -/
  | added
  /-- It takes the place of the entity with its id. -/
  | replaced
  /-- Its id was known, and the entity is left out. -/
  | dropped
deriving DecidableEq

end ColumnStore

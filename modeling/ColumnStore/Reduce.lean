import ColumnStore.Column.Basic

/-!
# Reducing segments

The numbers of a column in one result: each segment is folded by itself, from the same start,
and the results are combined in the order of the segments.
-/

namespace ColumnStore

/-- Folds the numbers of the slots that have one, in order. -/
def Segment.fold (s : Segment) (start : β) (push : β → Double → β) : β :=
  (List.range s.size).foldl (fun acc slot =>
    match s.getNumber? slot with
    | some x => push acc x
    | none => acc) start

/-- Folds each segment and combines the results from the start on. -/
def reduce (segments : List Segment) (start : β) (push : β → Double → β) (combine : β → β → β) :
    β :=
  (segments.map fun s => s.fold start push).foldl combine start

/-- Reduces the segments of a column. -/
def Column.reduce (c : Column) (start : β) (push : β → Double → β) (combine : β → β → β) : β :=
  ColumnStore.reduce c.segments.toList start push combine

end ColumnStore

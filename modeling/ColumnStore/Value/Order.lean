import ColumnStore.Value.Basic

/-!
# The order of values

Where values are listed they ascend: by kind, then integers by size, doubles by their
patterns as unsigned integers, false before true, and texts by their code points, which is
also the order of their UTF-8 bytes.
-/

namespace ColumnStore

/-- The place of a kind in the order of values. -/
def Kind.rank : Kind → Nat
  | .long => 0
  | .int => 1
  | .double => 2
  | .bool => 3
  | .text => 4

/-- A value is listed no later than another. -/
def Value.precedes : Value → Value → Bool
  | .long m, .long n => m ≤ n
  | .int m, .int n => m ≤ n
  | .double x, .double y => x.bits ≤ y.bits
  | .bool a, .bool b => a ≤ b
  | .text s, .text t => ¬ t < s
  | v, w => v.kind.rank ≤ w.kind.rank

/-- Lists what is kept under each value, the values ascending. -/
def Value.inOrder {α : Type} (entries : List (Value × Array α)) : List (Value × List α) :=
  (entries.mergeSort fun a b => a.1.precedes b.1).map fun (v, xs) => (v, xs.toList)

end ColumnStore

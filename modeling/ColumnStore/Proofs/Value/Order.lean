import ColumnStore.Value.Order

/-!
# The order of values is linear

Values of different kinds are ordered by their kinds (`Value.precedes_of_kind_ne`), and those of one
kind by their payloads. So of two values one precedes the other (`Value.precedes_total`), and both
do only if they are the same (`Value.precedes_antisymm`).
-/

namespace ColumnStore

theorem Kind.rank_injective : Function.Injective Kind.rank := by
  intro k l h
  cases k <;> cases l <;> first | rfl | cases h

namespace Value

variable {u v w : Value}

theorem precedes_of_kind_ne (h : v.kind ≠ w.kind) :
    v.precedes w = decide (v.kind.rank ≤ w.kind.rank) := by
  cases v <;> cases w <;> first | rfl | exact absurd rfl h

theorem rank_le_of_precedes (h : v.precedes w) : v.kind.rank ≤ w.kind.rank := by
  by_cases hkind : v.kind = w.kind
  · exact Nat.le_of_eq (congrArg Kind.rank hkind)
  · rw [precedes_of_kind_ne hkind] at h
    exact of_decide_eq_true h

theorem precedes_total (v w : Value) : v.precedes w || w.precedes v := by
  rw [Bool.or_eq_true]
  by_cases hkind : v.kind = w.kind
  · cases v <;> cases w <;> simp only [kind, reduceCtorEq] at hkind
    case long.long m n => exact (Int64.le_total m n).imp decide_eq_true decide_eq_true
    case int.int m n => exact (Int32.le_total m n).imp decide_eq_true decide_eq_true
    case double.double x y =>
      exact (UInt64.le_total x.bits y.bits).imp decide_eq_true decide_eq_true
    case bool.bool a b => exact (Bool.le_total a b).imp decide_eq_true decide_eq_true
    case text.text s t =>
      have hle {s t : String} (h : s ≤ t) : (text s).precedes (text t) :=
        decide_eq_true (String.not_lt.2 h)
      exact (String.le_total s t).imp hle hle
  · rw [precedes_of_kind_ne hkind, precedes_of_kind_ne (Ne.symm hkind)]
    exact (Nat.le_total ..).imp decide_eq_true decide_eq_true

theorem precedes_antisymm (hvw : v.precedes w) (hwv : w.precedes v) : v = w := by
  have hkind : v.kind = w.kind :=
    Kind.rank_injective (Nat.le_antisymm (rank_le_of_precedes hvw) (rank_le_of_precedes hwv))
  cases v <;> cases w <;> simp only [kind, reduceCtorEq] at hkind <;>
    simp only [precedes, decide_eq_true_eq, String.not_lt] at hvw hwv
  case long.long m n => rw [Int64.le_antisymm hvw hwv]
  case int.int m n => rw [Int32.le_antisymm hvw hwv]
  case double.double x y =>
    exact congrArg (fun bits => double ⟨bits⟩) (UInt64.le_antisymm hvw hwv)
  case bool.bool a b => rw [Bool.le_antisymm hvw hwv]
  case text.text s t => rw [String.le_antisymm hvw hwv]

theorem precedes_trans (huv : u.precedes v) (hvw : v.precedes w) : u.precedes w := by
  have huv' := rank_le_of_precedes huv
  have hvw' := rank_le_of_precedes hvw
  by_cases hkind : u.kind = w.kind
  · have hv : v.kind = w.kind := Kind.rank_injective (Nat.le_antisymm hvw' (hkind ▸ huv'))
    cases u <;> cases v <;> cases w <;> simp only [kind, reduceCtorEq] at hkind hv <;>
      simp only [precedes, decide_eq_true_eq, String.not_lt] at huv hvw ⊢
    case long.long.long => exact Int64.le_trans huv hvw
    case int.int.int => exact Int32.le_trans huv hvw
    case double.double.double => exact UInt64.le_trans huv hvw
    case bool.bool.bool => exact Bool.le_trans huv hvw
    case text.text.text => exact String.le_trans huv hvw
  · rw [precedes_of_kind_ne hkind]
    exact decide_eq_true (Nat.le_trans huv' hvw')

end Value

end ColumnStore

import ColumnStore.Proofs.Table.SinglePass
import Mathlib.Algebra.Field.Rat
import Mathlib.Tactic.FieldSimp
import Mathlib.Tactic.Ring

/-!
# Moments without rounding

In a field the moments of samples are what they are by definition: their number, their average, and
the sum of their squared deviations from it (`Moments.summary`). The proof rests on one law, that
the summaries of two lists combine to that of both in one (`combine_summary`). It follows from what
the squared deviations from an arbitrary number come to (`deviationFrom_eq_add`). One more sample
counts as a group of one (`push_summary`), and so all samples are summarized, taken one by one
(`foldl_push`) or part by part (`foldl_combine`).

Nothing is ever divided by zero: with numbers that keep the failure of a division (`Guarded`) the
same steps come to the same moments (`push_guard`, `combine_guard`, `variance_guard`).
-/

namespace ColumnStore

/-! ## Numbers that keep the failure of a division -/

/-- A number, or what comes of a division by zero and of all that is computed from it. -/
structure Guarded (K : Type) where
  number? : Option K

namespace Guarded

variable {K : Type} [Field K]

/-- A number that no division has failed for. -/
def guard (x : K) : Guarded K := ⟨some x⟩

instance : NatCast (Guarded K) := ⟨fun n => guard n⟩
instance : Add (Guarded K) := ⟨fun a b => ⟨Option.map₂ (· + ·) a.number? b.number?⟩⟩
instance : Sub (Guarded K) := ⟨fun a b => ⟨Option.map₂ (· - ·) a.number? b.number?⟩⟩
instance : Mul (Guarded K) := ⟨fun a b => ⟨Option.map₂ (· * ·) a.number? b.number?⟩⟩

theorem natCast_eq (n : Nat) : (n : Guarded K) = guard (n : K) := rfl

theorem guard_add (x y : K) : guard x + guard y = guard (x + y) := rfl

theorem guard_sub (x y : K) : guard x - guard y = guard (x - y) := rfl

theorem guard_mul (x y : K) : guard x * guard y = guard (x * y) := rfl

variable [DecidableEq K]

/-- There is no quotient by zero. -/
instance : Div (Guarded K) :=
  ⟨fun a b => ⟨b.number?.bind fun y => if y = 0 then none else a.number?.map (· / y)⟩⟩

theorem guard_div (x : K) {y : K} (hy : y ≠ 0) : guard x / guard y = guard (x / y) :=
  congrArg Guarded.mk (if_neg hy)

theorem guard_div_zero (x : K) : (guard x / guard 0).number? = none := if_pos rfl

end Guarded

namespace Moments

/-- Moments in other numbers. -/
def map {α β : Type} (f : α → β) (m : Moments α) : Moments β := ⟨m.count, f m.mean, f m.deviation⟩

variable {K : Type} [Field K]

/-! ## What moments are -/

/-- The average of numbers, zero of none. -/
def average (xs : List K) : K := xs.sum / xs.length

/-- The sum of the squared deviations from a number. -/
def deviationFrom (c : K) (xs : List K) : K := (xs.map fun x => (x - c) ^ 2).sum

/-- The number of samples, their average, and the sum of their squared deviations from it. -/
def summary (xs : List K) : Moments K := ⟨xs.length, average xs, deviationFrom (average xs) xs⟩

theorem summary_nil : summary ([] : List K) = empty := by
  have haverage : average ([] : List K) = 0 := by rw [average, List.sum_nil, zero_div]
  rw [summary, haverage, empty, Nat.cast_zero]
  rfl

theorem average_singleton (x : K) : average [x] = x := by
  rw [average, List.sum_singleton, List.length_singleton, Nat.cast_one, div_one]

theorem summary_singleton (x : K) : summary [x] = ⟨1, x, 0⟩ := by
  rw [summary, average_singleton, deviationFrom, List.map_singleton, List.sum_singleton, sub_self,
    zero_pow two_ne_zero]
  rfl

theorem deviationFrom_append (c : K) (xs ys : List K) :
    deviationFrom c (xs ++ ys) = deviationFrom c xs + deviationFrom c ys := by
  rw [deviationFrom, List.map_append, List.sum_append]
  rfl

theorem deviationFrom_eq (c : K) (xs : List K) :
    deviationFrom c xs = (xs.map (· ^ 2)).sum - 2 * c * xs.sum + xs.length * c ^ 2 := by
  induction xs with
  | nil => simp [deviationFrom]
  | cons x rest ih =>
    rw [deviationFrom] at ih ⊢
    rw [List.map_cons, List.sum_cons, ih, List.map_cons, List.sum_cons, List.sum_cons,
      List.length_cons, Nat.cast_add_one]
    ring

section CharZero

variable [CharZero K] {xs ys : List K}

theorem length_ne_zero (h : xs ≠ []) : (xs.length : K) ≠ 0 :=
  Nat.cast_ne_zero.2 (List.length_eq_zero_iff.not.2 h)

theorem length_mul_average (h : xs ≠ []) : xs.length * average xs = xs.sum := by
  rw [average, mul_div_cancel₀ _ (length_ne_zero h)]

/-- From the average the squared deviations are least; from any other number they are more, by its
    squared distance from the average for each sample. -/
theorem deviationFrom_eq_add (h : xs ≠ []) (c : K) :
    deviationFrom c xs
      = deviationFrom (average xs) xs + xs.length * (average xs - c) ^ 2 := by
  rw [deviationFrom_eq, deviationFrom_eq, ← length_mul_average h]
  ring

/-! ## Groups of samples -/

/-- The average of two groups lies between their averages, as far from each as the other has
    samples. -/
theorem average_append (hx : xs ≠ []) (hy : ys ≠ []) :
    average (xs ++ ys) = average xs
      + (average ys - average xs) * ys.length / ((xs.length + ys.length : Nat) : K) := by
  have hboth : ((xs.length + ys.length : Nat) : K) ≠ 0 :=
    List.length_append ▸ length_ne_zero (List.append_ne_nil_of_left_ne_nil hx ys)
  rw [average, List.sum_append, List.length_append, div_eq_iff hboth, ← length_mul_average hx,
    ← length_mul_average hy, add_mul, div_mul_cancel₀ _ hboth, Nat.cast_add]
  ring

/-- The summaries of two groups combine to that of both in one. -/
theorem combine_summary (xs ys : List K) :
    (summary xs).combine (summary ys) = summary (xs ++ ys) := by
  by_cases hy : ys = []
  · rw [hy, List.append_nil]
    rfl
  have hycount : (summary ys).count ≠ 0 := List.length_eq_zero_iff.not.2 hy
  by_cases hx : xs = []
  · rw [combine, if_neg hycount, hx]
    rfl
  have hxcount : (summary xs).count ≠ 0 := List.length_eq_zero_iff.not.2 hx
  have hboth : (xs.length : K) + ys.length ≠ 0 := by
    rw [← Nat.cast_add, ← List.length_append]
    exact length_ne_zero (List.append_ne_nil_of_left_ne_nil hx ys)
  -- Each group deviates from the new average as from its own, and by what lies between the two.
  have hdeviation : deviationFrom (average (xs ++ ys)) (xs ++ ys)
      = deviationFrom (average xs) xs + deviationFrom (average ys) ys
        + (average ys - average xs) * (average ys - average xs)
          * ((xs.length : K) * ys.length) / ((xs.length + ys.length : Nat) : K) := by
    rw [deviationFrom_append, deviationFrom_eq_add hx, deviationFrom_eq_add hy,
      average_append hx hy, Nat.cast_add]
    field_simp
    ring
  rw [combine, if_neg hycount, if_neg hxcount, summary.eq_def (xs ++ ys), hdeviation,
    average_append hx hy, List.length_append]
  rfl

/-- One more sample counts as a group of one. -/
theorem push_eq_combine {m : Moments K} (hm : m.count ≠ 0) (x : K) :
    m.push x = m.combine ⟨1, x, 0⟩ := by
  have hcount : (m.count : K) + 1 ≠ 0 := Nat.cast_add_one_ne_zero _
  -- The new sample deviates from the new average by what is left of its distance from the old.
  have hdeviation : (x - m.mean) * (x - (m.mean + (x - m.mean) / ((m.count + 1 : Nat) : K)))
      = (x - m.mean) * (x - m.mean) * m.count / ((m.count + 1 : Nat) : K) := by
    rw [Nat.cast_add_one]
    field_simp
    ring
  rw [combine, if_neg Nat.one_ne_zero, if_neg hm, push, hdeviation]
  simp only [Nat.cast_one, mul_one, add_zero]

theorem push_summary (xs : List K) (x : K) : (summary xs).push x = summary (xs ++ [x]) := by
  by_cases hx : xs = []
  · rw [hx, List.nil_append, summary_nil, summary_singleton, push, empty]
    simp
  · rw [push_eq_combine (List.length_eq_zero_iff.not.2 hx), ← summary_singleton, combine_summary]

/-- All samples are summarized if they are taken one by one. -/
theorem foldl_push (xs : List K) : xs.foldl push empty = summary xs := by
  induction xs using List.reverseRecOn with
  | nil => exact summary_nil.symm
  | append_singleton rest x ih => rw [List.foldl_concat, ih, push_summary]

/-- Wherever samples are cut into parts, they are summarized by what the parts combine to. -/
theorem foldl_combine (parts : List (List K)) :
    (parts.map (·.foldl push empty)).foldl combine empty = summary parts.flatten := by
  induction parts using List.reverseRecOn with
  | nil => exact summary_nil.symm
  | append_singleton rest part ih =>
    rw [List.map_append, List.map_singleton, List.foldl_concat, ih, foldl_push, combine_summary,
      List.flatten_append, List.flatten_singleton]

/-! ## No division by zero -/

section Guard

open Guarded

variable [DecidableEq K]

theorem push_guard (m : Moments K) (x : K) :
    (m.map guard).push (guard x) = (m.push x).map guard := by
  have hcount : ((m.count + 1 : Nat) : K) ≠ 0 := Nat.cast_ne_zero.2 (Nat.succ_ne_zero _)
  simp only [push, map, natCast_eq, guard_sub, guard_div _ hcount, guard_add, guard_mul]

theorem combine_guard (a b : Moments K) :
    (a.map guard).combine (b.map guard) = (a.combine b).map guard := by
  by_cases hb : b.count = 0
  · rw [combine, combine, if_pos hb]
    exact if_pos hb
  by_cases ha : a.count = 0
  · rw [combine, combine, if_neg hb, if_pos ha]
    exact (if_neg hb).trans (if_pos ha)
  have hcount : ((a.count + b.count : Nat) : K) ≠ 0 :=
    Nat.cast_ne_zero.2 fun h => ha (Nat.eq_zero_of_add_eq_zero_right h)
  simp only [combine, map, ha, hb, if_false, natCast_eq, guard_sub, guard_mul,
    guard_div _ hcount, guard_add]

theorem variance_guard (m : Moments K) : (m.map guard).variance = guard m.variance := by
  by_cases hm : 1 < m.count
  · have hcount : ((m.count - 1 : Nat) : K) ≠ 0 := Nat.cast_ne_zero.2 (Nat.sub_ne_zero_of_lt hm)
    simp only [variance, map, hm, if_true, natCast_eq, guard_div _ hcount]
  · simp only [variance, map, hm, if_false, natCast_eq]

theorem foldl_push_guard (xs : List K) (m : Moments K) :
    (xs.map guard).foldl push (m.map guard) = (xs.foldl push m).map guard := by
  induction xs generalizing m with
  | nil => rfl
  | cons x rest ih => rw [List.map_cons, List.foldl_cons, push_guard, ih, List.foldl_cons]

theorem foldl_combine_guard (groups : List (Moments K)) (m : Moments K) :
    (groups.map (map guard)).foldl combine (m.map guard) = (groups.foldl combine m).map guard := by
  induction groups generalizing m with
  | nil => rfl
  | cons group rest ih => rw [List.map_cons, List.foldl_cons, combine_guard, ih, List.foldl_cons]

/-- The moments of parts, with numbers that keep the failure of a division. -/
theorem foldl_combine_foldl_push_guard (parts : List (List K)) :
    (parts.map fun part => (part.map guard).foldl push empty).foldl combine empty
      = (summary parts.flatten).map guard := by
  have hparts : parts.map (fun part => (part.map guard).foldl push empty)
      = (parts.map (·.foldl push empty)).map (map guard) := by
    rw [List.map_map]
    exact List.map_congr_left fun part _ => foldl_push_guard part empty
  rw [hparts, ← foldl_combine]
  exact foldl_combine_guard _ empty

end Guard

/-! ## Segments -/

/-- However doubles are read as numbers of the field, the numbers of segments are summarized as they
    are in one list. -/
theorem reduce_eq_summary (number : Double → K) (segments : List Segment) :
    reduce segments empty (fun m x => m.push (number x)) combine
      = summary ((segments.flatMap Segment.presentNumbers).map number) := by
  have hfold (xs : List Double) :
      xs.foldl (fun m x => m.push (number x)) empty = summary (xs.map number) := by
    rw [← foldl_push, List.foldl_map]
  have hmerges : Merges empty (fun m x => m.push (number x)) combine := fun xs ys => by
    rw [hfold, hfold, hfold, combine_summary, List.map_append]
  rw [hmerges.reduce_eq, hfold]

end CharZero

/-- Over the rational numbers the moments of samples that are taken one by one are their number,
    their average, and the sum of their squared deviations from it. Parts of samples that are
    taken apart, and combined in order, come to the same, as do the numbers of segments. The
    variance of more than one sample is that sum over one less than their number. All of this is
    computed without a division by zero. -/
theorem summarizes :
    (∀ xs : List ℚ, xs.foldl push empty = summary xs ∧
      (xs.map Guarded.guard).foldl push empty = (summary xs).map Guarded.guard) ∧
    (∀ parts : List (List ℚ),
      (parts.map (·.foldl push empty)).foldl combine empty = parts.flatten.foldl push empty ∧
      (parts.map fun part => (part.map Guarded.guard).foldl push empty).foldl combine empty
        = (parts.flatten.foldl push empty).map Guarded.guard) ∧
    (∀ (number : Double → ℚ) (segments : List Segment),
      reduce segments empty (fun m x => m.push (number x)) combine
        = ((segments.flatMap Segment.presentNumbers).map number).foldl push empty) ∧
    ∀ xs : List ℚ, ((summary xs).map Guarded.guard).variance = Guarded.guard (summary xs).variance ∧
      (summary xs).variance
        = if 1 < xs.length then (summary xs).deviation / (xs.length - 1) else 0 := by
  refine ⟨fun xs => ⟨foldl_push xs, ?_⟩, fun parts => ⟨?_, ?_⟩, fun number segments => ?_,
    fun xs => ⟨variance_guard _, ?_⟩⟩
  · rw [← foldl_push]
    exact foldl_push_guard xs empty
  · rw [foldl_combine, foldl_push]
  · rw [foldl_combine_foldl_push_guard, foldl_push]
  · rw [reduce_eq_summary, foldl_push]
  · have hcount : (summary xs).count = xs.length := rfl
    rw [variance, hcount]
    split
    · rename_i hlength
      rw [Nat.cast_pred (Nat.zero_lt_of_lt hlength)]
    · exact Nat.cast_zero

end Moments

end ColumnStore

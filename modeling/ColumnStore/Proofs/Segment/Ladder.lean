import ColumnStore.Proofs.Segment.Format
import ColumnStore.Segment.Basic
import Mathlib.Algebra.Ring.Nat

/-!
# The ladder of formats

Formats of a kind form a ladder, from the narrowest one to one that holds every value of the kind
(`Format.ladder`). On the ladder of a format stands one that holds any given value of the kind
(`exists_fitting?`), and climbing to it changes no value that is there (`decode_convert`).

A segment is widened by tests and conversions of its own, which are others than those by which a
format keeps a value. The two go together all the same: a segment is left as it is if its format
holds the value (`Segment.wider?_of_holds`), and else climbs the ladder to the first format that
does (`Segment.wider?_of_not_holds`).
-/

namespace ColumnStore

namespace Format

/-- The formats of the kind that are at least as wide, from this one on. -/
def ladder : Format → List Format
  | .long16 => [.long16, .long32, .long64]
  | .long32 => [.long32, .long64]
  | .long64 => [.long64]
  | .int16 => [.int16, .int32]
  | .int32 => [.int32]
  | .half => [.half, .double]
  | .double => [.double]

/-- The first format on the ladder that holds the value. -/
def fitting? (f : Format) (v : Value) : Option Format := f.ladder.find? (·.holds v)

/-- The payload in another format that stands for the same value. -/
def convert (f g : Format) (p : f.Payload) : g.Payload := (g.encode? (f.decode p)).getD default

variable {f g : Format} {v : Value}

theorem kind_of_mem_ladder (hg : g ∈ f.ladder) : g.kind = f.kind := by
  cases f <;> simp only [ladder, List.mem_cons, List.not_mem_nil, or_false] at hg <;>
    rcases hg with rfl | rfl | rfl <;> rfl

/-- What a payload stands for, some payload in a wider format does, too. -/
theorem exists_decode_eq (hg : g ∈ f.ladder) (p : f.Payload) :
    ∃ q : g.Payload, g.decode q = f.decode p := by
  cases f <;> simp only [ladder, List.mem_cons, List.not_mem_nil, or_false] at hg
  case long16 =>
    rcases hg with rfl | rfl | rfl
    · exact ⟨p, rfl⟩
    · exact ⟨Int16.toInt32 p, congrArg Value.long (Int16.toInt64_toInt32 p)⟩
    · exact ⟨Int16.toInt64 p, rfl⟩
  case long32 =>
    rcases hg with rfl | rfl
    · exact ⟨p, rfl⟩
    · exact ⟨Int32.toInt64 p, rfl⟩
  case int16 =>
    rcases hg with rfl | rfl
    · exact ⟨p, rfl⟩
    · exact ⟨Int16.toInt32 p, rfl⟩
  case half =>
    rcases hg with rfl | rfl
    · exact ⟨p, rfl⟩
    · exact ⟨Half.decode p, rfl⟩
  all_goals
    subst hg
    exact ⟨p, rfl⟩

/-- There is no other payload in a format that stands for the same value. -/
theorem convert_eq {p : f.Payload} {q : g.Payload} (h : g.decode q = f.decode p) :
    f.convert g p = q := by
  rw [convert, ← h, encode?_decode, Option.getD_some]

/-- Climbing changes nothing that a payload stands for. -/
theorem decode_convert (hg : g ∈ f.ladder) (p : f.Payload) :
    g.decode (f.convert g p) = f.decode p := by
  obtain ⟨q, hq⟩ := exists_decode_eq hg p
  rw [convert_eq hq, hq]

/-- The widest format of a ladder holds every value of the kind. -/
theorem exists_mem_ladder_holds (h : v.kind = f.kind) : ∃ g ∈ f.ladder, g.holds v := by
  cases f <;> cases v <;> simp only [Value.kind, kind, reduceCtorEq] at h
  case long16.long | long32.long | long64.long => exact ⟨.long64, by decide, rfl⟩
  case int16.int | int32.int => exact ⟨.int32, by decide, rfl⟩
  case half.double | double.double => exact ⟨.double, by decide, rfl⟩

/-- For a value of the kind the climb ends, on a format that holds it. -/
theorem exists_fitting? (h : v.kind = f.kind) :
    ∃ g ∈ f.ladder, f.fitting? v = some g ∧ g.holds v := by
  obtain ⟨g, hg, hv⟩ := exists_mem_ladder_holds h
  have hfound : (f.fitting? v).isSome := List.find?_isSome.2 ⟨g, hg, hv⟩
  obtain ⟨g', hg'⟩ := Option.isSome_iff_exists.1 hfound
  have hholds : g'.holds v := List.find?_some (p := fun g : Format => g.holds v) hg'
  exact ⟨g', List.mem_of_find?_eq_some hg', hg', hholds⟩

end Format

namespace Segment

open Format

variable {f g : Format} {v : Value}

/-! ## What a segment tests -/

/-- An integer of 16 bits is told by its size, or by cutting it off to them. -/
theorem fits16_iff (n : Int) : fits16 n ↔ n.bmod (2 ^ 16) = n := by
  rw [fits16, decide_eq_true_iff, Int16.toInt_minValue, Int16.toInt_maxValue, Int.bmod]
  split <;> omega

theorem fits32_iff (n : Int) : fits32 n ↔ n.bmod (2 ^ 32) = n := by
  rw [fits32, decide_eq_true_iff, Int32.toInt_minValue, Int32.toInt_maxValue, Int.bmod]
  split <;> omega

theorem holds_long16 (n : Int64) : Format.long16.holds (.long n) = fits16 n.toInt := by
  rw [Bool.eq_iff_iff, fits16_iff, holds, encode?, Option.isSome_ite, ← Int64.toInt_inj,
    Int16.toInt_toInt64, Int64.toInt_toInt16]

theorem holds_long32 (n : Int64) : Format.long32.holds (.long n) = fits32 n.toInt := by
  rw [Bool.eq_iff_iff, fits32_iff, holds, encode?, Option.isSome_ite, ← Int64.toInt_inj,
    Int32.toInt_toInt64, Int64.toInt_toInt32]

theorem holds_int16 (n : Int32) : Format.int16.holds (.int n) = fits16 n.toInt := by
  rw [Bool.eq_iff_iff, fits16_iff, holds, encode?, Option.isSome_ite, ← Int32.toInt_inj,
    Int16.toInt_toInt32, Int32.toInt_toInt16]

/-- There is no other way to convert the payloads. -/
theorem numbers_convert (h : f.Payload → g.Payload) (hh : ∀ p, g.decode (h p) = f.decode p)
    (slots : Slots f.Payload) : numbers g (slots.map h) = numbers g (slots.map (f.convert g)) := by
  have heq : h = f.convert g := funext fun p => (convert_eq (hh p)).symm
  rw [heq]

/-- What a format tests is whether it holds the value. -/
theorem wider?_of_holds (hv : f.holds v) (slots : Slots f.Payload) :
    (numbers f slots).wider? v = none := by
  cases f <;> cases v
  case long16.long n => exact if_pos (holds_long16 n ▸ hv)
  case long32.long n => exact if_pos (holds_long32 n ▸ hv)
  case int16.int n => exact if_pos (holds_int16 n ▸ hv)
  case half.double x => exact if_pos hv
  all_goals rfl

/-- A segment whose format does not hold the value goes to the first format that does. -/
theorem wider?_of_not_holds (hv : ¬f.holds v) (hfit : f.fitting? v = some g)
    (slots : Slots f.Payload) :
    (numbers f slots).wider? v = some (.numbers g (slots.map (f.convert g))) := by
  have hrest : f.ladder.tail.find? (·.holds v) = some g := by
    have hladder : f.ladder = f :: f.ladder.tail := by cases f <;> rfl
    rwa [fitting?, hladder, List.find?_cons_of_neg (p := fun g : Format => g.holds v) hv] at hfit
  cases f <;> cases v
  case long16.long n =>
    rw [ladder, List.tail_cons, List.find?_cons, holds_long32] at hrest
    rw [wider?, if_neg (holds_long16 n ▸ hv)]
    cases h32 : fits32 n.toInt with
    | true =>
      cases h32 ▸ hrest
      have hread (p : Int16) := congrArg Value.long (Int16.toInt64_toInt32 p)
      exact congrArg some (numbers_convert (g := .long32) Int16.toInt32 hread slots)
    | false =>
      cases h32 ▸ hrest
      exact congrArg some (numbers_convert (g := .long64) Int16.toInt64 (fun _ => rfl) slots)
  case long32.long n =>
    cases hrest
    rw [wider?, if_neg (holds_long32 n ▸ hv)]
    exact congrArg some (numbers_convert (g := .long64) Int32.toInt64 (fun _ => rfl) slots)
  case int16.int n =>
    cases hrest
    rw [wider?, if_neg (holds_int16 n ▸ hv)]
    exact congrArg some (numbers_convert (g := .int32) Int16.toInt32 (fun _ => rfl) slots)
  case half.double x =>
    cases hrest
    refine (if_neg hv).trans ?_
    exact congrArg some (numbers_convert (g := .double) Half.decode (fun _ => rfl) slots)
  -- No format is left for the value, be it of another kind or the format the widest one.
  all_goals cases hrest

theorem wider?_objects (kind : Kind) (cells : Array (Option Value)) (v : Value) :
    (objects kind cells).wider? v = none := rfl

end Segment

end ColumnStore

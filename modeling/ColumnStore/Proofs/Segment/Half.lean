import ColumnStore.Proofs.Double.Value
import ColumnStore.Proofs.Segment.Run
import Mathlib.Tactic.Linarith
import Mathlib.Tactic.NormNum

/-!
# Halves in a byte are exact

A byte stands for the double of half its value (`Half.toRat?_decode`), of the two zeros the
positive one. No other double is kept for it (`Half.eq_decode_iff`), so that the doubles kept in
a byte are told by their values (`Half.exists_encode?_iff`).

Nothing of a double is lost in a segment either: after writes of doubles to any slots, each one
with the widening that it takes, every slot has the last double that was written to it, bit for
bit (`Segment.run_writing`).
-/

namespace ColumnStore

namespace Half

open Double

variable {x : Double} {s : Int8}

/-! ## The doubles of bytes -/

theorem isFinite_decode (s : Int8) : (decode s).isFinite = true :=
  forall_byte (P := fun s => (decode s).isFinite = true) (by decide +kernel) s

theorem signedUnits_decode (s : Int8) : (decode s).signedUnits = s.toInt * (2 ^ 1073 : Nat) :=
  forall_byte (P := fun s => (decode s).signedUnits = s.toInt * (2 ^ 1073 : Nat))
    (by decide +kernel) s

theorem decode_ne_negativeZero (s : Int8) : decode s ≠ negativeZero :=
  forall_byte (P := fun s => decode s ≠ negativeZero) (by decide +kernel) s

/-- A byte counts halves. -/
theorem toRat?_decode (s : Int8) : (decode s).toRat? = some (s.toInt / 2 : ℚ) := by
  have hunit : ((2 ^ 1073 : Nat) : ℚ) * unit = 1 / 2 := by
    rw [unit, Nat.cast_pow, Nat.cast_ofNat, ← zpow_natCast, ← zpow_add₀ two_ne_zero]
    norm_num
  rw [toRat?_eq_signedUnits (isFinite_decode s), signedUnits_decode, Int.cast_mul,
    Int.cast_natCast, mul_assoc, hunit, mul_one_div]

/-- The double of a byte is the only one of its value but for negative zero. -/
theorem eq_decode_iff : x = decode s ↔ x.toRat? = some (s.toInt / 2 : ℚ) ∧ x ≠ negativeZero := by
  constructor
  · rintro rfl
    exact ⟨toRat?_decode s, decode_ne_negativeZero s⟩
  · rintro ⟨hvalue, hx⟩
    exact eq_of_ne_negativeZero hvalue (toRat?_decode s) hx (decode_ne_negativeZero s)

theorem encode?_eq_some_iff : encode? x = some s ↔ x = decode s :=
  ⟨fun h => (decode_of_encode? h).symm, fun h => h ▸ encode?_decode s⟩

/-- Two bytes have different halves. -/
theorem decode_injective : Function.Injective decode := by
  intro s t h
  rw [← Option.some_inj, ← encode?_decode s, h, encode?_decode]

/-- The doubles that a byte keeps are the multiples of one half in its range, but for negative
    zero. -/
theorem exists_encode?_iff : (∃ s, encode? x = some s) ↔
    (∃ n : Int, x.toRat? = some (n / 2 : ℚ) ∧ (-64 : ℚ) ≤ n / 2 ∧ (n / 2 : ℚ) ≤ 63.5) ∧
      x ≠ negativeZero := by
  simp only [encode?_eq_some_iff, eq_decode_iff]
  constructor
  · rintro ⟨s, hvalue, hx⟩
    have hlow : (-128 : ℚ) ≤ s.toInt := mod_cast s.le_toInt
    have hhigh : (s.toInt : ℚ) ≤ 127 := mod_cast s.toInt_le
    exact ⟨⟨s.toInt, hvalue, by linarith, by linarith⟩, hx⟩
  · rintro ⟨⟨n, hvalue, hlow, hhigh⟩, hx⟩
    have hlow : -128 ≤ n := by
      have : (-128 : ℚ) ≤ n := by linarith
      exact_mod_cast this
    have hhigh : n ≤ 127 := by
      have : (n : ℚ) ≤ 127 := by linarith
      exact_mod_cast this
    exact ⟨.ofInt n, by rw [Int8.toInt_ofInt_of_le hlow (by omega)]; exact hvalue, hx⟩

end Half

namespace Segment

variable {s : Segment} {slot : Nat} {v : Value}

/-! ## Doubles in segments -/

/-- The steps that write a double: the widening that it takes, and the put. -/
def writing (w : Fin capacity × Double) : List Step :=
  [.widen (some (.double w.2)), .put w.1 (some (.double w.2))]

/-- The cells with the one that is written replaced. -/
def overwrite (cells : Nat → Option Value) (w : Fin capacity × Double) : Nat → Option Value :=
  Function.update cells w.1 (some (.double w.2))

/-- A value of the kind goes to any slot, with the widening that it takes. Nothing else is
    changed. -/
theorem exists_widen_put (hs : s.WellKinded) (hslot : slot < capacity) (hkind : v.kind = s.kind) :
    ∃ w t, (Step.widen (some v)).apply s = (.ok (), w) ∧
      (Step.put slot (some v)).apply w = (.ok (), t) ∧
      t.kind = s.kind ∧ t.WellKinded ∧ t.get? = Function.update s.get? slot (some v) := by
  obtain ⟨wider?, hwiden, hw, hrefusal⟩ :=
    exists_widenFor hs (fun u hu => Option.some.inj hu ▸ hkind)
  have hput := hrefusal slot hslot
  refine ⟨wider?.getD s, (wider?.getD s).place slot (some v), ?_, ?_,
    (kind_place hput).trans hw.kind, wellKinded_place hw.wellKinded hput, ?_⟩
  · rw [Step.apply, hwiden]
  · rw [Step.apply, put, hput]
  funext k
  rw [get?_place hw.wellKinded hput, Function.update_apply]
  by_cases hk : k = slot
  · rw [if_pos hk, if_pos hk]
  rw [if_neg hk, if_neg hk]
  split
  · -- The slots that are skipped are past the end, where there was no value either.
    rename_i hskipped
    rw [gap_some, get?_of_size_le (hw.size ▸ hskipped.1)]
  · exact hw.get? k

/-- Writes of doubles to a segment of doubles all succeed, and leave in each slot the last double
    that was written to it. -/
theorem run_writing (ws : List (Fin capacity × Double)) (hs : s.WellKinded)
    (hkind : s.kind = .double) :
    let (results, t) := run Step.apply (ws.flatMap writing) s
    (∀ r ∈ results, r = .ok ()) ∧ t.get? = ws.foldl overwrite s.get? := by
  induction ws generalizing s with
  | nil => exact ⟨nofun, rfl⟩
  | cons w rest ih =>
    obtain ⟨u, t, hwiden, hput, htkind, ht, hget⟩ :=
      exists_widen_put hs w.1.isLt (v := .double w.2) hkind.symm
    obtain ⟨hresults, hrest⟩ := ih ht (htkind.trans hkind)
    have hrun : run Step.apply ((w :: rest).flatMap writing) s
        = (.ok () :: .ok () :: (run Step.apply (rest.flatMap writing) t).1,
          (run Step.apply (rest.flatMap writing) t).2) := by
      rw [List.flatMap_cons, writing, List.cons_append, List.cons_append, List.nil_append, run_cons,
        hwiden, run_cons, hput]
    rw [hrun, List.foldl_cons, overwrite, ← hget]
    exact ⟨List.forall_mem_cons.2 ⟨rfl, List.forall_mem_cons.2 ⟨rfl, hresults⟩⟩, hrest⟩

end Segment

/-- The bytes are an exact partial inverse of the doubles. A double is kept in a byte if and only if
    it is the half of that byte, bit for bit, and that is so for the multiples of one half from -64
    to 63.5 but for negative zero. So doubles that are written to any slots of a segment of doubles,
    after anything else was done to it, are kept as they are. -/
theorem Half.encode?_exact :
    (∀ x s, encode? x = some s ↔ x = decode s) ∧
    (∀ x s, x = decode s ↔ x.toRat? = some (s.toInt / 2 : ℚ) ∧ x ≠ Double.negativeZero) ∧
    (∀ x, (∃ s, encode? x = some s) ↔
      (∃ n : Int, x.toRat? = some (n / 2 : ℚ) ∧ (-64 : ℚ) ≤ n / 2 ∧ (n / 2 : ℚ) ≤ 63.5) ∧
        x ≠ Double.negativeZero) ∧
    Function.Injective decode ∧
    (∀ s, encode? (decode s) = some s) ∧
    ∀ (full : Bool) (steps : List Segment.Step) (ws : List (Fin Segment.capacity × Double)),
      let s := (run Segment.Step.apply steps (Segment.fresh .double full)).2
      let (results, t) := run Segment.Step.apply (ws.flatMap Segment.writing) s
      (∀ r ∈ results, r = .ok ()) ∧ t.get? = ws.foldl Segment.overwrite s.get? := by
  refine ⟨fun _ _ => encode?_eq_some_iff, fun _ _ => eq_decode_iff, fun _ => exists_encode?_iff,
    decode_injective, encode?_decode, ?_⟩
  intro full steps ws
  obtain ⟨hkind, hs, -⟩ := Segment.run_apply steps (Segment.wellKinded_fresh .double full)
  exact Segment.run_writing ws hs (hkind.trans (Segment.kind_fresh .double full))

/-- Twice 63.75 rounds to a number past the bytes, and negative zero to the byte of the other zero. -/
example : Half.encode? (.ofRatio false 255 4) = none ∧ Half.encode? .negativeZero = none := by
  decide

end ColumnStore

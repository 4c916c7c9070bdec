import ColumnStore.Proofs.Segment.Basic
import ColumnStore.Proofs.Segment.Encoding

/-!
# Widening

A segment is widened for a value exactly if it would refuse to write the value for its encoding
alone. For one value there are three cases, in which widening and writing go together:

* the value is of another kind, and both refuse it (`widenFor_of_kind_ne`);
* the encoding represents the value, so there is nothing to widen and every slot takes the value
  (`widenFor_of_represents`);
* the encoding does not, and there is a wider segment (`exists_widenFor_of_not_represents`). It
  reads as before, takes the value and all that were taken before, and no narrower encoding would
  have done (`IsLeastWider`).

`widensFor` puts the three together.
-/

namespace ColumnStore.Segment

variable {s : Segment} {slot : Nat} {v : Value}

/-! ## Writing by the encoding -/

/-- The segment takes the value in every slot. -/
def Accepts (s : Segment) (v : Value) : Prop :=
  ∀ slot < capacity, ∃ t, s.put slot (some v) = .ok t

theorem put_of_kind_ne (h : v.kind ≠ s.kind) :
    s.put slot (some v) = .error (.wrongKind v s.encoding.name) := by
  have haccepts : s.kind.accepts v = false := decide_eq_false h
  simp only [put, refusal?, haccepts, Bool.false_eq_true, if_false]

/-- If the encoding represents a value of the kind, only the slot can be refused. -/
theorem refusal?_of_represents (hkind : v.kind = s.kind) (hv : s.encoding.Represents v) :
    s.refusal? slot (some v) = outOfRange? slot := by
  have haccepts : s.kind.accepts v = true := decide_eq_true hkind
  cases s with
  | numbers f slots =>
    have hholds : f.holds v = true := Format.represents_iff.1 hv
    simp only [refusal?, haccepts, hholds, if_true]
  | objects kind cells => simp only [refusal?, haccepts, if_true]

/-- Otherwise no slot takes it. -/
theorem put_of_not_represents (hs : s.WellKinded) (hkind : v.kind = s.kind)
    (hv : ¬s.encoding.Represents v) :
    s.put slot (some v) = .error (.tooWide v s.encoding.name) := by
  have haccepts : s.kind.accepts v = true := decide_eq_true hkind
  cases s with
  | numbers f slots =>
    have hholds : f.holds v = false := Bool.eq_false_iff.2 fun h => hv (Format.represents_iff.2 h)
    simp only [put, refusal?, haccepts, hholds, Bool.false_eq_true, if_true, if_false]
  | objects kind cells =>
    -- The only values that objects do not represent are of other kinds.
    have hnumeric : v.kind.isNumeric = false := hkind ▸ hs.1
    exact absurd hnumeric hv

theorem put_of_represents (hkind : v.kind = s.kind) (hv : s.encoding.Represents v) :
    s.put slot (some v) = if slot < capacity then .ok (s.place slot (some v))
      else .error (.outOfRange slot capacity) := by
  rw [put, refusal?_of_represents hkind hv, outOfRange?]
  by_cases hslot : slot < capacity
  · rw [if_pos hslot, if_pos hslot]
  · rw [if_neg hslot, if_neg hslot]

theorem accepts_iff (hs : s.WellKinded) :
    s.Accepts v ↔ v.kind = s.kind ∧ s.encoding.Represents v := by
  constructor
  · intro h
    obtain ⟨t, ht⟩ := h 0 (by decide)
    have hkind : v.kind = s.kind := by
      by_contra hne
      rw [put_of_kind_ne hne] at ht
      cases ht
    refine ⟨hkind, ?_⟩
    by_contra hv
    rw [put_of_not_represents hs hkind hv] at ht
    cases ht
  · rintro ⟨hkind, hv⟩ slot hslot
    exact ⟨_, (put_of_represents hkind hv).trans (if_pos hslot)⟩

/-! ## Widening by the encoding -/

theorem widenFor_of_kind_ne (h : v.kind ≠ s.kind) :
    s.widenFor (some v) = .error (.wrongKind v s.encoding.name) := by
  have haccepts : s.kind.accepts v = false := decide_eq_false h
  simp only [widenFor, haccepts, Bool.false_eq_true, if_false]

theorem widenFor_of_represents (hkind : v.kind = s.kind) (hv : s.encoding.Represents v) :
    s.widenFor (some v) = .ok none := by
  have haccepts : s.kind.accepts v = true := decide_eq_true hkind
  cases s with
  | numbers f slots =>
    rw [widenFor, if_pos haccepts, wider?_of_holds (Format.represents_iff.1 hv)]
  | objects kind cells => rw [widenFor, if_pos haccepts, wider?_objects]

/-- The segment `w` is `s` in the narrowest encoding that is no narrower than that of `s` and
    represents the value. -/
structure IsLeastWider (s : Segment) (v : Value) (w : Segment) : Prop where
  kind_eq : w.kind = s.kind
  size_eq : w.size = s.size
  hasMask_eq : w.hasMask = s.hasMask
  isAbsent_eq : ∀ slot, w.isAbsent slot = s.isAbsent slot
  get?_eq : ∀ slot, w.get? slot = s.get? slot
  fits : w.widenFor (some v) = .ok none
  /-- The value can be written to every slot, and reads back as it is. -/
  reads : ∀ slot < capacity, ∃ t, w.put slot (some v) = .ok t ∧ t.get? slot = some v
  accepts : ∀ u, s.Accepts u → w.Accepts u
  least : ∀ e : Encoding, e.Represents v → ¬e.Narrower s.encoding → ¬e.Narrower w.encoding

/-- If the encoding does not represent a value of the kind, there is a wider segment for it. -/
theorem exists_widenFor_of_not_represents (hs : s.WellKinded) (hkind : v.kind = s.kind)
    (hv : ¬s.encoding.Represents v) :
    ∃ w, s.widenFor (some v) = .ok (some w) ∧ s.IsLeastWider v w := by
  have haccepts : s.kind.accepts v = true := decide_eq_true hkind
  cases s with
  | objects kind cells =>
    have hnumeric : v.kind.isNumeric = false := hkind ▸ hs.1
    exact absurd hnumeric hv
  | numbers f slots =>
    obtain ⟨g, hg, hfit, hholds⟩ := Format.exists_fitting? hkind
    have hnot : ¬f.holds v := fun h => hv (Format.represents_iff.2 h)
    let w : Segment := .numbers g (slots.map (f.convert g))
    have hw : (numbers f slots).IsWidened w := isWidened_map hg slots
    have hwkind : v.kind = w.kind := Format.kind_of_holds hholds
    have hwrep : w.encoding.Represents v := Format.represents_iff.2 hholds
    refine ⟨w, ?_, hw.kind, hw.size, slots.hasMask_map (f.convert g), ?_, hw.get?,
      widenFor_of_represents hwkind hwrep, ?_, ?_, ?_⟩
    · rw [widenFor, if_pos haccepts, wider?_of_not_holds hnot hfit]
    · intro slot
      rw [isAbsent_eq, isAbsent_eq, hw.get?]
    · intro slot hslot
      have hrefusal : w.refusal? slot (some v) = none :=
        (refusal?_of_represents hwkind hwrep).trans (if_pos hslot)
      refine ⟨_, (put_of_represents hwkind hwrep).trans (if_pos hslot), ?_⟩
      rw [get?_place hw.wellKinded hrefusal, if_pos rfl]
    · -- What a payload stands for, the converted payload does, too.
      intro u hu
      obtain ⟨hukind, p, rfl⟩ := (accepts_iff hs).1 hu
      exact (accepts_iff hw.wellKinded).2
        ⟨hukind.trans hw.kind.symm, f.convert g p, Format.decode_convert hg p⟩
    · intro e he hwide
      cases e with
      | numbers h => exact Format.not_narrower_of_fitting? hfit he hwide
      | objects =>
        -- Numbers are not objects.
        have hnumeric : v.kind.isNumeric = true := hkind ▸ f.isNumeric_kind
        exact absurd (hnumeric.symm.trans he) (by decide)

/-! ## Both together -/

/-- Widening for a value goes by what the segment would do to write it. -/
structure WidensFor (s : Segment) (v : Value) : Prop where
  wrongKind_iff : s.widenFor (some v) = .error (.wrongKind v s.encoding.name) ↔ v.kind ≠ s.kind
  none_iff : s.widenFor (some v) = .ok none ↔ s.Accepts v
  some_iff : ∀ slot, (∃ w, s.widenFor (some v) = .ok (some w)) ↔
    s.put slot (some v) = .error (.tooWide v s.encoding.name)
  least : ∀ w, s.widenFor (some v) = .ok (some w) → s.IsLeastWider v w

theorem widensFor (hs : s.WellKinded) (v : Value) : s.WidensFor v := by
  by_cases hkind : v.kind = s.kind
  · by_cases hv : s.encoding.Represents v
    · have hwiden := widenFor_of_represents hkind hv
      have hput (slot : Nat) : s.put slot (some v) ≠ .error (.tooWide v s.encoding.name) := by
        rw [put_of_represents hkind hv]
        split <;> simp
      exact
        { wrongKind_iff := by simp [hwiden, hkind]
          none_iff := by simp [hwiden, accepts_iff hs, hkind, hv]
          some_iff := fun slot => by simp [hwiden, hput slot]
          least := fun w hw => by simp [hwiden] at hw }
    · obtain ⟨w, hwiden, hleast⟩ := exists_widenFor_of_not_represents hs hkind hv
      have hput (slot : Nat) : s.put slot (some v) = .error (.tooWide v s.encoding.name) :=
        put_of_not_represents hs hkind hv
      exact
        { wrongKind_iff := by simp [hwiden, hkind]
          none_iff := by simp [hwiden, accepts_iff hs, hv]
          some_iff := fun slot => by simp [hwiden, hput slot]
          least := fun w' hw' => by
            rw [hwiden, Except.ok.injEq, Option.some.injEq] at hw'
            exact hw' ▸ hleast }
  · have hwiden := widenFor_of_kind_ne hkind
    have hput (slot : Nat) : s.put slot (some v) = .error (.wrongKind v s.encoding.name) :=
      put_of_kind_ne hkind
    exact
      { wrongKind_iff := by simp [hwiden, hkind]
        none_iff := by simp [hwiden, accepts_iff hs, hkind]
        some_iff := fun slot => by simp [hwiden, hput slot]
        least := fun w hw => by simp [hwiden] at hw }

end ColumnStore.Segment

import ColumnStore.Segment.Basic
import ColumnStore.Proofs.Segment.Ladder
import ColumnStore.Proofs.Segment.Slots

/-!
# Segments through their readers

The readers of a segment agree (`isAbsent_eq`, `getInteger?_eq`, `getNumber?_eq`): all of them
tell what `get?` does, in part. So a write is described by what it does to `get?`
(`IsWritten`).

* A value of the kind is written, whatever the format, and the other slots keep their values
  (`exists_write`).
* A value of another kind is refused, and the segment is as before (`write_of_kind_ne`).
-/

namespace ColumnStore.Segment

variable {s t : Segment} {slot : Nat} {cell : Option Value} {v : Value}

/-- The segment holds values of its kind only, those that are no numbers as they are. -/
def WellKinded : Segment → Prop
  | .numbers .. => True
  | .objects kind cells =>
    kind.isNumeric = false ∧ ∀ slot v, cells.getD slot none = some v → v.kind = kind

/-! ## Reading -/

theorem get?_of_size_le (h : s.size ≤ slot) : s.get? slot = none := by
  cases s with
  | numbers f slots => rw [get?, slots.get?_of_size_le h, Option.map_none]
  | objects kind cells => rw [get?, Array.getD_eq_getD_getElem?, Array.getElem?_eq_none h]; rfl

theorem kind_of_get? (hs : s.WellKinded) (h : s.get? slot = some v) : v.kind = s.kind := by
  cases s with
  | numbers f slots =>
    obtain ⟨p, -, rfl⟩ := Option.map_eq_some_iff.1 h
    exact f.kind_decode p
  | objects kind cells => exact hs.2 slot v h

theorem isAbsent_eq : s.isAbsent slot = (s.get? slot).isNone := by
  cases s with
  | numbers f slots => rw [isAbsent, get?, slots.isPresent_eq, Option.isNone_map, Option.not_isSome]
  | objects kind cells => rfl

theorem getInteger?_eq (hs : s.WellKinded) :
    s.getInteger? slot = (s.get? slot).bind Value.integer? := by
  cases s with
  | numbers f slots =>
    rw [getInteger?, get?, Option.bind_map]
    exact congrArg _ (funext f.integer?_eq)
  | objects kind cells =>
    obtain ⟨hkind, hcells⟩ := hs
    rw [getInteger?, get?]
    cases hv : cells.getD slot none with
    | none => rfl
    | some v =>
      have := hcells slot v hv
      cases v <;> cases this <;> first | rfl | cases hkind

theorem getNumber?_eq (hs : s.WellKinded) :
    s.getNumber? slot = (s.get? slot).bind Value.number? := by
  cases s with
  | numbers f slots =>
    rw [getNumber?, get?, Option.bind_map, Option.map_eq_bind]
    exact congrArg _ (funext fun p => (f.number?_decode p).symm)
  | objects kind cells =>
    obtain ⟨hkind, hcells⟩ := hs
    rw [getNumber?, get?]
    cases hv : cells.getD slot none with
    | none => rfl
    | some v =>
      have := hcells slot v hv
      cases v <;> cases this <;> first | rfl | cases hkind

theorem length_toList : s.toList.length = s.size := by
  rw [toList, List.length_map, List.length_range]

theorem getElem?_toList (k : Nat) :
    s.toList[k]? = if k < s.size then some (s.get? k) else none := by
  by_cases hk : k < s.size
  · rw [toList, List.getElem?_map, List.getElem?_range hk, if_pos hk, Option.map_some]
  · rw [if_neg hk, List.getElem?_eq_none (length_toList ▸ Nat.le_of_not_lt hk)]

theorem compact_eq : s.compact = s := by
  cases s with
  | numbers f slots => rw [compact, slots.compact_eq]
  | objects kind cells => rw [compact, Array.extract_size]

/-! ## New segments -/

theorem kind_narrow (kind : Kind) : (narrow kind).kind = kind := by cases kind <;> rfl

theorem size_narrow (kind : Kind) : (narrow kind).size = 0 := by cases kind <;> rfl

theorem wellKinded_narrow (kind : Kind) : (narrow kind).WellKinded := by
  cases kind <;> first | trivial | exact ⟨rfl, nofun⟩

/-! ## Writing -/

/-- The segment `t` holds what `s` does, but for `cell` in one slot. -/
structure IsWritten (s : Segment) (slot : Nat) (cell : Option Value) (t : Segment) : Prop where
  kind : t.kind = s.kind
  size : t.size = max s.size (slot + 1)
  get? : ∀ k, t.get? k = if k = slot then cell else s.get? k
  wellKinded : t.WellKinded

/-- The segment `t` keeps what `s` does in another format. -/
structure IsWidened (s t : Segment) : Prop where
  kind : t.kind = s.kind
  size : t.size = s.size
  get? : ∀ k, t.get? k = s.get? k
  wellKinded : t.WellKinded

theorem IsWidened.refl (hs : s.WellKinded) : s.IsWidened s := ⟨rfl, rfl, fun _ => rfl, hs⟩

/-- A wider format keeps every slot as it was. -/
theorem isWidened_map {f g : Format} (hg : g ∈ f.ladder) (slots : Slots f.Payload) :
    (numbers f slots).IsWidened (.numbers g (slots.map (f.convert g))) where
  kind := Format.kind_of_mem_ladder hg
  size := slots.size_map _
  get? k := by
    rw [Segment.get?, Segment.get?, slots.get?_map, Option.map_map]
    exact congrArg (Option.map · _) (funext (Format.decode_convert hg))
  wellKinded := trivial

/-- Widening makes room for a value of the kind and loses nothing. -/
theorem exists_widenFor (hs : s.WellKinded) (hcell : ∀ v, cell = some v → v.kind = s.kind) :
    ∃ wider?, s.widenFor cell = .ok wider? ∧ s.IsWidened (wider?.getD s) ∧
      ∀ slot < capacity, (wider?.getD s).refusal? slot cell = none := by
  cases cell with
  | none => exact ⟨none, rfl, .refl hs, fun slot hslot => if_pos hslot⟩
  | some v =>
    have hkind := hcell v rfl
    have haccepts : s.kind.accepts v := decide_eq_true hkind
    cases s with
    | objects kind cells =>
      refine ⟨none, by rw [widenFor, if_pos haccepts, wider?_objects], .refl hs, ?_⟩
      intro slot hslot
      rw [Option.getD_none, refusal?, if_pos haccepts]
      exact if_pos hslot
    | numbers f slots =>
      by_cases hv : f.holds v
      · refine ⟨none, by rw [widenFor, if_pos haccepts, wider?_of_holds hv], .refl hs, ?_⟩
        intro slot hslot
        simp only [Option.getD_none, refusal?, haccepts, hv, if_true]
        exact if_pos hslot
      · obtain ⟨g, hg, hfit, hholds⟩ := Format.exists_fitting? hkind
        refine ⟨some (.numbers g (slots.map (f.convert g))), ?_, isWidened_map hg slots, ?_⟩
        · rw [widenFor, if_pos haccepts, wider?_of_not_holds hv hfit]
        · intro slot hslot
          have : (kind (.numbers g (slots.map (f.convert g)))).accepts v :=
            decide_eq_true (Format.kind_of_holds hholds)
          simp only [Option.getD_some, refusal?, this, hholds, if_true]
          exact if_pos hslot

theorem kind_of_refusal? (h : s.refusal? slot (some v) = none) : v.kind = s.kind := by
  by_cases haccepts : s.kind.accepts v
  · exact of_decide_eq_true haccepts
  · simp only [refusal?, haccepts, Bool.false_eq_true, if_false, reduceCtorEq] at h

theorem holds_of_refusal? {f : Format} {slots : Slots f.Payload}
    (h : (numbers f slots).refusal? slot (some v) = none) : f.holds v := by
  have haccepts : (numbers f slots).kind.accepts v := decide_eq_true (kind_of_refusal? h)
  rw [refusal?, if_pos haccepts] at h
  by_cases hholds : f.holds v
  · exact hholds
  · simp only [hholds, Bool.false_eq_true, if_false, reduceCtorEq] at h

/-- Of numbers, a payload that stands for the value is placed. -/
theorem exists_place_numbers {f : Format} {slots : Slots f.Payload}
    (h : (numbers f slots).refusal? slot (some v) = none) :
    ∃ p, f.encode? v = some p ∧
      (numbers f slots).place slot (some v) = .numbers f (slots.put slot p) := by
  obtain ⟨p, hp⟩ := Option.isSome_iff_exists.1 (holds_of_refusal? h)
  exact ⟨p, hp, by simp only [place, hp]⟩

theorem size_place (h : s.refusal? slot cell = none) :
    (s.place slot cell).size = max s.size (slot + 1) := by
  cases s with
  | numbers f slots =>
    cases cell with
    | none => exact slots.size_clear slot
    | some v =>
      obtain ⟨p, -, hplace⟩ := exists_place_numbers h
      rw [hplace]
      exact slots.size_put slot p
  | objects kind cells =>
    simp only [place, size, Array.size_setIfInBounds, Array.size_append, Array.size_replicate]
    omega

theorem kind_place (h : s.refusal? slot cell = none) : (s.place slot cell).kind = s.kind := by
  cases s with
  | numbers f slots =>
    cases cell with
    | none => rfl
    | some v =>
      obtain ⟨p, -, hplace⟩ := exists_place_numbers h
      rw [hplace, kind, kind]
  | objects kind cells => rfl

/-- What the slots hold that a write past the end skips: no value, but where a slot is cleared
    without a mask at hand they hold the zero of the kind. -/
def gap (s : Segment) (cell : Option Value) : Option Value :=
  if cell.isSome || s.hasMask then none else s.kind.zero?

theorem gap_some : s.gap (some v) = none := rfl

theorem gap_numbers {f : Format} {slots : Slots f.Payload} :
    (numbers f slots).gap none = if slots.hasMask then none else some (f.decode default) := by
  rw [f.decode_default]
  rfl

theorem gap_objects {kind : Kind} {cells : Array (Option Value)}
    (hs : (objects kind cells).WellKinded) : (objects kind cells).gap cell = none := by
  have hzero : (objects kind cells).kind.zero? = none := Kind.zero?_eq_none hs.1
  rw [gap, hzero, ite_self]

/-- A write fills its slot and, past the end, the gap before it. All other slots stay. -/
theorem get?_place (hs : s.WellKinded) (h : s.refusal? slot cell = none) (k : Nat) :
    (s.place slot cell).get? k = if k = slot then cell
      else if s.size ≤ k ∧ k < slot then s.gap cell else s.get? k := by
  by_cases hk : k = slot
  · subst hk
    rw [if_pos rfl]
    cases s with
    | numbers f slots =>
      cases cell with
      | none => rw [place, get?, slots.get?_clear, if_pos rfl, Option.map_none]
      | some v =>
        obtain ⟨p, hp, hplace⟩ := exists_place_numbers h
        rw [hplace, get?, slots.get?_put, if_pos rfl, Option.map_some, Format.decode_of_encode? hp]
    | objects kind cells =>
      simp only [place, get?, Array.getD_eq_getD_getElem?]
      grind
  · rw [if_neg hk]
    cases s with
    | numbers f slots =>
      have hsize : (numbers f slots).size = slots.size := rfl
      have hold : slots.size ≤ k → slots.get? k = none := slots.get?_of_size_le
      cases cell with
      | none =>
        rw [place, get?, get?, slots.get?_clear, if_neg hk, gap_numbers, hsize]
        grind
      | some v =>
        obtain ⟨p, hp, hplace⟩ := exists_place_numbers h
        rw [hplace, get?, get?, slots.get?_put, if_neg hk, gap_some, hsize]
        grind
    | objects kind cells =>
      simp only [gap_objects hs, place, get?, size, Array.getD_eq_getD_getElem?]
      grind

/-- Numbers take to a mask when a slot is cleared or a write leaves a gap. -/
theorem hasMask_place (hs : s.WellKinded) (h : s.refusal? slot cell = none) :
    (s.place slot cell).hasMask
      = (s.hasMask || s.kind.isNumeric && (cell.isNone || decide (s.size < slot))) := by
  cases s with
  | numbers f slots =>
    have hnumeric : (numbers f slots).kind.isNumeric = true := f.isNumeric_kind
    cases cell with
    | none =>
      rw [hnumeric, Option.isNone_none, Bool.true_or, Bool.and_true, Bool.or_true]
      exact slots.hasMask_clear slot
    | some v =>
      obtain ⟨p, -, hplace⟩ := exists_place_numbers h
      rw [hplace, hnumeric, Option.isNone_some, Bool.false_or, Bool.true_and]
      exact slots.hasMask_put slot p
  | objects kind cells =>
    have hnumeric : (objects kind cells).kind.isNumeric = false := hs.1
    rw [hnumeric, Bool.false_and, Bool.or_false]
    rfl

theorem wellKinded_place (hs : s.WellKinded) (h : s.refusal? slot cell = none) :
    (s.place slot cell).WellKinded := by
  cases s with
  | numbers f slots =>
    cases cell with
    | none => trivial
    | some v =>
      obtain ⟨p, -, hplace⟩ := exists_place_numbers h
      rw [hplace]
      trivial
  | objects kind cells =>
    refine ⟨hs.1, ?_⟩
    intro k v hv
    have := (get?_place hs h k).symm.trans hv
    rw [gap_objects hs] at this
    split at this
    · exact kind_of_refusal? (this ▸ h)
    · split at this
      · cases this
      · exact hs.2 k v this

/-- What is not refused is written. -/
theorem isWritten_place (hs : s.WellKinded) (hslot : slot ≤ s.size)
    (h : s.refusal? slot cell = none) : s.IsWritten slot cell (s.place slot cell) where
  kind := kind_place h
  size := size_place h
  get? k := by
    have hgap : ¬(s.size ≤ k ∧ k < slot) := by omega
    rw [get?_place hs h, if_neg hgap]
  wellKinded := wellKinded_place hs h

/-- A value of the kind is written to any slot up to the one right past the end. -/
theorem exists_write (hs : s.WellKinded) (hslot : slot ≤ s.size) (hcap : slot < capacity)
    (hcell : ∀ v, cell = some v → v.kind = s.kind) :
    ∃ t, s.write slot cell = (.ok (), t) ∧ s.IsWritten slot cell t := by
  obtain ⟨wider?, hwiden, hw, hrefusal⟩ := exists_widenFor hs hcell
  have hp := isWritten_place hw.wellKinded (hw.size ▸ hslot) (hrefusal slot hcap)
  refine ⟨(wider?.getD s).place slot cell, ?_, ?_⟩
  · simp only [write, hwiden, hrefusal slot hcap]
  · exact ⟨hp.kind.trans hw.kind, by rw [hp.size, hw.size],
      fun k => by rw [hp.get?, hw.get?], hp.wellKinded⟩

/-- A value of another kind is refused. -/
theorem write_of_kind_ne (h : v.kind ≠ s.kind) :
    s.write slot (some v) = (.error (.wrongKind v s.encoding.name), s) := by
  have haccepts : s.kind.accepts v = false := decide_eq_false h
  simp only [write, widenFor, haccepts, Bool.false_eq_true, if_false]

end ColumnStore.Segment

import ColumnStore.Proofs.Segment.Widening

/-!
# As narrow as what was written allows

The encodings of a kind form a ladder (`Encoding.ladder`), on which exactly one is the narrowest to
represent some values (`Encoding.IsNarrowest`). A segment is *fitted* to all that was ever written
to it (`Segment.IsFitted`): its encoding is the narrowest one, and it has a mask if some of what was
written was no value.

A new segment is fitted to nothing (`isFitted_narrow`), and a write keeps a segment fitted, in
whatever order the values come (`IsFitted.write`). Values that were overwritten count, too, as no
segment is ever narrowed.
-/

namespace ColumnStore

namespace Encoding

/-- The encodings of a kind, from the narrowest on. -/
def ladder : Kind → List Encoding
  | .long => [.numbers .long16, .numbers .long32, .numbers .long64]
  | .int => [.numbers .int16, .numbers .int32]
  | .double => [.numbers .half, .numbers .double]
  | .bool | .text => [.objects]

/-- The encoding is the narrowest one of the kind that represents all values among the cells. -/
structure IsNarrowest (kind : Kind) (cells : List (Option Value)) (e : Encoding) : Prop where
  mem_ladder : e ∈ ladder kind
  represents : ∀ v, some v ∈ cells → e.Represents v
  least : ∀ e' ∈ ladder kind, (∀ v, some v ∈ cells → e'.Represents v) → e = e' ∨ e.Narrower e'

variable {kind : Kind} {cells cells' : List (Option Value)} {e e' : Encoding} {v : Value}

theorem Narrower.asymm (h : e.Narrower e') : ¬e'.Narrower e := by
  revert h
  rcases e with f | _ <;> rcases e' with g | _
  · cases f <;> cases g <;> decide
  · cases f <;> decide
  · cases g <;> decide
  · decide

/-- Of two encodings of a kind that are not the same, one is narrower. -/
theorem eq_or_narrower (he : e ∈ ladder kind) (he' : e' ∈ ladder kind) (h : ¬e'.Narrower e) :
    e = e' ∨ e.Narrower e' := by
  have hall : ∀ e ∈ ladder kind, ∀ e' ∈ ladder kind, ¬e'.Narrower e → e = e' ∨ e.Narrower e' := by
    cases kind <;> decide
  exact hall e he e' he' h

namespace IsNarrowest

/-- More values never make for a narrower encoding. -/
theorem not_narrower (h : IsNarrowest kind cells e) (h' : IsNarrowest kind cells' e')
    (hsub : ∀ v, some v ∈ cells → some v ∈ cells') : ¬e'.Narrower e := by
  rcases h.least e' h'.mem_ladder fun v hv => h'.represents v (hsub v hv) with rfl | hlt
  · exact not_narrower_self e
  · exact hlt.asymm

/-- The same values make for the same encoding. -/
theorem unique (h : IsNarrowest kind cells e) (h' : IsNarrowest kind cells' e')
    (hsame : ∀ v, some v ∈ cells ↔ some v ∈ cells') : e = e' := by
  rcases h.least e' h'.mem_ladder fun v hv => h'.represents v ((hsame v).1 hv) with heq | hlt
  · exact heq
  · exact absurd hlt (h'.not_narrower h fun v => (hsame v).2)

/-- One more cell changes nothing if the encoding represents what is in it. -/
theorem concat {cell : Option Value} (h : IsNarrowest kind cells e)
    (hcell : ∀ v, cell = some v → e.Represents v) : IsNarrowest kind (cells ++ [cell]) e where
  mem_ladder := h.mem_ladder
  represents v hv := by
    rcases List.mem_append.1 hv with hv | hv
    · exact h.represents v hv
    · exact hcell v (List.mem_singleton.1 hv).symm
  least e' he' hrep := h.least e' he' fun v hv => hrep v (List.mem_append_left _ hv)

end IsNarrowest

end Encoding

namespace Segment

open Encoding

variable {s : Segment} {kind : Kind} {written : List (Option Value)} {slot : Nat}
  {cell : Option Value} {v : Value}

/-- The segment suits all cells that were ever written to it: it is in the narrowest encoding that
    represents their values, and has a mask if one of them has no value. -/
structure IsFitted (s : Segment) (kind : Kind) (written : List (Option Value)) : Prop where
  kind_eq : s.kind = kind
  kind_of_mem : ∀ v, some v ∈ written → v.kind = kind
  narrowest : IsNarrowest kind written s.encoding
  hasMask_iff : s.hasMask ↔ kind.isNumeric ∧ none ∈ written

theorem isFitted_narrow (kind : Kind) : (narrow kind).IsFitted kind [] where
  kind_eq := kind_narrow kind
  kind_of_mem _ := nofun
  narrowest := by
    refine ⟨?_, fun _ => nofun, fun e' he' _ => ?_⟩
    · cases kind <;> decide
    · have hall : ∀ e' ∈ ladder kind, (narrow kind).encoding = e' ∨
          (narrow kind).encoding.Narrower e' := by cases kind <;> decide
      exact hall e' he'
  hasMask_iff := by cases kind <;> decide

theorem encoding_mem_ladder (hs : s.WellKinded) : s.encoding ∈ ladder s.kind := by
  cases s with
  | numbers f slots =>
    have hall (f : Format) : .numbers f ∈ ladder f.kind := by cases f <;> decide
    exact hall f
  | objects kind cells =>
    have hnumeric : kind.isNumeric = false := hs.1
    cases kind <;> first | exact List.mem_singleton.2 rfl | cases hnumeric

theorem encoding_place (s : Segment) (slot : Nat) (cell : Option Value) :
    (s.place slot cell).encoding = s.encoding := by
  cases s with
  | objects kind cells => rfl
  | numbers f slots =>
    cases cell with
    | none => rfl
    | some v =>
      rw [place]
      split <;> rfl

namespace IsFitted

variable (h : s.IsFitted kind written)
include h

/-- Widening for a cell goes to the narrowest encoding for all that was written and the cell. -/
theorem narrowest_widened {wider? : Option Segment} (hs : s.WellKinded)
    (hwiden : s.widenFor cell = .ok wider?) (hw : s.IsWidened (wider?.getD s)) :
    IsNarrowest kind (written ++ [cell]) (wider?.getD s).encoding ∧
      (wider?.getD s).hasMask = s.hasMask := by
  cases cell with
  | none =>
    cases hwiden
    exact ⟨h.narrowest.concat fun _ => nofun, rfl⟩
  | some v =>
    cases wider? with
    | none =>
      obtain ⟨-, hv⟩ := (accepts_iff hs).1 ((widensFor hs v).none_iff.1 hwiden)
      refine ⟨h.narrowest.concat fun u hu => ?_, rfl⟩
      exact Option.some_inj.1 hu ▸ hv
    | some w =>
      rw [Option.getD_some] at hw ⊢
      have hleast := (widensFor hs v).least w hwiden
      have hkind : w.kind = kind := hw.kind.trans h.kind_eq
      have haccepts {u : Value} (hu : w.Accepts u) : w.encoding.Represents u :=
        ((accepts_iff hw.wellKinded).1 hu).2
      have hmem : w.encoding ∈ ladder kind := hkind ▸ encoding_mem_ladder hw.wellKinded
      refine ⟨⟨hmem, fun u hu => ?_, fun e he hrep => ?_⟩, hleast.hasMask_eq⟩
      · rcases List.mem_append.1 hu with hu | hu
        · refine haccepts (hleast.accepts u ((accepts_iff hs).2 ⟨?_, h.narrowest.represents u hu⟩))
          rw [h.kind_of_mem u hu, h.kind_eq]
        · obtain rfl := Option.some_inj.1 (List.mem_singleton.1 hu)
          exact haccepts ((widensFor hw.wellKinded u).none_iff.1 hleast.fits)
      · -- No encoding that is narrower than the old one represents what was written before.
        have hwide : ¬e.Narrower s.encoding := by
          have hold (u : Value) (hu : some u ∈ written) : e.Represents u :=
            hrep u (List.mem_append_left _ hu)
          rcases h.narrowest.least e he hold with rfl | hlt
          · exact not_narrower_self _
          · exact hlt.asymm
        refine eq_or_narrower hmem he (hleast.least e (hrep v ?_) hwide)
        exact List.mem_append_right _ (List.mem_singleton.2 rfl)

/-- A write that leaves no gap keeps a segment fitted. -/
theorem write (hs : s.WellKinded) (hslot : slot ≤ s.size) (hcap : slot < capacity)
    (hcell : ∀ v, cell = some v → v.kind = kind) :
    (s.write slot cell).2.IsFitted kind (written ++ [cell]) := by
  obtain ⟨wider?, hwiden, hw, hrefusal⟩ := exists_widenFor hs (h.kind_eq ▸ hcell)
  obtain ⟨hnarrowest, hmask⟩ := h.narrowest_widened hs hwiden hw
  have hwrite : s.write slot cell = (.ok (), (wider?.getD s).place slot cell) := by
    simp only [Segment.write, hwiden, hrefusal slot hcap]
  have hkind : (wider?.getD s).kind = kind := hw.kind.trans h.kind_eq
  rw [hwrite]
  refine ⟨(kind_place (hrefusal slot hcap)).trans hkind, ?_, ?_, ?_⟩
  · intro v hv
    rcases List.mem_append.1 hv with hv | hv
    · exact h.kind_of_mem v hv
    · exact hcell v (List.mem_singleton.1 hv).symm
  · rwa [encoding_place]
  · have hgap : ¬s.size < slot := Nat.not_lt.2 hslot
    have hold := h.hasMask_iff
    rw [hasMask_place hw.wellKinded (hrefusal slot hcap), hmask, hkind, hw.size,
      decide_eq_false hgap, Bool.or_false]
    cases cell <;> cases hnumeric : kind.isNumeric <;>
      simp [hnumeric, hold]

end IsFitted

end Segment

end ColumnStore

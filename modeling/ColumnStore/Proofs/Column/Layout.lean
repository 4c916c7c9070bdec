import ColumnStore.Proofs.Column.Run
import ColumnStore.Proofs.Segment.Run
import Mathlib.Algebra.Ring.Nat

/-!
# Which segments make a column

Segments come from drafts or are put together by hand, so they may be of any kind, in any encoding
and with any gaps; all that is known of one is that some steps lead to it from a new one
(`Segment.Reachable`, `Draft.run_reachable`). Of these a column is made exactly if its rows can be
found by their numbers (`IsLayout`): all segments but the last are full, all are of its kind, and
together they have its size. A segment without slots at the end does no harm.

A column that is made reads as its segments one after the other, in whatever way it is read, and no
reader leaves the segments (`ofSegments_accepts`).
-/

namespace ColumnStore

namespace Segment

variable {s : Segment} {slot : Nat} {cell : Option Value}

/-! ## Segments that come up -/

/-- Some steps lead to the segment from a new one. -/
def Reachable (s : Segment) : Prop :=
  ∃ kind full steps, (run Step.apply steps (fresh kind full)).2 = s

theorem reachable_narrow (kind : Kind) : (narrow kind).Reachable := ⟨kind, false, [], rfl⟩

theorem Reachable.apply (h : s.Reachable) (step : Step) : (step.apply s).2.Reachable := by
  obtain ⟨kind, full, steps, rfl⟩ := h
  exact ⟨kind, full, steps ++ [step], by rw [run_concat]⟩

/-- A write widens the segment and then puts the cell, each of which may be refused. -/
theorem Reachable.write (h : s.Reachable) (slot : Nat) (cell : Option Value) :
    (s.write slot cell).2.Reachable := by
  have hwiden := h.apply (.widen cell)
  rw [Step.apply] at hwiden
  rw [Segment.write]
  cases hwider : s.widenFor cell with
  | error e => exact h
  | ok wider? =>
    rw [hwider] at hwiden
    have hput := hwiden.apply (.put slot cell)
    rw [Step.apply, Segment.put] at hput
    dsimp only at hput ⊢
    cases hrefusal : (wider?.getD s).refusal? slot cell with
    | some e => exact hwiden
    | none => rwa [hrefusal] at hput

theorem wellKinded_of_reachable (h : s.Reachable) : s.WellKinded := by
  obtain ⟨kind, full, steps, rfl⟩ := h
  exact (run_apply steps (wellKinded_fresh kind full)).2.1

/-- Only slots below the capacity are written to. -/
theorem slot_lt_of_refusal? (h : s.refusal? slot cell = none) : slot < capacity := by
  have hrange : outOfRange? slot = none := by
    cases cell with
    | none => exact h
    | some v =>
      have hkind := kind_of_refusal? h
      cases s with
      | numbers f slots =>
        rwa [refusal?_of_represents hkind (Format.represents_iff.2 (holds_of_refusal? h))] at h
      | objects kind cells =>
        have haccepts : (objects kind cells).kind.accepts v = true := decide_eq_true hkind
        rwa [refusal?, if_pos haccepts] at h
  by_contra hslot
  rw [outOfRange?, if_neg hslot] at hrange
  cases hrange

/-- No step makes a segment larger than it may be. -/
theorem size_apply_le (hs : s.WellKinded) (hle : s.size ≤ capacity) (step : Step) :
    (step.apply s).2.size ≤ capacity := by
  cases step with
  | put slot cell =>
    rw [Step.apply, put]
    cases hrefusal : s.refusal? slot cell with
    | some e => exact hle
    | none =>
      dsimp only
      rw [size_place hrefusal]
      exact Nat.max_le.2 ⟨hle, slot_lt_of_refusal? hrefusal⟩
  | widen candidate =>
    by_cases hfits : (Step.widen candidate).Fits s
    · obtain ⟨wider?, hwiden, hw, -⟩ := exists_widenFor hs hfits
      rw [Step.apply, hwiden]
      exact hw.size ▸ hle
    · obtain ⟨e, he⟩ := Step.apply_of_not_fits hs hfits
      rwa [he]
  | compact =>
    rw [Step.apply, compact_eq]
    exact hle

theorem size_le_of_reachable (h : s.Reachable) : s.size ≤ capacity := by
  obtain ⟨kind, full, steps, rfl⟩ := h
  have hfresh : (fresh kind full).size ≤ capacity := by
    cases kind <;> cases full <;> exact Nat.zero_le _
  exact (run_keeps (f := Step.apply) (P := fun s => s.WellKinded ∧ s.size ≤ capacity)
    (fun step s h => ⟨(run_apply [step] h.1).2.1, size_apply_le h.1 h.2 step⟩) steps
    ⟨wellKinded_fresh kind full, hfresh⟩).2

end Segment

namespace Column

open Segment

variable {kind : Kind} {segments : Array Segment} {size : Nat}

/-! ## Segments of drafts -/

namespace Draft

variable {d : Draft}

/-- The segments of the draft come up. -/
def OfReachable (d : Draft) : Prop := ∀ s ∈ d.segments, s.Reachable

theorem OfReachable.openSegment (h : d.OfReachable) : d.openSegment.OfReachable := by
  rw [Draft.openSegment]
  split
  · intro s hs
    rcases Array.mem_push.1 hs with hs | rfl
    · exact h s hs
    · exact reachable_narrow d.kind
  · exact h

theorem OfReachable.write (h : d.OfReachable) (row : Nat) (cell : Option Value) :
    (d.write row cell).2.OfReachable := by
  by_cases hi : indexOf row < d.segments.size
  · have hnew := (h _ (Array.getElem_mem hi)).write (slotOf row) cell
    rcases hwrite : d.segments[indexOf row].write (slotOf row) cell with ⟨result, t⟩
    rw [hwrite] at hnew
    rw [write_eq hi hwrite]
    intro s hs
    rcases Array.mem_or_eq_of_mem_set (w := hi) hs with hs | rfl
    · exact h s hs
    · exact hnew
  · rw [Draft.write, dif_neg hi]
    exact h

theorem OfReachable.apply (h : d.OfReachable) (edit : Edit) : (edit.apply d).2.OfReachable := by
  cases edit with
  | append cell =>
    have hwrite := h.openSegment.write d.size cell
    rw [Edit.apply, Draft.append]
    split
    · rename_i heq
      rwa [heq] at hwrite
    · rename_i heq
      rwa [heq] at hwrite
  | set row cell =>
    rw [Edit.apply, Draft.set]
    split
    · exact h
    · exact h.write row cell
  | swap i j =>
    rw [Edit.apply, Draft.swap]
    split
    · exact h
    · split
      · exact h
      · have hfirst := h.write i (d.get? j)
        dsimp only
        split
        · rename_i heq
          rwa [heq] at hfirst
        · rename_i heq
          rw [heq] at hfirst
          exact hfirst.write j (d.get? i)

/-- After any edits of a new draft its segments are among those that come up. -/
theorem run_reachable (kind : Kind) (edits : List Edit) :
    ∀ s ∈ (run Edit.apply edits { kind : Draft }).2.segments, s.Reachable :=
  run_keeps (P := OfReachable) (fun edit _ h => h.apply edit) edits
    fun _ hs => absurd hs (Array.not_mem_empty _)

end Draft

/-! ## Layouts -/

/-- The segments are of the kind, all but the last are full, and together they have the size. -/
structure IsLayout (kind : Kind) (segments : Array Segment) (size : Nat) : Prop where
  full : ∀ i (h : i + 1 < segments.size), segments[i].size = capacity
  kind_eq : ∀ s ∈ segments, s.kind = kind
  sum_eq : (segments.toList.map Segment.size).sum = size

/-- No segment is out of place if each is of the kind, and full but for the last one of all. -/
theorem misplacedSegment?_eq_none_iff {count i : Nat} {segments : List Segment} :
    misplacedSegment? kind count i segments = none ↔
      ∀ j (hj : j < segments.length),
        (i + j + 1 = count ∨ segments[j].size = capacity) ∧ segments[j].kind = kind := by
  refine ⟨fun h => ?_, misplacedSegment?_eq_none⟩
  induction segments generalizing i with
  | nil => exact fun j hj => absurd hj (Nat.not_lt_zero j)
  | cons s rest ih =>
    rw [misplacedSegment?] at h
    split at h
    · cases h
    · rename_i hfull
      split at h
      · cases h
      · rename_i hkind
        intro j hj
        cases j with
        | zero => exact ⟨by rw [List.getElem_cons_zero]; tauto, not_ne_iff.1 hkind⟩
        | succ j =>
          rw [List.getElem_cons_succ, show i + (j + 1) = i + 1 + j by omega]
          exact ih h j (Nat.lt_of_succ_lt_succ hj)

/-- Exactly the segments of a layout make a column, and it has just these. -/
theorem ofSegments_eq_ok_iff {c : Column} :
    ofSegments kind segments size = .ok c ↔
      IsLayout kind segments size ∧ c = ⟨kind, segments, size⟩ := by
  have hplaced : misplacedSegment? kind segments.size 0 segments.toList = none ↔
      (∀ i (h : i + 1 < segments.size), segments[i].size = capacity) ∧
        ∀ s ∈ segments, s.kind = kind := by
    rw [misplacedSegment?_eq_none_iff, Array.forall_mem_iff_forall_getElem]
    constructor
    · intro h
      refine ⟨fun i hi => ?_, fun i hi => (h i hi).2⟩
      exact ((h i (Nat.lt_of_succ_lt hi)).1).resolve_left (by omega)
    · rintro ⟨hfull, hkind⟩ i hi
      refine ⟨?_, hkind i hi⟩
      rw [Array.length_toList] at hi
      by_cases hlast : i + 1 = segments.size
      · exact .inl (by omega)
      · exact .inr (hfull i (by omega))
  have hsum : segments.toList.foldl (fun n s => n + s.size) 0
      = (segments.toList.map Segment.size).sum := by
    rw [List.sum_eq_foldl_nat, List.foldl_map]
  rw [ofSegments, hsum]
  constructor
  · intro h
    split at h
    · cases h
    · rename_i hnone
      dsimp only at h
      split at h
      · rename_i htotal
        obtain ⟨hfull, hkind⟩ := hplaced.1 hnone
        exact ⟨⟨hfull, hkind, htotal⟩, (Except.ok.inj h).symm⟩
      · cases h
  · rintro ⟨⟨hfull, hkind, htotal⟩, rfl⟩
    rw [hplaced.2 ⟨hfull, hkind⟩]
    exact if_pos htotal

/-- If all segments before one are full, they have as many slots as their number tells. -/
theorem sum_size_of_last {segments : List Segment} {i : Nat}
    (hi : i < segments.length) (hlast : i + 1 = segments.length)
    (hfull : ∀ j (h : j + 1 < segments.length), segments[j].size = capacity) :
    (segments.map Segment.size).sum = i * capacity + segments[i].size := by
  induction segments generalizing i with
  | nil => cases hlast
  | cons s rest ih =>
    rw [List.map_cons, List.sum_cons]
    cases i with
    | zero =>
      obtain rfl : rest = [] := List.length_eq_zero_iff.1 (Nat.succ.inj hlast).symm
      rw [Nat.zero_mul, List.getElem_cons_zero, List.map_nil, List.sum_nil]
      omega
    | succ i =>
      have hs : s.size = capacity := hfull 0 (by rw [← hlast]; omega)
      rw [hs, ih (Nat.lt_of_succ_lt_succ hi) (Nat.succ.inj hlast)
        fun j h => hfull (j + 1) (Nat.succ_lt_succ h), List.getElem_cons_succ, Nat.succ_mul]
      omega

namespace IsLayout

variable (h : IsLayout kind segments size)
include h

/-- In a layout each segment has the rows from a multiple of the capacity on. -/
theorem wellFormed (hreachable : ∀ s ∈ segments, s.Reachable) :
    WellFormed ⟨kind, segments, size⟩ := by
  have hle (i : Nat) (hi : i < segments.size) : segments[i].size ≤ capacity :=
    size_le_of_reachable (hreachable _ (Array.getElem_mem hi))
  have hlast (i : Nat) (hi : i + 1 = segments.size) : size = i * capacity + segments[i].size := by
    have hlt : i < segments.toList.length := by
      rw [Array.length_toList]
      omega
    rw [← h.sum_eq, sum_size_of_last hlt hi, Array.getElem_toList]
    intro j hj
    rw [Array.getElem_toList]
    exact h.full j hj
  have hnil (hsize : segments.size = 0) : size = 0 := by
    rw [← h.sum_eq, Array.eq_empty_of_size_eq_zero hsize]
    rfl
  refine ⟨?_, ?_, ?_, ?_, ?_⟩
  · exact fun i hi => h.kind_eq _ (Array.getElem_mem hi)
  · exact fun i hi => wellKinded_of_reachable (hreachable _ (Array.getElem_mem hi))
  · intro i hi
    dsimp only at hi ⊢
    by_cases hrest : i + 1 < segments.size
    · have := hlast (segments.size - 1) (by omega)
      rw [h.full i hrest]
      rw [capacity_eq] at *
      omega
    · have := hlast i (by omega)
      have := hle i hi
      omega
  · dsimp only
    rcases Nat.eq_zero_or_pos segments.size with hsize | hpos
    · rw [hnil hsize]
      exact Nat.zero_le _
    · have := hlast (segments.size - 1) (by omega)
      have := hle (segments.size - 1) (by omega)
      rw [capacity_eq] at *
      omega
  · dsimp only
    rcases Nat.eq_zero_or_pos segments.size with hsize | hpos
    · rw [hsize]
      exact Nat.zero_le _
    · have := hlast (segments.size - 1) (by omega)
      omega

/-- A column of a layout holds what its segments list. -/
theorem holds (hreachable : ∀ s ∈ segments, s.Reachable) :
    Holds ⟨kind, segments, size⟩ kind (segments.toList.flatMap Segment.toList) where
  toWellFormed := h.wellFormed hreachable
  kind' := rfl
  size' := by
    rw [List.length_flatMap, ← h.sum_eq]
    exact congrArg List.sum (List.map_congr_left fun s _ => s.length_toList.symm)
  cellAt_eq row := by
    have hwell := h.wellFormed hreachable
    have hlist := hwell.getElem?_toList row
    rw [toList] at hlist
    rw [hlist, hwell.get?_eq_cellAt]
    split
    · rw [Option.join_some]
    · rename_i hrow
      exact hwell.cellAt_of_size_le (Nat.le_of_not_lt hrow)

end IsLayout

/-- No reader of a column leaves its segments: a row has a segment, and a slot that is there. -/
theorem WellFormed.exists_segment {c : Column} (hc : c.WellFormed) {row : Nat}
    (hrow : row < c.size) : ∃ s, c.segments[indexOf row]? = some s ∧ slotOf row < s.size := by
  have hi := hc.indexOf_lt hrow
  refine ⟨c.segments[indexOf row], Array.getElem?_eq_getElem hi, ?_⟩
  rw [hc.size_eq _ hi]
  simp only [indexOf, slotOf, capacity_eq]
  omega

/-- Segments that come up make a column of a kind and a size exactly if they are a layout of it. The
    column then reads as what the segments list, one after the other, and each of its rows is a slot
    of a segment. -/
theorem ofSegments_accepts (kind : Kind) (segments : Array Segment) (size : Nat)
    (hreachable : ∀ s ∈ segments, s.Reachable) :
    ((∃ c, ofSegments kind segments size = .ok c) ↔ IsLayout kind segments size) ∧
      ∀ c, ofSegments kind segments size = .ok c →
        c = ⟨kind, segments, size⟩ ∧
          c.Presents kind (segments.toList.flatMap Segment.toList) ∧
          ∀ row < c.size, ∃ s, c.segments[indexOf row]? = some s ∧ slotOf row < s.size := by
  constructor
  · constructor
    · rintro ⟨c, hc⟩
      exact (ofSegments_eq_ok_iff.1 hc).1
    · exact fun h => ⟨_, ofSegments_eq_ok_iff.2 ⟨h, rfl⟩⟩
  · intro c hc
    obtain ⟨h, rfl⟩ := ofSegments_eq_ok_iff.1 hc
    exact ⟨rfl, (h.holds hreachable).presents,
      fun row hrow => (h.wellFormed hreachable).exists_segment hrow⟩

/-- A segment that is full for one long in its last slot, and the segment of a draft that was
    widened and has a row without a value, make a column in this order and in no other. -/
theorem ofSegments_accepts_longs :
    let gapped := (run Step.apply [.put 4095 (some (.long 7))] (fresh .long false)).2
    let drafted := (run Edit.apply [.append (some (.long 70000)), .append none]
      ({ kind := .long } : Draft)).2.segments
    (∀ s ∈ #[gapped] ++ drafted, s.Reachable) ∧ (∀ s ∈ drafted ++ #[gapped], s.Reachable) ∧
      (∃ c, ofSegments .long (#[gapped] ++ drafted) 4098 = .ok c ∧
        c.Presents .long (gapped.toList ++ drafted.toList.flatMap Segment.toList)) ∧
      ¬∃ c, ofSegments .long (drafted ++ #[gapped]) 4098 = .ok c := by
  intro gapped drafted
  have hshape : drafted.toList.map (fun s => (s.size, s.kind)) = [(2, .long)] := by
    decide +kernel
  obtain ⟨s, hs, hshape⟩ := List.map_eq_singleton_iff.1 hshape
  obtain ⟨hsize, hkind⟩ := Prod.mk.inj hshape
  replace hs : drafted = #[s] := Array.toList_inj.1 hs
  have hgapped : gapped.size = 4096 ∧ gapped.kind = .long := by
    have hrefusal : (fresh .long false).refusal? 4095 (some (.long 7)) = none := by decide
    have hplace : gapped = (fresh .long false).place 4095 (some (.long 7)) := by
      simp only [gapped, run_cons, run_nil, Step.apply, Segment.put, hrefusal]
    rw [hplace, size_place hrefusal, kind_place hrefusal]
    exact ⟨rfl, rfl⟩
  have hsegments : ∀ s ∈ [gapped] ++ drafted.toList, s.Reachable := by
    have hdrafted : ∀ s ∈ drafted, s.Reachable := Draft.run_reachable _ _
    simpa [hs, show gapped.Reachable from ⟨_, _, _, rfl⟩] using hdrafted
  have hreachable : ∀ s ∈ #[gapped] ++ drafted, s.Reachable := by simpa using hsegments
  have hreachable' : ∀ s ∈ drafted ++ #[gapped], s.Reachable := by
    simpa [or_comm] using hsegments
  refine ⟨hreachable, hreachable', ?_, ?_⟩
  · obtain ⟨haccepts, hreads⟩ := ofSegments_accepts .long _ 4098 hreachable
    have hlayout : IsLayout .long (#[gapped] ++ drafted) 4098 := by
      rw [hs]
      refine ⟨?_, ?_, ?_⟩
      · intro i hi
        have hlt : i + 1 < 2 := hi
        obtain rfl : i = 0 := by omega
        exact hgapped.1
      · simp [hgapped.2, hkind]
      · simp [hgapped.1, hsize]
    obtain ⟨c, hc⟩ := haccepts.2 hlayout
    refine ⟨c, hc, ?_⟩
    simpa using (hreads c hc).2.1
  · rw [(ofSegments_accepts .long _ 4098 hreachable').1, hs]
    intro hlayout
    have := hlayout.full 0 (by simp)
    rw [show (#[s] ++ #[gapped])[0] = s from rfl, hsize] at this
    cases this

end Column

end ColumnStore

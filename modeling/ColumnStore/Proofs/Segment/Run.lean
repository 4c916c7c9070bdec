import ColumnStore.Proofs.Run
import ColumnStore.Proofs.Segment.Sheet

/-!
# Segments over whole runs

Writes as they are, widenings for values to come and compacting are the steps that are taken on
a segment (`Step`). What a segment takes is told by its kind, its encoding and the capacity
(`Step.Fits`); a step that it does not take changes nothing (`Step.apply_of_not_fits`).

After any steps on a new segment, those refused among them,

* widening goes by what the segment would do to write a value, and loses nothing
  (`run_widensFor`);
* the segment reads as the sheet on which the steps that were taken were done (`run_shows`).
-/

namespace ColumnStore.Segment

/-- A new segment for a kind, as wide or as narrow as there is one. -/
def fresh (kind : Kind) (full : Bool) : Segment := if full then wide kind else narrow kind

/-- What is done to a segment. A put without a value clears the slot. -/
inductive Step where
  | put (slot : Nat) (cell : Option Value)
  /-- The segment gives way to a wider one where the candidate takes one. -/
  | widen (candidate : Option Value)
  | compact

namespace Step

/-- The segment after the step, and whether the step was refused. -/
def apply : Step → Segment → Except WriteError Unit × Segment
  | put slot cell, s =>
    match s.put slot cell with
    | .ok t => (.ok (), t)
    | .error e => (.error e, s)
  | widen candidate, s =>
    match s.widenFor candidate with
    | .ok wider? => (.ok (), wider?.getD s)
    | .error e => (.error e, s)
  | compact, s => (.ok (), s.compact)

/-- The segment takes the step. -/
def Fits (s : Segment) : Step → Prop
  | put slot none => slot < capacity
  | put slot (some v) => slot < capacity ∧ v.kind = s.kind ∧ s.encoding.Represents v
  | widen candidate => ∀ v ∈ candidate, v.kind = s.kind
  | compact => True

/-- The step on a sheet of cells of a kind. Only writes are to be seen. -/
def onSheet (kind : Kind) : Step → Sheet → Sheet
  | put slot (some v), sheet => sheet.put kind slot v
  | put slot none, sheet => sheet.clear kind slot
  | widen _, sheet | compact, sheet => sheet

end Step

/-- The steps that were not refused. -/
def taken (steps : List Step) (results : List (Except WriteError Unit)) : List Step :=
  (select (fun _ result => result.isOk) steps results).map Prod.fst

/-- The sheet on which steps are done one after the other. -/
def Sheet.after (kind : Kind) (steps : List Step) (sheet : Sheet) : Sheet :=
  steps.foldl (fun sheet step => step.onSheet kind sheet) sheet

variable {s t : Segment} {slot : Nat} {cell : Option Value} {v : Value}

/-! ## Single steps -/

/-- The segment `t` is what a step makes of `s`. -/
structure Follows (step : Step) (s t : Segment) : Prop where
  kind_eq : t.kind = s.kind
  wellKinded : t.WellKinded
  sheet_eq : t.sheet = step.onSheet s.kind s.sheet

theorem follows_place (hs : s.WellKinded) (h : s.refusal? slot cell = none) :
    Follows (.put slot cell) s (s.place slot cell) where
  kind_eq := kind_place h
  wellKinded := wellKinded_place hs h
  sheet_eq := by
    cases cell with
    | none => exact sheet_place_none hs h
    | some v => exact sheet_place_some hs h

theorem follows_widened {candidate : Option Value} {wider? : Option Segment} (hs : s.WellKinded)
    (hwiden : s.widenFor candidate = .ok wider?) (hw : s.IsWidened (wider?.getD s)) :
    Follows (.widen candidate) s (wider?.getD s) where
  kind_eq := hw.kind
  wellKinded := hw.wellKinded
  sheet_eq := by
    cases wider? with
    | none => rfl
    | some w =>
      cases candidate with
      | none => cases hwiden
      | some v => exact ((widensFor hs v).least w hwiden).sheet_eq

/-- A step that the segment takes is done to its sheet. -/
theorem Step.apply_of_fits (hs : s.WellKinded) {step : Step} (h : step.Fits s) :
    ∃ t, step.apply s = (.ok (), t) ∧ Follows step s t := by
  cases step with
  | put slot cell =>
    have hrefusal : s.refusal? slot cell = none := by
      cases cell with
      | none => exact if_pos h
      | some v => exact (refusal?_of_represents h.2.1 h.2.2).trans (if_pos h.1)
    refine ⟨s.place slot cell, ?_, follows_place hs hrefusal⟩
    rw [apply, Segment.put, hrefusal]
  | widen candidate =>
    obtain ⟨wider?, hwiden, hw, -⟩ := exists_widenFor hs h
    refine ⟨wider?.getD s, ?_, follows_widened hs hwiden hw⟩
    rw [apply, hwiden]
  | compact =>
    refine ⟨s, ?_, rfl, hs, rfl⟩
    rw [apply, compact_eq]

/-- A step that the segment does not take leaves it as it is. -/
theorem Step.apply_of_not_fits (hs : s.WellKinded) {step : Step} (h : ¬step.Fits s) :
    ∃ e, step.apply s = (.error e, s) := by
  cases step with
  | put slot cell =>
    obtain ⟨e, he⟩ : ∃ e, s.put slot cell = .error e := by
      cases cell with
      | none =>
        refine ⟨.outOfRange slot capacity, ?_⟩
        have hrefusal : s.refusal? slot none = some (.outOfRange slot capacity) := if_neg h
        rw [Segment.put, hrefusal]
      | some v =>
        by_cases hkind : v.kind = s.kind
        · by_cases hv : s.encoding.Represents v
          · have hslot : ¬slot < capacity := fun hslot => h ⟨hslot, hkind, hv⟩
            exact ⟨_, (put_of_represents hkind hv).trans (if_neg hslot)⟩
          · exact ⟨_, put_of_not_represents hs hkind hv⟩
        · exact ⟨_, put_of_kind_ne hkind⟩
    exact ⟨e, by rw [apply, he]⟩
  | widen candidate =>
    obtain ⟨v, rfl, hv⟩ : ∃ v, candidate = some v ∧ v.kind ≠ s.kind := by simpa [Fits] using h
    exact ⟨_, by rw [apply, widenFor_of_kind_ne hv]⟩
  | compact => exact absurd trivial h

theorem Step.isOk_apply_iff (hs : s.WellKinded) (step : Step) :
    (step.apply s).1.isOk ↔ step.Fits s := by
  by_cases h : step.Fits s
  · obtain ⟨t, ht, -⟩ := apply_of_fits hs h
    rw [ht]
    exact iff_of_true rfl h
  · obtain ⟨e, he⟩ := apply_of_not_fits hs h
    rw [he]
    exact iff_of_false nofun h

/-! ## Runs -/

theorem kind_fresh (kind : Kind) (full : Bool) : (fresh kind full).kind = kind := by
  cases kind <;> cases full <;> rfl

theorem wellKinded_fresh (kind : Kind) (full : Bool) : (fresh kind full).WellKinded := by
  cases kind <;> cases full <;> first | trivial | exact ⟨rfl, nofun⟩

theorem sheet_fresh (kind : Kind) (full : Bool) : (fresh kind full).sheet = {} := by
  cases kind <;> cases full <;> rfl

theorem hasMask_of_not_isNumeric (h : s.kind.isNumeric = false) : s.hasMask = false := by
  cases s with
  | numbers f slots => exact absurd (f.isNumeric_kind.symm.trans h) (by decide)
  | objects kind cells => rfl

/-- All steps together do to the sheet what those do that are taken. -/
theorem run_apply (steps : List Step) (hs : s.WellKinded) :
    let (results, t) := run Step.apply steps s
    t.kind = s.kind ∧ t.WellKinded ∧ t.sheet = s.sheet.after s.kind (taken steps results) := by
  induction steps generalizing s with
  | nil => exact ⟨rfl, hs, rfl⟩
  | cons step rest ih =>
    rw [run_cons]
    by_cases h : step.Fits s
    · obtain ⟨t, ht, hfollows⟩ := Step.apply_of_fits hs h
      rw [ht]
      obtain ⟨hkind, hwell, hsheet⟩ := ih hfollows.wellKinded
      refine ⟨hkind.trans hfollows.kind_eq, hwell, ?_⟩
      rw [hsheet, hfollows.sheet_eq, hfollows.kind_eq]
      rfl
    · obtain ⟨e, he⟩ := Step.apply_of_not_fits hs h
      rw [he]
      exact ih hs

/-- After any steps on a new segment, there is nothing to widen for no value. For a value of the kind
    the segment is widened if and only if no slot would take it as things are, no further than the
    value requires, and without a loss. -/
theorem run_widensFor (kind : Kind) (full : Bool) (steps : List Step) :
    let s := (run Step.apply steps (fresh kind full)).2
    s.kind = kind ∧ s.widenFor none = .ok none ∧ ∀ v, s.WidensFor v := by
  obtain ⟨hkind, hs, -⟩ := run_apply steps (wellKinded_fresh kind full)
  exact ⟨hkind.trans (kind_fresh kind full), rfl, widensFor hs⟩

/-- After any steps on a new segment, it reads as the sheet that the steps make which it has
    taken, and it takes the next step if that fits. Only numbers ever have a mask. -/
theorem run_shows (kind : Kind) (full : Bool) (steps : List Step) :
    let (results, s) := run Step.apply steps (fresh kind full)
    s.kind = kind ∧ s.Shows (Sheet.after kind (taken steps results) {}) ∧
      (kind.isNumeric = false → s.hasMask = false) ∧
      ∀ step : Step, (step.apply s).1.isOk ↔ step.Fits s := by
  obtain ⟨hkind, hs, hsheet⟩ := run_apply steps (wellKinded_fresh kind full)
  rw [kind_fresh] at hkind
  rw [kind_fresh, sheet_fresh] at hsheet
  refine ⟨hkind, hsheet ▸ shows_sheet _, ?_, Step.isOk_apply_iff hs⟩
  intro hnumeric
  rw [← hkind] at hnumeric
  exact hasMask_of_not_isNumeric hnumeric

/-- A gap before a put is absent, and before a clear it is filled with zeros. -/
example :
    let steps : List Step := [.put 0 (some (.long 7)), .put 2 none, .put 4 (some (.long 5))]
    (Sheet.after .long steps {}).cells
      = [some (.long 7), some (.long 0), none, none, some (.long 5)] := by decide

end ColumnStore.Segment

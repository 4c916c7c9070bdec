import ColumnStore.Proofs.Table.Indexing

/-!
# What tables are made of

If a draft is peeked at or built, the table has its settings, and each of its columns comes from one
of the draft (`Draft.Makes`); rows that are not in order make the same exchanges in all columns
before (`Draft.exists_of_sort`). So what is to be said of all columns of a table is said of those of
the draft, and no step changes its settings (`Draft.run_settings`).
-/

namespace ColumnStore

/-- If something succeeds for a list, it does for each of its members. -/
theorem forall₂_of_mapM {α β ε : Type} {f : α → Except ε β} {xs : List α} {ys : List β}
    (hmap : xs.mapM f = .ok ys) : List.Forall₂ (fun x y => f x = .ok y) xs ys := by
  induction xs generalizing ys with
  | nil =>
    cases hmap
    exact .nil
  | cons x xs ih =>
    rw [List.mapM_cons] at hmap
    cases hy : f x with
    | error e =>
      rw [hy] at hmap
      cases hmap
    | ok y =>
      cases hys : xs.mapM f with
      | error e =>
        rw [hy, hys] at hmap
        cases hmap
      | ok ys' =>
        rw [hy, hys] at hmap
        cases hmap
        exact .cons hy (ih hys)

/-- What holds of all that comes of the members of a list holds of the list of it. -/
theorem forall_mem_of_forall₂ {α β : Type} {R : α → β → Prop} {P : α → Prop} {Q : β → Prop}
    {xs : List α} {ys : List β} (hR : ∀ x y, P x → R x y → Q y) (h : ∀ x ∈ xs, P x)
    (hall : List.Forall₂ R xs ys) : ∀ y ∈ ys, Q y := by
  induction hall with
  | nil => exact fun _ => nofun
  | cons hxy _ ih =>
    obtain ⟨hx, hxs⟩ := List.forall_mem_cons.1 h
    exact List.forall_mem_cons.2 ⟨hR _ _ hx hxy, ih hxs⟩

namespace Table

theorem eq_of_ofColumns {entityType : EntityType} {schema : Schema} {ids : Column}
    {columns : Array Column} {indexes : Array (Option Index)} {sorted : Bool} {settings : Settings}
    {t : Table} (h : ofColumns entityType schema ids columns indexes sorted settings = .ok t) :
    t = { entityType, schema, ids, columns, indexes, sorted, settings } := by
  rw [ofColumns] at h
  split at h
  · cases h
  · split at h
    · cases h
    · exact (Except.ok.inj h).symm

namespace Draft

variable {d d' : Draft} {t : Table}

/-! ## Columns -/

/-- The table has the settings of the draft, and columns that are made of those of the draft. -/
structure Makes (d : Draft) (make : Column.Draft → Except LayoutError Column) (t : Table) :
    Prop where
  ids : make d.ids = .ok t.ids
  columns : d.columns.mapM make = .ok t.columns.toList
  settings_eq : t.settings = d.settings

/-- What holds of all columns of a draft holds, once they are made, of all columns of a table. -/
theorem Makes.forall_mem {make : Column.Draft → Except LayoutError Column} (h : d.Makes make t)
    {P : Column.Draft → Prop} {Q : Column → Prop} (hmake : ∀ c c', P c → make c = .ok c' → Q c')
    (hall : ∀ c ∈ d.ids :: d.columns, P c) : ∀ c ∈ t.allColumns, Q c := by
  obtain ⟨hids, hcolumns⟩ := List.forall_mem_cons.1 hall
  exact List.forall_mem_cons.2
    ⟨hmake _ _ hids h.ids, forall_mem_of_forall₂ hmake hcolumns (forall₂_of_mapM h.columns)⟩

theorem makes_of_peek (h : d.peek = .ok t) : d.Makes Column.Draft.peek t := by
  rw [peek] at h
  cases hids : d.ids.peek with
  | error e =>
    rw [hids] at h
    cases h
  | ok ids =>
    cases hcolumns : d.columns.mapM Column.Draft.peek with
    | error e =>
      rw [hids, hcolumns] at h
      cases h
    | ok columns =>
      rw [hids, hcolumns] at h
      obtain rfl := eq_of_ofColumns h
      exact ⟨hids, hcolumns, rfl⟩

/-- Rows in order are built as they are. -/
theorem makes_of_build (hsorted : d.isSorted = true) (h : d.build = .ok t) :
    d.Makes Column.Draft.build t := by
  rw [build, if_pos hsorted] at h
  cases hids : d.ids.build with
  | error e =>
    simp only [bind, Except.bind, hids] at h
    cases h
  | ok ids =>
    cases hcolumns : d.columns.mapM Column.Draft.build with
    | error e =>
      simp only [bind, Except.bind, hids, hcolumns] at h
      cases h
    | ok columns =>
      simp only [bind, Except.bind, hids, hcolumns, Except.mapError] at h
      split at h
      · cases h
      · rename_i htable
        obtain rfl := Except.ok.inj h
        obtain rfl := eq_of_ofColumns htable
        exact ⟨hids, hcolumns, rfl⟩

/-- The rows in ascending order of their ids. -/
def order (d : Draft) : Array Nat := sortingOrder ((Array.range d.size).map d.idAt)

/-- To be put in order, rows make the same exchanges in all columns. -/
theorem exists_of_sort (h : d.sort = .ok d') :
    d'.isSorted = true ∧ d'.settings = d.settings ∧
      List.Forall₂ (fun c c' : Column.Draft => c.exchange (exchanges d.order) = .ok c')
        (d.ids :: d.columns) (d'.ids :: d'.columns) := by
  rw [sort, ← order] at h
  generalize exchanges d.order = pairs at h ⊢
  cases hids : d.ids.exchange pairs with
  | error e =>
    rw [hids] at h
    cases h
  | ok ids =>
    cases hcolumns : d.columns.mapM (Column.Draft.exchange · pairs) with
    | error e =>
      rw [hids, hcolumns] at h
      cases h
    | ok columns =>
      rw [hids, hcolumns] at h
      cases h
      exact ⟨rfl, rfl, .cons hids (forall₂_of_mapM hcolumns)⟩

/-- Rows that are not in order are put in order, and then built. -/
theorem exists_of_build (hsorted : d.isSorted = false) (h : d.build = .ok t) :
    ∃ d', d.sort = .ok d' ∧ d'.Makes Column.Draft.build t := by
  cases hsort : d.sort with
  | error e =>
    simp only [build, hsorted, hsort] at h
    cases h
  | ok d' =>
    obtain ⟨hsorted', -⟩ := exists_of_sort hsort
    have heq : d.build = d'.build := by
      simp only [build, hsorted, hsort, hsorted']
      rfl
    exact ⟨d', rfl, makes_of_build hsorted' (heq ▸ h)⟩

/-! ## Settings -/

theorem settings_of_peek (h : d.peek = .ok t) : t.settings = d.settings :=
  (makes_of_peek h).settings_eq

theorem settings_of_build (h : d.build = .ok t) : t.settings = d.settings := by
  cases hsorted : d.isSorted with
  | true => exact (makes_of_build hsorted h).settings_eq
  | false =>
    obtain ⟨d', hsort, hmade⟩ := exists_of_build hsorted h
    obtain ⟨-, hsettings, -⟩ := exists_of_sort hsort
    exact hmade.settings_eq.trans hsettings

theorem settings_appendRow (d : Draft) (id : Int64) (cells : List (Option Value)) :
    (d.appendRow id cells).2.settings = d.settings := by
  rw [appendRow]
  by_cases hfull : maxRows ≤ d.size
  · rw [if_pos hfull]
  · rw [if_neg hfull]
    rcases d.ids.append (some (.long id)) with ⟨_ | _, ids⟩
    · rfl
    · rcases writeCells Column.Draft.append d.columns cells with ⟨_ | _, columns⟩ <;> rfl

theorem settings_step (s : BuildStep) (d : Draft) : (step s d).2.settings = d.settings := by
  cases s with
  | addIndex name =>
    rw [step, addIndex]
    cases d.schema.position? name <;> rfl
  | addIndexOf a =>
    rw [step, addIndexOf]
    cases d.schema.positionOf? a <;> rfl
  | add call =>
    rw [step, addCall, add]
    cases cellsOf d.schema (Entity.fields call.value) with
    | error err => rfl
    | ok cells =>
      cases d.standing (Entity.id call.value) with
      | next => exact settings_appendRow d _ cells
      | late => exact settings_appendRow d.scatter _ cells
      | held row => cases call.replace <;> rfl
      | known => cases call.replace <;> rfl

theorem run_settings (steps : List BuildStep) (d : Draft) :
    (run step steps d).2.settings = d.settings :=
  run_keeps (P := fun d' : Draft => d'.settings = d.settings)
    (fun s d' h => (settings_step s d').trans h) steps rfl

end Draft

end Table

end ColumnStore

/-!
# Runs

A run takes steps one after the other and lists what each of them gives (`run`), by which some
of the steps can be told from others (`select`). Two systems whose single steps go together run
together (`run_related`), also if some steps of the one are none of the other (`run_filterMap`).
-/

namespace ColumnStore

variable {ι : Type u} {σ : Type v} {τ : Type w} {α : Type} {β : Type}

/-- The steps one after the other: what each gives, and the state after the last. -/
def run (step : ι → σ → α × σ) : List ι → σ → List α × σ
  | [], s => ([], s)
  | i :: rest, s =>
    let (a, s) := step i s
    let (as, s) := run step rest s
    (a :: as, s)

variable {f : ι → σ → α × σ} {g : ι → τ → β × τ}

@[simp]
theorem run_nil (s : σ) : run f [] s = ([], s) := rfl

@[simp]
theorem run_cons (i : ι) (rest : List ι) (s : σ) :
    run f (i :: rest) s
      = ((f i s).1 :: (run f rest (f i s).2).1, (run f rest (f i s).2).2) := rfl

theorem length_run (steps : List ι) (s : σ) : (run f steps s).1.length = steps.length := by
  induction steps generalizing s with
  | nil => rfl
  | cons i rest ih => rw [run_cons, List.length_cons, List.length_cons, ih]

theorem run_concat (steps : List ι) (i : ι) (s : σ) :
    run f (steps ++ [i]) s
      = ((run f steps s).1 ++ [(f i (run f steps s).2).1], (f i (run f steps s).2).2) := by
  induction steps generalizing s with
  | nil => rfl
  | cons j rest ih => rw [List.cons_append, run_cons, ih, run_cons, List.cons_append]

/-- The steps that are kept, going by what each of them gave, and what they gave. -/
def select (keep : ι → α → Bool) (steps : List ι) (given : List α) : List (ι × α) :=
  (steps.zip given).filter fun p => keep p.1 p.2

theorem select_concat {keep : ι → α → Bool} {steps : List ι} {given : List α}
    (h : steps.length = given.length) (i : ι) (a : α) :
    select keep (steps ++ [i]) (given ++ [a])
      = select keep steps given ++ if keep i a then [(i, a)] else [] := by
  rw [select, List.zip_append h, List.filter_append, ← select, List.zip_cons_cons,
    List.zip_nil_left, List.filter_cons]
  rfl

/-- What every step keeps is kept by a run. -/
theorem run_keeps {P : σ → Prop} (keep : ∀ i s, P s → P (f i s).2) (steps : List ι) {s : σ}
    (h : P s) : P (run f steps s).2 := by
  induction steps generalizing s with
  | nil => exact h
  | cons i rest ih => exact ih (keep i s h)

/-- What no step leads back to held from the start if it holds in the end. -/
theorem of_run {P : τ → Prop} (back : ∀ i t, P (g i t).2 → P t) (steps : List ι) {t : τ}
    (h : P (run g steps t).2) : P t := by
  refine Classical.byContradiction fun hnot => ?_
  exact run_keeps (P := fun t => ¬P t) (fun i t hnot h => hnot (back i t h)) steps hnot h

/-- If all single steps keep two states related and give the same in the view of `see`, so do
    all runs. The steps may rely on what no step of the second system leads back to, provided
    that its run ends so. -/
theorem run_related (R : σ → τ → Prop) (see : α → β) {P : τ → Prop}
    (back : ∀ i t, P (g i t).2 → P t)
    (step : ∀ i s t, R s t → P (g i t).2 → see (f i s).1 = (g i t).1 ∧ R (f i s).2 (g i t).2)
    (steps : List ι) {s : σ} {t : τ} (h : R s t) (hend : P (run g steps t).2) :
    (run f steps s).1.map see = (run g steps t).1 ∧ R (run f steps s).2 (run g steps t).2 := by
  induction steps generalizing s t with
  | nil => exact ⟨rfl, h⟩
  | cons i rest ih =>
    obtain ⟨hgive, hnext⟩ := step i s t h (of_run back rest hend)
    obtain ⟨hgives, hlast⟩ := ih hnext hend
    rw [run_cons, run_cons, List.map_cons, hgive, hgives]
    exact ⟨rfl, hlast⟩

/-- If some steps give nothing and leave two states related, and all others do as steps of the
    second system, a run does as that of those others. -/
theorem run_filterMap {κ : Type w'} {f : ι → σ → Option β × σ} {g : κ → τ → β × τ}
    (R : σ → τ → Prop) (pick : ι → Option κ)
    (silent : ∀ i s t, pick i = none → R s t → (f i s).1 = none ∧ R (f i s).2 t)
    (step : ∀ i k s t, pick i = some k → R s t →
      (f i s).1 = some (g k t).1 ∧ R (f i s).2 (g k t).2)
    (steps : List ι) {s : σ} {t : τ} (h : R s t) :
    (run f steps s).1.filterMap id = (run g (steps.filterMap pick) t).1 ∧
      R (run f steps s).2 (run g (steps.filterMap pick) t).2 := by
  induction steps generalizing s t with
  | nil => exact ⟨rfl, h⟩
  | cons i rest ih =>
    cases hpick : pick i with
    | none =>
      obtain ⟨hgive, hnext⟩ := silent i s t hpick h
      rw [run_cons, List.filterMap_cons_none hpick, hgive, List.filterMap_cons_none rfl]
      exact ih hnext
    | some k =>
      obtain ⟨hgive, hnext⟩ := step i k s t hpick h
      obtain ⟨hgives, hlast⟩ := ih hnext
      rw [run_cons, List.filterMap_cons_some hpick, run_cons, hgive]
      exact ⟨congrArg ((g k t).1 :: ·) hgives, hlast⟩

end ColumnStore

import ColumnStore.Proofs.Table.Arrivals
import ColumnStore.Proofs.Table.Invariant
import ColumnStore.Proofs.Table.Parts

/-!
# Sorting rows in place

To sort its rows a draft follows the cycles of the order of their ids, one exchange of two rows at a
time. As a loop this has nothing that bounds it (`Exchanges.Cycle`, `Exchanges.Passes`). That it
ends is due to the order, in which each row stands once: the row that is to come next is always one
that was not placed yet (`Exchanges.follow_cycle`), so that a cycle is left after as many rows as
there are at the latest.

The loop makes each exchange in all columns before the next one. As the columns do not depend on
each other, they are the same as if each had made all exchanges by itself (`exchangeAll_eq`), and
all have their rows in the same order (`Column.Draft.Rearranged`). `Table.run_sort` says so of all
drafts.
-/

namespace ColumnStore

namespace Exchanges

/-! ## The loop -/

/-- Follows the cycle of row `start` from row `j` of it on, until it is back: the rows placed
    before, the exchanges that are made, and the rows placed after. -/
inductive Cycle (order : Array Nat) (start : Nat) :
    Nat → Array Bool → List (Nat × Nat) → Array Bool → Prop where
  | last {j placed} (hj : j < placed.size) (hk : order[j]? = some start) :
    Cycle order start j placed [] (placed.set j true hj)
  | next {j k placed pairs placed'} (hj : j < placed.size) (hk : order[j]? = some k)
    (hne : k ≠ start) (rest : Cycle order start k (placed.set j true hj) pairs placed') :
    Cycle order start j placed ((j, k) :: pairs) placed'

/-- Goes through rows, and follows the cycle of each one that was not placed yet. -/
inductive Passes (order : Array Nat) :
    List Nat → Array Bool → List (Nat × Nat) → Array Bool → Prop where
  | done {placed} : Passes order [] placed [] placed
  | skip {start starts placed pairs placed'} (hstart : placed[start]? = some true)
    (rest : Passes order starts placed pairs placed') :
    Passes order (start :: starts) placed pairs placed'
  | follow {start starts placed pairs placed₁ pairs' placed'} (hstart : placed[start]? = some false)
    (cycle : Cycle order start start placed pairs placed₁)
    (rest : Passes order starts placed₁ pairs' placed') :
    Passes order (start :: starts) placed (pairs ++ pairs') placed'

/-! ## The loop ends -/

variable {order : Array Nat} {start j : Nat} {placed placed' : Array Bool}
  {pairs : List (Nat × Nat)} {e : Exchanges}

/-- With fuel for every row that is left to place, following a cycle takes it to its end. -/
theorem follow_cycle (horder : IsOrder order) (fuel : Nat) (h : Following order start j e)
    (hfuel : e.placed.count false ≤ fuel) :
    ∃ pairs, (follow order start fuel j e).pairs.toList = e.pairs.toList ++ pairs ∧
      Cycle order start j e.placed pairs (follow order start fuel j e).placed := by
  induction fuel generalizing j e with
  | zero =>
    have hcount := count_place (h.size_eq ▸ h.lt) h.not_placed
    omega
  | succ fuel ih =>
    have hj : j < e.placed.size := h.size_eq ▸ h.lt
    have hcount := count_place hj h.not_placed
    obtain ⟨k, hk⟩ : ∃ k, order[j]? = some k := ⟨_, Array.getElem?_eq_getElem h.lt⟩
    have hget : order.getD j start = k := by
      rw [Array.getD_eq_getD_getElem?, hk, Option.getD_some]
    rw [follow, hget]
    by_cases hnext : k = start
    · rw [if_pos hnext]
      refine ⟨[], (List.append_nil _).symm, ?_⟩
      exact place_placed hj ▸ .last hj (hnext ▸ hk)
    · rw [if_neg hnext]
      have hfuel : (e.place j).placed.count false ≤ fuel := by omega
      obtain ⟨pairs, hpairs, hcycle⟩ := ih (h.next horder hk hnext) hfuel
      refine ⟨(j, k) :: pairs, ?_, .next hj hk hnext ?_⟩
      · rw [← List.singleton_append, ← List.append_assoc, ← Array.toList_push]
        exact hpairs
      · exact place_placed hj ▸ hcycle

/-- Visiting rows goes through them. -/
theorem foldl_visit_passes (horder : IsOrder order) (starts : List Nat)
    (hstarts : ∀ k ∈ starts, k < order.size) (h : Settled order e) :
    ∃ pairs, (starts.foldl (visit order) e).pairs.toList = e.pairs.toList ++ pairs ∧
      Passes order starts e.placed pairs (starts.foldl (visit order) e).placed := by
  induction starts generalizing e with
  | nil => exact ⟨[], (List.append_nil _).symm, .done⟩
  | cons start rest ih =>
    have hstart := hstarts start List.mem_cons_self
    obtain ⟨hvisit, -⟩ := visit_settled horder h hstart
    obtain ⟨pairs, hpairs, hrest⟩ := ih (fun k hk => hstarts k (List.mem_cons_of_mem _ hk)) hvisit
    rw [List.foldl_cons]
    by_cases hplaced : e.Placed start
    · rw [visit_of_placed hplaced] at hpairs hrest ⊢
      exact ⟨pairs, hpairs, .skip hplaced hrest⟩
    · have hlt : start < e.placed.size := h.size_eq ▸ hstart
      obtain ⟨cycle, hcycle, hfollowed⟩ :=
        follow_cycle horder order.size (h.following hstart hplaced) h.count_le
      rw [visit_of_not_placed hlt hplaced] at hpairs hrest ⊢
      refine ⟨cycle ++ pairs, by rw [hpairs, hcycle, List.append_assoc], ?_⟩
      exact .follow (getElem?_of_not_placed hlt hplaced) hfollowed hrest

/-! ## What the loop leaves alone -/

/-- A cycle of more than one row has only rows that are to move. -/
theorem Cycle.moves (horder : IsOrder order) (h : Cycle order start j placed pairs placed')
    (hj : j = start ∨ order[j]? ≠ some j) :
    ∀ p ∈ pairs, order[p.1]? ≠ some p.1 ∧ order[p.2]? ≠ some p.2 := by
  induction h with
  | last => exact nofun
  | @next j k placed pairs placed' _ hk hne _ ih =>
    have hjk : j ≠ k := by
      rintro rfl
      exact hj.elim hne fun hmoves => hmoves hk
    -- Row `k` is to be at `j`, so it is not to be where it is.
    have hkmoves : order[k]? ≠ some k := fun hfixed => hjk (horder.eq_of_getElem? hk hfixed)
    refine List.forall_mem_cons.2 ⟨⟨?_, hkmoves⟩, ih (.inr hkmoves)⟩
    rw [hk]
    exact fun heq => hjk (Option.some_inj.1 heq).symm

theorem Passes.moves {starts : List Nat} (horder : IsOrder order)
    (h : Passes order starts placed pairs placed') :
    ∀ p ∈ pairs, order[p.1]? ≠ some p.1 ∧ order[p.2]? ≠ some p.2 := by
  induction h with
  | done => exact nofun
  | skip _ _ ih => exact ih
  | follow _ cycle _ ih => exact List.forall_mem_append.2 ⟨cycle.moves horder (.inl rfl), ih⟩

end Exchanges

/-- The exchanges that are found are those of the loop, which has placed all rows when it ends. -/
theorem passes_exchanges {order : Array Nat} (horder : IsOrder order) :
    Exchanges.Passes order (List.range order.size) (.replicate order.size false) (exchanges order)
      (.replicate order.size true) := by
  have hstarts (k : Nat) : k ∈ List.range order.size → k < order.size := List.mem_range.1
  obtain ⟨pairs, hpairs, hpasses⟩ :=
    Exchanges.foldl_visit_passes horder (List.range order.size) hstarts Exchanges.settled_nil
  obtain ⟨hsettled, hplaced⟩ :=
    Exchanges.foldl_visit_settled horder (List.range order.size) hstarts Exchanges.settled_nil
  rw [← exchanges, List.nil_append] at hpairs
  rw [← hpairs] at hpasses
  convert hpasses using 1
  refine Array.ext (Array.size_replicate.trans hsettled.size_eq.symm) fun k hk hk' => ?_
  rw [Array.size_replicate] at hk
  have htrue := (Array.getElem?_eq_some_iff.1 (hplaced k (.inr (List.mem_range.2 hk)))).2
  rw [Array.getElem_replicate, htrue]

/-! ## The columns together -/

namespace Column.Draft

variable {c c' : Draft} {kind : Kind} {cells : List (Option Value)} {order : Array Nat}

/-- Makes exchanges of rows in columns, each in all columns before the next one. -/
def exchangeAll (columns : List Draft) (pairs : List (Nat × Nat)) :
    Except WriteError (List Draft) :=
  pairs.foldlM (fun columns p => columns.mapM (exchange · [p])) columns

theorem exchange_cons {p : Nat × Nat} {pairs : List (Nat × Nat)}
    (h : c.exchange (p :: pairs) = .ok c') :
    ∃ c₁, c.exchange [p] = .ok c₁ ∧ c₁.exchange pairs = .ok c' := by
  rw [exchange] at h
  split at h
  · cases h
  · rename_i c₁ hswap
    exact ⟨c₁, by rw [exchange, hswap]; rfl, h⟩

/-- It makes no difference if columns make the exchanges one after the other. -/
theorem exchangeAll_eq {columns columns' : List Draft} (pairs : List (Nat × Nat))
    (h : List.Forall₂ (fun c c' : Draft => c.exchange pairs = .ok c') columns columns') :
    exchangeAll columns pairs = .ok columns' := by
  induction pairs generalizing columns with
  | nil =>
    have heq : columns = columns' := by
      rw [← List.forall₂_eq_eq_eq]
      exact h.imp fun _ _ hc => Except.ok.inj hc
    rw [heq]
    rfl
  | cons p pairs ih =>
    obtain ⟨columns₁, hfirst, hrest⟩ := exists_mapM
      (fun c c' : Draft => c.exchange pairs = .ok c') h fun _ _ hc => exchange_cons hc
    rw [exchangeAll, List.foldlM_cons, hfirst]
    exact ih hrest

/-- A column has its rows in an order of old rows: each has the value that the old row had, or
    none like that. -/
structure Rearranged (order : Array Nat) (c c' : Draft) : Prop where
  kind_eq : c'.kind = c.kind
  size_eq : c'.size = c.size
  row : ∀ k i, order[k]? = some i → c'.get? k = c.get? i ∧ c'.isAbsent k = c.isAbsent i

theorem Holds.rearranged (hc : c.Holds kind cells)
    (horder : order.toList.Perm (List.range cells.length))
    (h : c.exchange (exchanges order) = .ok c') : Rearranged order c c' := by
  obtain ⟨c₁, hexchange, hc'⟩ := hc.exchange horder
  obtain rfl := Except.ok.inj (hexchange.symm.trans h)
  refine ⟨hc'.kind_eq.trans hc.kind_eq.symm, ?_, ?_⟩
  · rw [hc'.size_eq_length, hc.size_eq_length, List.length_map, horder.length_eq, List.length_range]
  intro k i hk
  have hcell : (order.toList.map fun i => cells[i]?.join)[k]?.join = cells[i]?.join := by
    rw [List.getElem?_map, Array.getElem?_toList, hk, Option.map_some, Option.join_some]
  rw [hc'.get?_eq, hc.get?_eq, hc'.isAbsent_eq, hc.isAbsent_eq, hcell]
  exact ⟨rfl, rfl⟩

end Column.Draft

namespace Table

variable {d d' : Draft} {entityType : EntityType} {schema : Schema} {entries : List Entry}

namespace Draft

theorem order_perm (d : Draft) : d.order.toList.Perm (List.range d.size) := by
  have hperm := sortingOrder_perm ((Array.range d.size).map d.idAt)
  rwa [Array.size_map, Array.size_range] at hperm

theorem size_order (d : Draft) : d.order.size = d.size := by
  rw [← Array.length_toList, d.order_perm.length_eq, List.length_range]

theorem isOrder_order (d : Draft) : IsOrder d.order :=
  isOrder_of_perm (d.size_order.symm ▸ d.order_perm)

/-- Different ids ascend in the order. -/
theorem ascending_order (hnodup : d.rowIds.Nodup) :
    (d.order.toList.map d.idAt).Pairwise (· < ·) := by
  have hlt (k : Nat) (hk : k ∈ d.order.toList) : k < d.size :=
    List.mem_range.1 (d.order_perm.mem_iff.1 hk)
  have hle : (d.order.toList.map d.idAt).Pairwise (· ≤ ·) := by
    rw [List.pairwise_map]
    refine (pairwise_sortingOrder _).imp_of_mem fun {p q} hp hq hpq => ?_
    simpa [hlt p hp, hlt q hq] using hpq
  have hne : (d.order.toList.map d.idAt).Nodup := (d.order_perm.map d.idAt).nodup_iff.2 hnodup
  exact (hle.and hne).imp fun h => Std.lt_of_le_of_ne h.1 h.2

/-- There is no other order of the rows in which different ids ascend. -/
theorem eq_order_iff (hnodup : d.rowIds.Nodup) (rows : List Nat) :
    rows.Perm (List.range d.size) ∧ (rows.map d.idAt).Pairwise (· < ·) ↔ rows = d.order.toList := by
  constructor
  · rintro ⟨hperm, hrows⟩
    exact eq_of_ascending_map hrows (ascending_order hnodup)
      fun _ => (hperm.trans d.order_perm.symm).mem_iff
  · rintro rfl
    exact ⟨d.order_perm, ascending_order hnodup⟩

/-- When rows were sorted, all columns have them in the order of the ids. -/
theorem Holds.rearranged (hd : d.Holds entityType schema entries) (h : d.sort = .ok d') :
    List.Forall₂ (Column.Draft.Rearranged d.order) (d.ids :: d.columns) (d'.ids :: d'.columns) := by
  obtain ⟨-, -, hexchange⟩ := exists_of_sort h
  have hcolumn (c : Column.Draft) (hc : c ∈ d.ids :: d.columns) :
      ∃ kind cells, c.Holds kind cells ∧ cells.length = d.size := by
    obtain ⟨i, hi, rfl⟩ := List.getElem_of_mem hc
    exact ⟨_, _, hd.columns.get hi (hd.columns.length_eq ▸ hi), by rw [List.length_map, hd.size_eq]⟩
  refine ((List.forall₂_and_left _ _).2 ⟨hcolumn, hexchange⟩).imp ?_
  rintro c c' ⟨⟨kind, cells, hc, hlength⟩, hmade⟩
  exact hc.rearranged (hlength ▸ d.order_perm) hmade

end Draft

/-- After any steps on a new draft, there is one order of its rows in which their ids ascend. The
    loop that follows the cycles of the order ends, having placed all rows and touched none that
    stays where it is. Its exchanges, made in all columns one after the other, succeed, and leave in
    each row of each column just what was in the old row that the order names. -/
theorem run_sort (entityType : EntityType) (schema : Schema) (settings : Settings)
    (steps : List BuildStep) :
    let d := (run Draft.step steps { entityType, schema, settings }).2
    (∀ rows : List Nat, rows.Perm (List.range d.size) ∧ (rows.map d.idAt).Pairwise (· < ·) ↔
      rows = d.order.toList) ∧
    Exchanges.Passes d.order (List.range d.size) (.replicate d.size false) (exchanges d.order)
      (.replicate d.size true) ∧
    (∀ p ∈ exchanges d.order, d.order[p.1]? ≠ some p.1 ∧ d.order[p.2]? ≠ some p.2) ∧
    ∃ sorted, d.sort = .ok sorted ∧ sorted.isSorted = true ∧
      Column.Draft.exchangeAll (d.ids :: d.columns) (exchanges d.order)
        = .ok (sorted.ids :: sorted.columns) ∧
      List.Forall₂ (Column.Draft.Rearranged d.order) (d.ids :: d.columns)
        (sorted.ids :: sorted.columns) := by
  intro d
  obtain ⟨entries, hd, -⟩ := Draft.run_exists_holds entityType schema settings steps
  have hpasses := passes_exchanges d.isOrder_order
  obtain ⟨sorted, -, hsort, -, hsorted, -⟩ := hd.sort
  obtain ⟨-, -, hexchange⟩ := Draft.exists_of_sort hsort
  refine ⟨Draft.eq_order_iff (hd.rowIds_eq ▸ hd.nodup), d.size_order ▸ hpasses,
    hpasses.moves d.isOrder_order, sorted, hsort, hsorted, ?_, hd.rearranged hsort⟩
  exact Column.Draft.exchangeAll_eq _ hexchange

/-- Three ratings that come in descending order of their ids: the first and the last row change
    places. -/
theorem run_sort_ratings :
    let steps : List BuildStep :=
      [.add ⟨ratingRecord 3 (.double ⟨0⟩), false⟩, .add ⟨ratingRecord 2 (.double ⟨1⟩), false⟩,
        .add ⟨ratingRecord 1 (.double ⟨2⟩), false⟩]
    let d := (run Draft.step steps { entityType := ⟨"rating"⟩, schema := ratings }).2
    d.order = #[2, 1, 0] ∧ (0, 2) ∈ exchanges d.order ∧ d.order[0]? ≠ some 0 ∧
      ∃ sorted, d.sort = .ok sorted ∧ ∀ i, d.order[0]? = some i →
        sorted.ids.get? 0 = d.ids.get? i := by
  intro steps d
  obtain ⟨horder, -, hmoves, sorted, hsort, -, -, hrows⟩ := run_sort ⟨"rating"⟩ ratings {} steps
  have hd : d.Holds ⟨"rating"⟩ ratings ((BuildStep.calls steps).map AddCall.entry) :=
    (Draft.run_distinct ⟨"rating"⟩ ratings {} steps (by decide) (by decide)).2 (by decide)
  have hsize : d.size = 3 := hd.size_eq
  have hascend : ([2, 1, 0].map d.idAt).Pairwise (· < ·) := by
    rw [List.map_congr_left fun p _ => hd.idAt_eq p]
    decide
  have heq : d.order = #[2, 1, 0] :=
    Array.toList_inj.1 ((horder [2, 1, 0]).1 ⟨by rw [hsize]; decide, hascend⟩).symm
  have hmem : (0, 2) ∈ exchanges d.order := by
    rw [heq]
    decide
  exact ⟨heq, hmem, (hmoves (0, 2) hmem).1, sorted, hsort,
    fun i hi => ((List.forall₂_cons.1 hrows).1.row 0 i hi).1⟩

end Table

end ColumnStore

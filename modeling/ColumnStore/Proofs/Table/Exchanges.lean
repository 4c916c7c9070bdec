import ColumnStore.Proofs.Column.Draft
import ColumnStore.Table.Exchanges
import Mathlib.Logic.Equiv.Basic

/-!
# Exchanges put rows in order

While a cycle is followed from its row `start` on (`Exchanges.Following`), the rows that were
placed hold what they are to hold, the row at hand holds the old row `start`, and all others
are untouched. Once the cycle is closed (`Exchanges.Settled`) no row is out of place any more
but those of cycles that no row was placed of. So when all rows were visited each row holds the
old row that the order names (`sourceOf_exchanges`), and a column that makes the exchanges holds
its cells in that order (`Column.Draft.Holds.exchange`).
-/

namespace ColumnStore

variable {order : Array Nat} {start j k : Nat}

/-- The old row that a row holds after exchanges. -/
def sourceOf : List (Nat × Nat) → Nat → Nat
  | [], k => k
  | (i, j) :: rest, k => Equiv.swap i j (sourceOf rest k)

theorem sourceOf_concat (pairs : List (Nat × Nat)) (i j k : Nat) :
    sourceOf (pairs ++ [(i, j)]) k = sourceOf pairs (Equiv.swap i j k) := by
  induction pairs with
  | nil => rfl
  | cons pair rest ih => rw [List.cons_append, sourceOf, sourceOf, ih]

/-- Each row below the size is named once. -/
structure IsOrder (order : Array Nat) : Prop where
  lt : ∀ k (h : k < order.size), order[k] < order.size
  inj : ∀ j k (hj : j < order.size) (hk : k < order.size), order[j] = order[k] → j = k

theorem isOrder_of_perm (h : order.toList.Perm (List.range order.size)) : IsOrder order where
  lt k hk := by
    rw [← List.mem_range, ← h.mem_iff, Array.mem_toList_iff]
    exact Array.getElem_mem hk
  inj j k hj hk heq := by
    have hnodup : order.toList.Nodup := h.nodup_iff.2 List.nodup_range
    exact (List.getElem_inj hnodup).1 (by rwa [Array.getElem_toList, Array.getElem_toList])

/-- No row is to be at two places. -/
theorem IsOrder.eq_of_getElem? (h : IsOrder order) {i : Nat} (hi : order[i]? = some k)
    (hj : order[j]? = some k) : i = j := by
  obtain ⟨hi, hik⟩ := Array.getElem?_eq_some_iff.1 hi
  obtain ⟨hj, hjk⟩ := Array.getElem?_eq_some_iff.1 hj
  exact h.inj i j hi hj (hik.trans hjk.symm)

namespace Exchanges

variable {e : Exchanges}

/-- A row was put in its place. -/
def Placed (e : Exchanges) (k : Nat) : Prop := e.placed[k]? = some true

/-- The old row that a row holds. -/
def source (e : Exchanges) : Nat → Nat := sourceOf e.pairs.toList

/-- What holds of the rows that were placed. -/
structure Tracked (order : Array Nat) (e : Exchanges) : Prop where
  size_eq : e.placed.size = order.size
  bounded : ∀ p ∈ e.pairs.toList, p.1 < order.size ∧ p.2 < order.size
  source_of_placed : ∀ k (h : k < order.size), e.Placed k → e.source k = order[k]

/-- No cycle is open: a row that was not placed is untouched, and all the rows of a cycle were
    placed if one of them was. -/
structure Settled (order : Array Nat) (e : Exchanges) : Prop extends Tracked order e where
  source_of_not_placed : ∀ k < order.size, ¬e.Placed k → e.source k = k
  closed : ∀ k, e.Placed k → ∃ i, e.Placed i ∧ order[i]? = some k

/-- The cycle of row `start` was followed to row `j`. -/
structure Following (order : Array Nat) (start j : Nat) (e : Exchanges) : Prop extends
    Tracked order e where
  lt : j < order.size
  not_placed : ¬e.Placed j
  source_eq : e.source j = start
  source_of_not_placed : ∀ k < order.size, k ≠ j → ¬e.Placed k → e.source k = k
  /-- Only what row `start` is to be moved to is still to come. -/
  closed : ∀ k, e.Placed k ∨ k = j → k = start ∨ ∃ i, e.Placed i ∧ order[i]? = some k

/-- The exchanges with one more row placed. -/
def place (e : Exchanges) (j : Nat) : Exchanges :=
  { e with placed := e.placed.setIfInBounds j true }

theorem placed_place (hj : j < e.placed.size) : (e.place j).Placed k ↔ e.Placed k ∨ k = j := by
  rw [Placed, Placed, place, Array.getElem?_setIfInBounds]
  by_cases hk : j = k
  · rw [if_pos hk, if_pos hj]
    exact ⟨fun _ => .inr hk.symm, fun _ => rfl⟩
  · rw [if_neg hk]
    exact ⟨.inl, fun h => h.resolve_right (Ne.symm hk)⟩

theorem place_placed (hj : j < e.placed.size) : (e.place j).placed = e.placed.set j true hj := by
  rw [place, Array.setIfInBounds_def, dif_pos hj]

theorem getElem?_of_not_placed (hj : j < e.placed.size) (hnot : ¬e.Placed j) :
    e.placed[j]? = some false := by
  rw [Placed, Array.getElem?_eq_getElem hj, Option.some_inj, Bool.not_eq_true] at hnot
  rw [Array.getElem?_eq_getElem hj, hnot]

/-- Fewer rows are left to place. -/
theorem count_place (hj : j < e.placed.size) (hnot : ¬e.Placed j) :
    (e.place j).placed.count false + 1 = e.placed.count false := by
  have hfalse : e.placed[j] = false :=
    (Array.getElem?_eq_some_iff.1 (getElem?_of_not_placed hj hnot)).2
  have hpos : 0 < e.placed.count false := by
    rw [Array.count_pos_iff]
    exact hfalse ▸ Array.getElem_mem hj
  rw [place_placed hj, Array.count_set hj, hfalse, if_pos (by rfl), if_neg (by decide)]
  omega

theorem visit_of_placed (h : e.Placed start) : visit order e start = e := by
  rw [visit, Array.getD_eq_getD_getElem?, h]
  rfl

theorem visit_of_not_placed (hstart : start < e.placed.size) (hnot : ¬e.Placed start) :
    visit order e start = follow order start order.size start e := by
  rw [visit, Array.getD_eq_getD_getElem?, getElem?_of_not_placed hstart hnot]
  rfl

namespace Following

variable (h : Following order start j e)
include h

theorem source_of_placed_place (k : Nat) (hk : k < order.size)
    (hdone : order[j]? = some (e.source j)) (hplaced : (e.place j).Placed k) :
    e.source k = order[k] := by
  rcases (placed_place (h.size_eq ▸ h.lt)).1 hplaced with hplaced | rfl
  · exact h.source_of_placed k hk hplaced
  · exact (Array.getElem?_eq_some_iff.1 hdone).2.symm

/-- The last row of a cycle takes the old row `start`, which it holds. -/
theorem settled (hlast : order[j]? = some start) : Settled order (e.place j) where
  size_eq := by rw [place, Array.size_setIfInBounds, h.size_eq]
  bounded := h.bounded
  source_of_placed k hk := h.source_of_placed_place k hk (by rw [h.source_eq, hlast])
  source_of_not_placed k hk hnot := by
    rw [placed_place (h.size_eq ▸ h.lt), not_or] at hnot
    exact h.source_of_not_placed k hk hnot.2 hnot.1
  closed k hplaced := by
    have hj : j < e.placed.size := h.size_eq ▸ h.lt
    rcases h.closed k ((placed_place hj).1 hplaced) with rfl | ⟨i, hi, hik⟩
    · exact ⟨j, (placed_place hj).2 (.inr rfl), hlast⟩
    · exact ⟨i, (placed_place hj).2 (.inl hi), hik⟩

/-- The row that row `j` is to hold is still where it was. -/
theorem not_placed_next (horder : IsOrder order) (hk : order[j]? = some k) (hnext : k ≠ start) :
    ¬(e.place j).Placed k := by
  rw [placed_place (h.size_eq ▸ h.lt)]
  intro hplaced
  rcases h.closed k hplaced with heq | ⟨i, hi, hik⟩
  · exact hnext heq
  · exact h.not_placed (horder.eq_of_getElem? hik hk ▸ hi)

/-- Any other row takes its old row from where that was, which leaves the old row `start`
    there. -/
theorem next (horder : IsOrder order) (hk : order[j]? = some k) (hnext : k ≠ start) :
    Following order start k ⟨(e.place j).placed, e.pairs.push (j, k)⟩ := by
  have hj : j < e.placed.size := h.size_eq ▸ h.lt
  have hklt : k < order.size := by
    obtain ⟨hlt, rfl⟩ := Array.getElem?_eq_some_iff.1 hk
    exact horder.lt j hlt
  have hnot := h.not_placed_next horder hk hnext
  have hsource (i : Nat) : source ⟨(e.place j).placed, e.pairs.push (j, k)⟩ i
      = e.source (Equiv.swap j k i) := by
    rw [source, source, Array.toList_push, sourceOf_concat]
  have hnotk : ¬e.Placed k ∧ k ≠ j := by
    rwa [placed_place hj, not_or] at hnot
  -- Only rows `j` and `k` are exchanged: `j` is placed by that, and `k` becomes the row at hand.
  refine ⟨⟨?_, ?_, ?_⟩, hklt, hnot, ?_, ?_, ?_⟩
  · exact (Array.size_setIfInBounds ..).trans h.size_eq
  · intro p hp
    rw [Array.toList_push, List.mem_append, List.mem_singleton] at hp
    rcases hp with hp | rfl
    · exact h.bounded p hp
    · exact ⟨h.lt, hklt⟩
  · intro i hlt hplaced
    rw [hsource]
    rcases (placed_place hj).1 hplaced with hplaced | rfl
    · have hij : i ≠ j := fun heq => h.not_placed (heq ▸ hplaced)
      have hik : i ≠ k := fun heq => hnotk.1 (heq ▸ hplaced)
      rw [Equiv.swap_apply_of_ne_of_ne hij hik]
      exact h.source_of_placed i hlt hplaced
    · rw [Equiv.swap_apply_left, h.source_of_not_placed k hklt hnotk.2 hnotk.1]
      exact (Array.getElem?_eq_some_iff.1 hk).2.symm
  · rw [hsource, Equiv.swap_apply_right, h.source_eq]
  · intro i hlt hne hplaced
    have hloose : ¬e.Placed i ∧ i ≠ j := by
      rwa [← not_or, ← placed_place hj]
    rw [hsource, Equiv.swap_apply_of_ne_of_ne hloose.2 hne]
    exact h.source_of_not_placed i hlt hloose.2 hloose.1
  · intro i hplaced
    rcases hplaced with hplaced | rfl
    · rcases h.closed i ((placed_place hj).1 hplaced) with heq | ⟨i', hi', hik⟩
      · exact .inl heq
      · exact .inr ⟨i', (placed_place hj).2 (.inl hi'), hik⟩
    · exact .inr ⟨j, (placed_place hj).2 (.inr rfl), hk⟩

end Following

/-! ## All cycles -/

/-- Following a cycle closes it: there is fuel for every row that is left to place. -/
theorem follow_settled (horder : IsOrder order) (fuel : Nat) (h : Following order start j e)
    (hfuel : e.placed.count false ≤ fuel) :
    Settled order (follow order start fuel j e) ∧
      ∀ k, e.Placed k ∨ k = j → (follow order start fuel j e).Placed k := by
  have hj : j < e.placed.size := h.size_eq ▸ h.lt
  have hcount := count_place hj h.not_placed
  -- Each row that is placed takes up one unit of fuel, and row `j` is still to be placed.
  induction fuel generalizing j e with
  | zero => omega
  | succ fuel ih =>
    obtain ⟨k, hk⟩ : ∃ k, order[j]? = some k := ⟨_, Array.getElem?_eq_getElem h.lt⟩
    have hget : order.getD j start = k := by
      rw [Array.getD_eq_getD_getElem?, hk, Option.getD_some]
    rw [follow, hget]
    by_cases hnext : k = start
    · rw [if_pos hnext]
      exact ⟨h.settled (hnext ▸ hk), fun k hk => (placed_place hj).2 hk⟩
    · rw [if_neg hnext]
      have hnext' := h.next horder hk hnext
      have hfuel : (e.place j).placed.count false ≤ fuel := by omega
      obtain ⟨hsettled, hplaced⟩ := ih hnext' hfuel
        (hnext'.size_eq ▸ hnext'.lt) (count_place (hnext'.size_eq ▸ hnext'.lt) hnext'.not_placed)
      exact ⟨hsettled, fun k hk => hplaced k (.inl ((placed_place hj).2 hk))⟩

/-- Where no cycle is open, that of any row that was not placed can be followed. -/
theorem Settled.following (h : Settled order e) (hstart : start < order.size)
    (hnot : ¬e.Placed start) : Following order start start e :=
  { h with
    lt := hstart
    not_placed := hnot
    source_eq := h.source_of_not_placed start hstart hnot
    source_of_not_placed := fun k hk _ => h.source_of_not_placed k hk
    closed := fun k hk => hk.symm.imp_right (h.closed k) }

theorem Tracked.count_le (h : Tracked order e) : e.placed.count false ≤ order.size :=
  h.size_eq ▸ Array.count_le_size

/-- A visit closes the cycle of a row. -/
theorem visit_settled (horder : IsOrder order) (h : Settled order e) (hstart : start < order.size) :
    Settled order (visit order e start) ∧
      ∀ k, e.Placed k ∨ k = start → (visit order e start).Placed k := by
  by_cases hplaced : e.Placed start
  · rw [visit_of_placed hplaced]
    exact ⟨h, fun k hk => hk.elim id fun heq => heq ▸ hplaced⟩
  · rw [visit_of_not_placed (h.size_eq ▸ hstart) hplaced]
    exact follow_settled horder _ (h.following hstart hplaced) h.count_le

/-- All the rows visited are placed in the end. -/
theorem foldl_visit_settled (horder : IsOrder order) (starts : List Nat)
    (hstarts : ∀ k ∈ starts, k < order.size) (h : Settled order e) :
    Settled order (starts.foldl (visit order) e) ∧
      ∀ k, e.Placed k ∨ k ∈ starts → (starts.foldl (visit order) e).Placed k := by
  induction starts generalizing e with
  | nil => exact ⟨h, fun k hk => hk.resolve_right List.not_mem_nil⟩
  | cons start rest ih =>
    obtain ⟨hvisit, hplaced⟩ := visit_settled horder h (hstarts start List.mem_cons_self)
    obtain ⟨hrest, hplaced'⟩ := ih (fun k hk => hstarts k (List.mem_cons_of_mem _ hk)) hvisit
    refine ⟨hrest, fun k hk => hplaced' k ?_⟩
    rcases hk with hk | hk
    · exact .inl (hplaced k (.inl hk))
    · exact (List.mem_cons.1 hk).imp_left fun heq => hplaced k (.inr heq)

/-- Before any exchange no row is placed. -/
theorem settled_nil : Settled order ⟨.replicate order.size false, #[]⟩ := by
  have hnot (k : Nat) : ¬Placed ⟨.replicate order.size false, #[]⟩ k := by
    rw [Placed, Array.getElem?_replicate]
    split <;> simp
  exact { size_eq := Array.size_replicate
          bounded := nofun
          source_of_placed := fun k _ hk => absurd hk (hnot k)
          source_of_not_placed := fun _ _ _ => rfl
          closed := fun k hk => absurd hk (hnot k) }

end Exchanges

/-- After the exchanges each row holds the old row that the order names, and no exchange leaves
    the rows. -/
theorem sourceOf_exchanges (horder : IsOrder order) :
    (∀ k (h : k < order.size), sourceOf (exchanges order) k = order[k]) ∧
      ∀ p ∈ exchanges order, p.1 < order.size ∧ p.2 < order.size := by
  obtain ⟨hsettled, hplaced⟩ := Exchanges.foldl_visit_settled horder (List.range order.size)
    (fun k => List.mem_range.1) Exchanges.settled_nil
  exact ⟨fun k h => hsettled.source_of_placed k h (hplaced k (.inr (List.mem_range.2 h))),
    hsettled.bounded⟩

/-! ## Columns in order -/

/-- In a list with two entries exchanged. -/
theorem getElem?_set_set {α : Type} {l : List α} {i : Nat} (hi : i < l.length) (hj : j < l.length)
    (k : Nat) : ((l.set i l[j]).set j l[i])[k]? = l[Equiv.swap i j k]? := by
  by_cases hkj : k = j
  · rw [hkj, Equiv.swap_apply_right, List.getElem?_set_self (by rwa [List.length_set]),
      List.getElem?_eq_getElem hi]
  · rw [List.getElem?_set_ne (Ne.symm hkj)]
    by_cases hki : k = i
    · rw [hki, Equiv.swap_apply_left, List.getElem?_set_self hi, List.getElem?_eq_getElem hj]
    · rw [List.getElem?_set_ne (Ne.symm hki), Equiv.swap_apply_of_ne_of_ne hki hkj]

namespace Column.Draft.Holds

variable {d : Draft} {kind : Kind} {cells : List (Option Value)}

/-- A column makes exchanges. -/
theorem exchange_sourceOf (pairs : List (Nat × Nat)) (hd : d.Holds kind cells)
    (hpairs : ∀ p ∈ pairs, p.1 < cells.length ∧ p.2 < cells.length) :
    ∃ d', d.exchange pairs = .ok d' ∧
      d'.Holds kind ((List.range cells.length).map fun k => cells[sourceOf pairs k]?.join) := by
  induction pairs generalizing d cells with
  | nil =>
    refine ⟨d, rfl, ?_⟩
    have : (List.range cells.length).map (fun k => cells[sourceOf [] k]?.join) = cells :=
      List.ext_getElem (by simp) fun k _ hk => by simp [sourceOf, List.getElem?_eq_getElem hk]
    rwa [this]
  | cons pair rest ih =>
    obtain ⟨i, j⟩ := pair
    obtain ⟨hi, hj⟩ := hpairs (i, j) List.mem_cons_self
    obtain ⟨d₁, hswap, hd₁⟩ := hd.swap hi hj
    have hlength : ((cells.set i cells[j]).set j cells[i]).length = cells.length := by
      rw [List.length_set, List.length_set]
    obtain ⟨d₂, hrest, hd₂⟩ := ih hd₁ fun p hp => by
      rw [hlength]
      exact hpairs p (List.mem_cons_of_mem _ hp)
    refine ⟨d₂, ?_, ?_⟩
    · simp only [Draft.exchange, hswap, hrest]
    · simpa only [hlength, getElem?_set_set hi hj, sourceOf] using hd₂

/-- A column that makes the exchanges of an order holds its cells in that order. -/
theorem exchange {order : Array Nat} (hd : d.Holds kind cells)
    (horder : order.toList.Perm (List.range cells.length)) :
    ∃ d', d.exchange (exchanges order) = .ok d' ∧
      d'.Holds kind (order.toList.map fun k => cells[k]?.join) := by
  have hsize : order.size = cells.length := by
    rw [← Array.length_toList, horder.length_eq, List.length_range]
  obtain ⟨hsource, hbounded⟩ := sourceOf_exchanges (isOrder_of_perm (hsize ▸ horder))
  obtain ⟨d', hexchange, hd'⟩ := hd.exchange_sourceOf (exchanges order) (hsize ▸ hbounded)
  refine ⟨d', hexchange, ?_⟩
  have : (List.range cells.length).map (fun k => cells[sourceOf (exchanges order) k]?.join)
      = order.toList.map fun k => cells[k]?.join := by
    refine List.ext_getElem (by simp [hsize]) ?_
    intro k hk _
    rw [List.length_map, List.length_range, ← hsize] at hk
    rw [List.getElem_map, List.getElem_map, List.getElem_range, hsource k hk, Array.getElem_toList]
  rwa [← this]

end Column.Draft.Holds

/-! ## The sorting order -/

/-- The order names each row once. -/
theorem sortingOrder_perm (keys : Array Int64) :
    (sortingOrder keys).toList.Perm (List.range keys.size) :=
  List.mergeSort_perm ..

/-- In the order the keys do not descend. -/
theorem pairwise_sortingOrder (keys : Array Int64) :
    (sortingOrder keys).toList.Pairwise fun p q => keys.getD p 0 ≤ keys.getD q 0 := by
  have htrans (p q r : Nat) (hpq : decide (keys.getD p 0 ≤ keys.getD q 0))
      (hqr : decide (keys.getD q 0 ≤ keys.getD r 0)) : decide (keys.getD p 0 ≤ keys.getD r 0) := by
    rw [decide_eq_true_iff] at hpq hqr ⊢
    exact Std.le_trans hpq hqr
  have htotal (p q : Nat) :
      (decide (keys.getD p 0 ≤ keys.getD q 0) || decide (keys.getD q 0 ≤ keys.getD p 0)) := by
    rw [Bool.or_eq_true, decide_eq_true_iff, decide_eq_true_iff]
    exact Std.le_total
  exact (List.pairwise_mergeSort htrans htotal _).imp of_decide_eq_true

end ColumnStore

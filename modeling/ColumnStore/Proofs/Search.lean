import ColumnStore.Search
import Mathlib.Algebra.Group.Nat.Defs

/-!
# Binary search finds

Among ascending ids the search ends at the id if it is there, and else at the position that
parts the smaller ids from the larger ones (`search_isPlace`). There is no other such place
(`search_eq_iff`). So it tells which position holds an id, and whether any does:

* `position?_search_eq_some`
* `position?_search_eq_none`
* `position?_search_getElem?`, of ids in a list

Ids can be read in any monad, so that what the search reads can be noted (`noting`): it is
positions below the size only, no more of them than the size has binary digits
(`run_searchBetween_noting`).
-/

namespace ColumnStore

variable {size : Nat} {idAt : Nat → Int64} {target : Int64}

/-- The place is that of the target among ids. -/
def Place.IsPlace (size : Nat) (idAt : Nat → Int64) (target : Int64) : Place → Prop
  | .held p => p < size ∧ idAt p = target
  | .vacant p => p ≤ size ∧ (∀ q < p, idAt q < target) ∧ ∀ q, p ≤ q → q < size → target < idAt q

/-- The ids below a position ascend. -/
def Ascend (size : Nat) (idAt : Nat → Int64) : Prop := ∀ p q, p < q → q < size → idAt p < idAt q

/-- What is left of the search keeps the target between the ids before and those after. -/
theorem searchBetween_isPlace (hids : Ascend size idAt) (low high : Nat) (hle : low ≤ high)
    (hhigh : high ≤ size) (hbefore : ∀ q < low, idAt q < target)
    (hafter : ∀ q, high ≤ q → q < size → target < idAt q) :
    (Id.run (searchBetween (fun p => pure (idAt p)) target low high)).IsPlace size idAt target := by
  induction low, high using searchBetween.induct with
  | case1 low high hlt middle ihRight ihLeft =>
    rw [searchBetween, if_pos hlt, pure_bind]
    by_cases hid : idAt middle < target
    · rw [if_pos hid]
      refine ihRight (by omega) hhigh ?_ hafter
      intro q hq
      by_cases hq' : q = middle
      · exact hq' ▸ hid
      · exact Std.lt_trans (hids q middle (by omega) (by omega)) hid
    rw [if_neg hid]
    by_cases hid' : target < idAt middle
    · rw [if_pos hid']
      refine ihLeft (by omega) (by omega) hbefore ?_
      intro q hq hsize
      by_cases hq' : q = middle
      · exact hq' ▸ hid'
      · exact Std.lt_trans hid' (hids middle q (by omega) hsize)
    · rw [if_neg hid']
      exact ⟨by omega, Int64.le_antisymm (Int64.not_lt.1 hid') (Int64.not_lt.1 hid)⟩
  | case2 low high hlt =>
    rw [searchBetween, if_neg hlt]
    exact ⟨by omega, hbefore, fun q hq => hafter q (by omega)⟩

theorem search_isPlace (hids : Ascend size idAt) (target : Int64) :
    (search size target idAt).IsPlace size idAt target :=
  searchBetween_isPlace hids 0 size (Nat.zero_le _) (Nat.le_refl _) nofun
    fun _ hq hlt => absurd hlt (Nat.not_lt.2 hq)

/-- No two rows of ascending ids have one id. -/
theorem Ascend.inj (hids : Ascend size idAt) {p q : Nat} (hp : p < size) (hq : q < size)
    (h : idAt p = idAt q) : p = q := by
  rcases Nat.lt_trichotomy p q with hlt | heq | hgt
  · exact absurd (h ▸ hids p q hlt hq) Int64.lt_irrefl
  · exact heq
  · exact absurd (h ▸ hids q p hgt hp) Int64.lt_irrefl

/-- An id has no place but one. -/
theorem Place.IsPlace.unique (hids : Ascend size idAt) {place place' : Place}
    (h : place.IsPlace size idAt target) (h' : place'.IsPlace size idAt target) :
    place = place' := by
  -- A position that holds the id is neither before a vacant place nor after it.
  have hdiffer {p q : Nat} (hp : (held p).IsPlace size idAt target)
      (hq : (vacant q).IsPlace size idAt target) : False := by
    obtain ⟨hp, heq⟩ := hp
    obtain ⟨-, hbefore, hafter⟩ := hq
    by_cases hpq : p < q
    · exact Int64.lt_irrefl (heq ▸ hbefore p hpq)
    · exact Int64.lt_irrefl (heq ▸ hafter p (Nat.le_of_not_lt hpq) hp)
  have hle {p q : Nat} (hp : (vacant p).IsPlace size idAt target)
      (hq : (vacant q).IsPlace size idAt target) : p ≤ q := by
    refine Nat.le_of_not_lt fun hlt => ?_
    exact Int64.lt_irrefl (Int64.lt_trans (hp.2.1 q hlt)
      (hq.2.2 q (Nat.le_refl q) (Nat.lt_of_lt_of_le hlt hp.1)))
  cases place with
  | held p =>
    cases place' with
    | held q => rw [hids.inj h.1 h'.1 (h.2.trans h'.2.symm)]
    | vacant q => exact (hdiffer h h').elim
  | vacant p =>
    cases place' with
    | held q => exact (hdiffer h' h).elim
    | vacant q => rw [Nat.le_antisymm (hle h h') (hle h' h)]

theorem search_eq_iff (hids : Ascend size idAt) {place : Place} :
    search size target idAt = place ↔ place.IsPlace size idAt target :=
  ⟨fun h => h ▸ search_isPlace hids target, (search_isPlace hids target).unique hids⟩

theorem Place.position?_eq_some {place : Place} {p : Nat} :
    place.position? = some p ↔ place = .held p := by
  cases place <;> simp [position?]

/-- A search ends at a position exactly if that position holds the id. -/
theorem position?_search_eq_some (hids : Ascend size idAt) {p : Nat} :
    (search size target idAt).position? = some p ↔ p < size ∧ idAt p = target :=
  Place.position?_eq_some.trans (search_eq_iff hids)

/-- A search fails exactly if no position holds the id. -/
theorem position?_search_eq_none (hids : Ascend size idAt) :
    (search size target idAt).position? = none ↔ ∀ p < size, idAt p ≠ target := by
  rw [Option.eq_none_iff_forall_ne_some]
  simp only [ne_eq, position?_search_eq_some hids, not_and]

/-! ## Ids in a list -/

section List

variable {ids : List Int64}

theorem ascend_getElem? (hids : ids.Pairwise (· < ·)) :
    Ascend ids.length fun p => ids[p]?.getD 0 := by
  intro p q hpq hq
  have hp : p < ids.length := Nat.lt_trans hpq hq
  simp only [List.getElem?_eq_getElem hp, List.getElem?_eq_getElem hq, Option.getD_some]
  exact List.pairwise_iff_getElem.1 hids p q hp hq hpq

/-- The search among the ids of an ascending list ends where the list has the id. -/
theorem position?_search_getElem? (hids : ids.Pairwise (· < ·)) {p : Nat} :
    (search ids.length target fun p => ids[p]?.getD 0).position? = some p ↔
      ids[p]? = some target := by
  rw [position?_search_eq_some (ascend_getElem? hids), List.getElem?_eq_some_iff]
  constructor
  · rintro ⟨hp, heq⟩
    rw [List.getElem?_eq_getElem hp, Option.getD_some] at heq
    exact ⟨hp, heq⟩
  · rintro ⟨hp, heq⟩
    rw [List.getElem?_eq_getElem hp, Option.getD_some]
    exact ⟨hp, heq⟩

theorem isSome_search_getElem? (hids : ids.Pairwise (· < ·)) :
    (search ids.length target fun p => ids[p]?.getD 0).position?.isSome ↔ target ∈ ids := by
  rw [Option.isSome_iff_exists, List.mem_iff_getElem?]
  exact exists_congr fun p => position?_search_getElem? hids

end List

/-! ## What is read -/

/-- Reads an id and notes where it was read. -/
def noting (idAt : Nat → Int64) (p : Nat) : StateM (List Nat) Int64 := do
  modify (· ++ [p])
  return idAt p

theorem run_noting_bind (p : Nat) (next : Int64 → StateM (List Nat) Place) (noted : List Nat) :
    (noting idAt p >>= next).run noted = (next (idAt p)).run (noted ++ [p]) := rfl

/-- The positions lie between bounds, and there are no more of them than halvings of what lies
    there. -/
structure Halves (low high : Nat) (read : List Nat) : Prop where
  between : ∀ p ∈ read, low ≤ p ∧ p < high
  length_le : ∀ k, high - low < 2 ^ k → read.length ≤ k

theorem Halves.nil (low high : Nat) : Halves low high [] := ⟨nofun, fun k _ => Nat.zero_le k⟩

/-- One more position is read if no more than half is left to read from then on. -/
theorem Halves.cons {low high low' high' p : Nat} {read : List Nat} (h : Halves low' high' read)
    (hp : low ≤ p ∧ p < high) (hlow : low ≤ low') (hhigh : high' ≤ high)
    (hhalf : 2 * (high' - low') ≤ high - low) : Halves low high (p :: read) where
  between := List.forall_mem_cons.2 ⟨hp, fun q hq =>
    ⟨Nat.le_trans hlow (h.between q hq).1, Nat.lt_of_lt_of_le (h.between q hq).2 hhigh⟩⟩
  length_le k hk := by
    cases k with
    | zero => omega
    | succ k => exact Nat.succ_le_succ (h.length_le k (by rw [Nat.pow_succ] at hk; omega))

/-- The search comes to the same if it notes what it reads. -/
theorem run_searchBetween_noting (idAt : Nat → Int64) (target : Int64) (low high : Nat)
    (noted : List Nat) :
    ∃ read, Halves low high read ∧
      (searchBetween (noting idAt) target low high).run noted
        = (Id.run (searchBetween (fun p => pure (idAt p)) target low high), noted ++ read) := by
  induction low, high using searchBetween.induct generalizing noted with
  | case1 low high hlt middle ihRight ihLeft =>
    have hmiddle : low ≤ middle ∧ middle < high := by omega
    rw [searchBetween, searchBetween, if_pos hlt, if_pos hlt, pure_bind, run_noting_bind]
    by_cases hid : idAt middle < target
    · obtain ⟨read, hread, hrun⟩ := ihRight (noted ++ [middle])
      refine ⟨middle :: read, hread.cons hmiddle (by omega) (Nat.le_refl _) (by omega), ?_⟩
      rw [if_pos hid, if_pos hid, hrun, List.append_assoc]
      rfl
    rw [if_neg hid, if_neg hid]
    by_cases hid' : target < idAt middle
    · obtain ⟨read, hread, hrun⟩ := ihLeft (noted ++ [middle])
      refine ⟨middle :: read, hread.cons hmiddle (Nat.le_refl _) (by omega) (by omega), ?_⟩
      rw [if_pos hid', if_pos hid', hrun, List.append_assoc]
      rfl
    · rw [if_neg hid', if_neg hid']
      exact ⟨[middle], (Halves.nil low low).cons hmiddle (Nat.le_refl _) (by omega) (by omega), rfl⟩
  | case2 low high hlt =>
    rw [searchBetween, if_neg hlt, searchBetween, if_neg hlt]
    exact ⟨[], .nil low high, by rw [List.append_nil]; rfl⟩

/-- Among ascending ids the search is held by a position exactly if that has the id, and is else
    vacant exactly before the first larger id. It reads positions below the size only, and reads at
    most one more of them than the size can be halved. -/
theorem search_exact (hids : Ascend size idAt) (target : Int64) :
    (∃ read, (searchBetween (noting idAt) target 0 size).run [] = (search size target idAt, read) ∧
      (∀ p ∈ read, p < size) ∧ read.length ≤ size.log2 + 1) ∧
    (∀ p, search size target idAt = .held p ↔ p < size ∧ idAt p = target) ∧
    ∀ p, search size target idAt = .vacant p ↔
      p ≤ size ∧ (∀ q < p, idAt q < target) ∧ ∀ q, p ≤ q → q < size → target < idAt q := by
  obtain ⟨read, hread, hrun⟩ := run_searchBetween_noting idAt target 0 size []
  exact ⟨⟨read, hrun, fun p hp => (hread.between p hp).2, hread.length_le _ Nat.lt_log2_self⟩,
    fun _ => search_eq_iff hids, fun _ => search_eq_iff hids⟩

/-- Among the least id, one in between and the largest, the largest is found and zero is missing. -/
theorem search_exact_extremes :
    let ids : List Int64 := [Int64.minValue, -1, Int64.maxValue]
    let idAt (p : Nat) := ids[p]?.getD 0
    Ascend 3 idAt ∧ search 3 Int64.maxValue idAt = .held 2 ∧ search 3 0 idAt = .vacant 2 := by
  intro ids idAt
  have hids : Ascend 3 idAt := ascend_getElem? (by decide : ids.Pairwise (· < ·))
  obtain ⟨-, hheld, -⟩ := search_exact hids Int64.maxValue
  obtain ⟨-, -, hvacant⟩ := search_exact hids 0
  refine ⟨hids, (hheld 2).2 ⟨by decide, rfl⟩, (hvacant 2).2 ⟨by decide, by decide, ?_⟩⟩
  intro q hq hsize
  obtain rfl : q = 2 := by omega
  decide

/-! ## Ascending lists -/

/-- Lists with the same members are one list if these ascend in both. -/
theorem eq_of_ascending_map {α : Type} {f : α → Int64} {xs ys : List α}
    (h : (xs.map f).Pairwise (· < ·)) (h' : (ys.map f).Pairwise (· < ·))
    (hmem : ∀ x, x ∈ xs ↔ x ∈ ys) : xs = ys := by
  rw [List.pairwise_map] at h h'
  have hperm : xs.Perm ys := (List.perm_ext_iff_of_nodup
    (h.imp fun hlt heq => Std.ne_of_lt hlt (congrArg f heq))
    (h'.imp fun hlt heq => Std.ne_of_lt hlt (congrArg f heq))).2 hmem
  exact hperm.eq_of_pairwise
    (fun _ _ _ _ hlt hgt => absurd (Std.lt_trans hlt hgt) Int64.lt_irrefl) h h'

/-- Ascending lists of the same ids are one list. -/
theorem eq_of_ascending {ids ids' : List Int64} (h : ids.Pairwise (· < ·))
    (h' : ids'.Pairwise (· < ·)) (hmem : ∀ id, id ∈ ids ↔ id ∈ ids') : ids = ids' :=
  eq_of_ascending_map (f := id) (by rwa [List.map_id]) (by rwa [List.map_id]) hmem

end ColumnStore

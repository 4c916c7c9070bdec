import ColumnStore.Proofs.Entity
import ColumnStore.Proofs.Table.Register

/-!
# Registers of conforming entities

A call that adds a conforming entity is never a misfit, so a register has a row for each id that
was called, and knows by the ids alone whether they have come in ascending order
(`Register.mem_run`, `Register.ascending_run`). The row of an entity reads like its copy
(`Register.get?_toRecord`).
-/

namespace ColumnStore.Table.Register

variable {schema : Schema} {r : Register} {call : AddCall} {id : Int64}

theorem misfit?_eq_none (h : Entity.Conforms schema call.value) :
    misfit? schema call.fields = none := by
  rw [misfit?, List.find?_eq_none]
  rintro ⟨a, v⟩ hmem
  simp [(h a v hmem).2]

/-! ## The row of an entity -/

section Row

variable {ε : Type} [Entity ε] {e : ε} {a : Attribute} {v : Value}

/-- The value that the fields of a lawful entity have for an attribute is in one of them. -/
theorem valuesOf_eq_some (h : Entity.Lawful e) (ha : a.name ≠ Attribute.idName) :
    valuesOf (Entity.fields e) a = some v ↔ (a, v) ∈ Entity.fields e := by
  have hmem {w : Value} (hw : valuesOf (Entity.fields e) a = some w) :
      (a, w) ∈ Entity.fields e := by
    obtain ⟨before, after, heq, -⟩ := List.lookup_eq_some_iff.1 hw
    rw [← List.mem_reverse, heq]
    exact List.mem_append_right _ List.mem_cons_self
  refine ⟨hmem, ?_⟩
  intro hv
  rcases hw : valuesOf (Entity.fields e) a with _ | w
  · have hne := List.lookup_eq_none_iff.1 hw (a, v) (List.mem_reverse.2 hv)
    exact absurd hne (by simp)
  · rw [h.eq_of_mem_fields ha hv (hmem hw)]

/-- The copy of a conforming entity has under each name what a row of its fields has. -/
theorem get?_toRecord (h : Entity.Lawful e) (hschema : Entity.Conforms schema e) (name : String) :
    (Entity.toRecord e).get? name
      = Entry.get? ⟨Entity.id e, valuesOf (Entity.fields e)⟩ schema name := by
  by_cases hname : name = Attribute.idName
  · subst hname
    rw [h.get?_id, Entry.get?, Schema.attribute?_idName, Option.bind_some, Entry.value_entityId]
  · ext v
    rw [h.get?_eq_some name v hname, Entry.get?, Option.bind_eq_some_iff]
    constructor
    · rintro ⟨a, hmem, rfl⟩
      refine ⟨a, Schema.attribute?_eq_some.2 ⟨(hschema a v hmem).1, rfl⟩, ?_⟩
      rw [Entry.value_of_name_ne _ hname]
      exact (valuesOf_eq_some h hname).2 hmem
    · rintro ⟨a, ha, hv⟩
      obtain ⟨-, rfl⟩ := Schema.attribute?_eq_some.1 ha
      rw [Entry.value_of_name_ne _ hname] at hv
      exact ⟨a, (valuesOf_eq_some h hname).1 hv, rfl⟩

end Row

/-! ## Runs of conforming calls -/

theorem add_known (h : misfit? schema call.fields = none) (hid : call.id ∈ r.rows) :
    (∀ id, id ∈ (r.add schema call).2.rows ↔ id ∈ r.rows) ∧
      (r.add schema call).2.ascending = r.ascending := by
  rcases hreplace : call.replace with _ | _
  · rw [add_dropped h hid hreplace]
    exact ⟨fun _ => .rfl, rfl⟩
  · rcases hascending : r.ascending with _ | _
    · rw [add_refused h hid hreplace hascending]
      exact ⟨fun _ => .rfl, hascending⟩
    · rw [add_replaced h hid hreplace hascending]
      refine ⟨?_, hascending⟩
      intro id
      rw [Std.TreeMap.mem_insert, or_iff_right_of_imp]
      intro heq
      rwa [← Std.LawfulEqOrd.eq_of_compare heq]

theorem mem_add (h : misfit? schema call.fields = none) :
    id ∈ (r.add schema call).2.rows ↔ id ∈ r.rows ∨ id = call.id := by
  by_cases hid : call.id ∈ r.rows
  · rw [(add_known h hid).1, or_iff_left_of_imp]
    rintro rfl
    exact hid
  · rw [add_fresh h hid, Std.TreeMap.mem_insert, Std.LawfulEqOrd.compare_eq_iff_eq, or_comm,
      eq_comm]

theorem ascending_add (h : misfit? schema call.fields = none) :
    (r.add schema call).2.ascending = true ↔
      r.ascending = true ∧ ¬(call.id ∉ r.rows ∧ ∃ k ∈ r.rows, call.id < k) := by
  by_cases hid : call.id ∈ r.rows
  · rw [(add_known h hid).2]
    exact (and_iff_left fun hlate => hlate.1 hid).symm
  · rw [add_fresh h hid, Bool.and_eq_true, List.all_eq_true]
    refine and_congr_right ?_
    intro _
    simp only [Std.TreeMap.mem_keys, decide_eq_true_eq]
    constructor
    · rintro hall ⟨-, k, hk, hlt⟩
      exact Int64.lt_irrefl (Int64.lt_trans hlt (hall k hk))
    · intro hlate k hk
      refine Int64.lt_of_le_of_ne (Int64.not_lt.1 fun hlt => hlate ⟨hid, k, hk, hlt⟩) ?_
      rintro rfl
      exact hid hk

variable {calls : List AddCall}

/-- There is a row for each id that was called. -/
theorem mem_run (h : ∀ call ∈ calls, misfit? schema call.fields = none) :
    id ∈ (run (add schema) calls {}).2.rows ↔ id ∈ calls.map AddCall.id := by
  induction calls using List.reverseRecOn with
  | nil => exact ⟨fun hid => absurd hid Std.TreeMap.not_mem_emptyc, nofun⟩
  | append_singleton rest call ih =>
    rw [List.forall_mem_append, List.forall_mem_singleton] at h
    rw [run_concat, mem_add h.2, ih h.1, List.map_append, List.mem_append, List.map_singleton,
      List.mem_singleton]

/-- The ids have come in ascending order if none of them came late. -/
theorem ascending_run (h : ∀ call ∈ calls, misfit? schema call.fields = none) :
    (run (add schema) calls {}).2.ascending = true ↔ ¬Scattered (calls.map AddCall.id) := by
  induction calls using List.reverseRecOn with
  | nil => exact iff_of_true rfl not_scattered_nil
  | append_singleton rest call ih =>
    rw [List.forall_mem_append, List.forall_mem_singleton] at h
    rw [run_concat, ascending_add h.2, ih h.1, List.map_append, List.map_singleton,
      scattered_concat, not_or]
    simp only [mem_run h.1]

end ColumnStore.Table.Register

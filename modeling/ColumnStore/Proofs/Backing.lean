import ColumnStore.Entity
import ColumnStore.Proofs.Postings
import Mathlib.Data.List.Forall2

/-!
# Backings of collections

A backing is what a collection answers, however it keeps its entities (`Backing`). It is sound
if its answers are those that its members give (`Backing.Sound`). Two sound backings whose
members are the same one by one, as far as some names go, therefore agree on all questions
about these names (`Sound.agreeOn`), even if their members are entities of different kinds.
-/

namespace ColumnStore

/-- The answers of a collection of entities. -/
structure Backing (ε : Type) where
  size : Nat
  /-- The ids in order. -/
  ids : List Int64
  /-- The entities in order. -/
  members : List ε
  /-- The entity with an id. -/
  lookup? : Int64 → Option ε
  /-- Some entity has the id. -/
  contains : Int64 → Bool
  /-- The entities that hold a value under a name. -/
  find : String → Value → List ε
  /-- The values under a name with the entities that hold each. -/
  grouped : String → List (Value × List ε)

namespace Backing

variable {ε δ : Type} [Entity ε] [Entity δ]

/-- The answers are those that the members give. -/
structure Sound (b : Backing ε) : Prop where
  size_eq : b.size = b.members.length
  ids_eq : b.ids = b.members.map Entity.id
  ascending : b.ids.Pairwise (· < ·)
  lookup?_eq_some : ∀ id e, b.lookup? id = some e ↔ e ∈ b.members ∧ Entity.id e = id
  contains_eq : ∀ id, b.contains id = (b.lookup? id).isSome
  find_eq : ∀ name v, b.find name v = b.members.filter fun e => Entity.get? e name = some v
  groups : ∀ name, Postings.Groups (b.grouped name) (b.find name)

/-- The ids of the entities that hold a value under a name. -/
def foundIds (b : Backing ε) (name : String) (v : Value) : List Int64 :=
  (b.find name v).map Entity.id

/-- The values under a name with the ids of the entities that hold each. -/
def groupedIds (b : Backing ε) (name : String) : List (Value × List Int64) :=
  (b.grouped name).map fun group => (group.1, group.2.map Entity.id)

/-- Two entities have one id, and the same values under some names. -/
def SameOn (names : String → Prop) (e : ε) (f : δ) : Prop :=
  Entity.id e = Entity.id f ∧ ∀ name, names name → Entity.get? e name = Entity.get? f name

/-- Two backings have the same entities, and the same answers to all questions about some
    names. -/
structure AgreeOn (names : String → Prop) (b : Backing ε) (c : Backing δ) : Prop where
  size_eq : b.size = c.size
  ids_eq : b.ids = c.ids
  members : List.Forall₂ (SameOn names) b.members c.members
  lookup? : ∀ id, Option.Rel (SameOn names) (b.lookup? id) (c.lookup? id)
  contains_eq : ∀ id, b.contains id = c.contains id
  foundIds_eq : ∀ name, names name → ∀ v, b.foundIds name v = c.foundIds name v
  /-- No value has two groups, so that the groups are a map. -/
  nodup_groupedIds : ∀ name, ((b.groupedIds name).map Prod.fst).Nodup
  groupedIds_perm : ∀ name, names name → (b.groupedIds name).Perm (c.groupedIds name)

variable {b : Backing ε} {c : Backing δ} {names : String → Prop}

theorem map_id_eq {es : List ε} {fs : List δ} (h : List.Forall₂ (SameOn names) es fs) :
    es.map Entity.id = fs.map Entity.id := by
  induction h with
  | nil => rfl
  | cons hef _ ih => rw [List.map_cons, List.map_cons, hef.1, ih]

/-- What an entity of the one list is, some entity of the other list is, too. -/
theorem exists_sameOn {es : List ε} {fs : List δ} (h : List.Forall₂ (SameOn names) es fs) {e : ε}
    (he : e ∈ es) : ∃ f ∈ fs, SameOn names e f := by
  induction h with
  | nil => exact absurd he List.not_mem_nil
  | cons hef _ ih =>
    rcases List.mem_cons.1 he with rfl | he
    · exact ⟨_, List.mem_cons_self, hef⟩
    · obtain ⟨f, hf, hef⟩ := ih he
      exact ⟨f, List.mem_cons_of_mem _ hf, hef⟩

theorem SameOn.symm {e : ε} {f : δ} (h : SameOn names e f) : SameOn names f e :=
  ⟨h.1.symm, fun name hname => (h.2 name hname).symm⟩

namespace Sound

theorem groups_groupedIds (hb : b.Sound) (name : String) :
    Postings.Groups (b.groupedIds name) (b.foundIds name) := (hb.groups name).map Entity.id

variable (hb : b.Sound) (hc : c.Sound) (h : List.Forall₂ (SameOn names) b.members c.members)
include hb hc h

theorem rel_lookup? (id : Int64) :
    Option.Rel (SameOn names) (b.lookup? id) (c.lookup? id) := by
  rcases he : b.lookup? id with _ | e
  · rcases hf : c.lookup? id with _ | f
    · exact .none
    · obtain ⟨hmem, rfl⟩ := (hc.lookup?_eq_some id f).1 hf
      obtain ⟨e, hmem', hfe⟩ := exists_sameOn (h.flip.imp fun _ _ => SameOn.symm) hmem
      exact absurd (he.symm.trans ((hb.lookup?_eq_some _ e).2 ⟨hmem', hfe.1.symm⟩)) nofun
  · obtain ⟨hmem, rfl⟩ := (hb.lookup?_eq_some id e).1 he
    obtain ⟨f, hmem', hef⟩ := exists_sameOn h hmem
    rw [(hc.lookup?_eq_some _ f).2 ⟨hmem', hef.1.symm⟩]
    exact .some hef

theorem foundIds_eq {name : String} (hname : names name) (v : Value) :
    b.foundIds name v = c.foundIds name v := by
  rw [foundIds, foundIds, hb.find_eq, hc.find_eq]
  refine map_id_eq (List.rel_filter ?_ h)
  intro e f hef
  dsimp only
  rw [hef.2 name hname]

/-- Sound backings of the same entities have the same answers. -/
theorem agreeOn : AgreeOn names b c where
  size_eq := by rw [hb.size_eq, hc.size_eq, h.length_eq]
  ids_eq := by rw [hb.ids_eq, hc.ids_eq, map_id_eq h]
  members := h
  lookup? := hb.rel_lookup? hc h
  contains_eq id := by
    rw [hb.contains_eq, hc.contains_eq]
    have hrel := hb.rel_lookup? hc h id
    generalize b.lookup? id = e?, c.lookup? id = f? at hrel
    rcases hrel <;> rfl
  foundIds_eq name hname := hb.foundIds_eq hc h hname
  nodup_groupedIds name := (hb.groups_groupedIds name).nodup
  groupedIds_perm name hname := by
    have hgroups := hb.groups_groupedIds name
    rw [funext (hb.foundIds_eq hc h hname)] at hgroups
    exact hgroups.perm (hc.groups_groupedIds name)

end Sound

end Backing

end ColumnStore

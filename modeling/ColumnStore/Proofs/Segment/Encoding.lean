import ColumnStore.Proofs.Segment.Ladder

/-!
# What encodings represent

An encoding represents the values that some content of a slot stands for, bit for bit
(`Encoding.Represents`). One encoding of numbers is narrower than another if a slot takes fewer
bytes (`Encoding.Narrower`).

The ladder of a format has all formats of the kind that are not narrower (`Format.mem_ladder`),
and the first one on it that holds a value is the narrowest of those that do
(`Format.not_narrower_of_fitting?`).
-/

namespace ColumnStore

namespace Encoding

/-- Some content of a slot stands for the value. -/
def Represents : Encoding → Value → Prop
  | .numbers f, v => ∃ p, f.decode p = v
  | .objects, v => v.kind.isNumeric = false

/-- A slot takes fewer bytes, where both encodings tell how many. -/
def Narrower (e e' : Encoding) : Prop :=
  match e.slotBytes?, e'.slotBytes? with
  | some bytes, some bytes' => bytes < bytes'
  | _, _ => False

instance : DecidableRel Narrower := fun e e' => by
  unfold Narrower
  split <;> infer_instance

theorem not_narrower_self (e : Encoding) : ¬e.Narrower e := by
  rcases e with f | _
  · cases f <;> decide
  · decide

end Encoding

namespace Format

open Encoding

variable {f g h : Format} {v : Value}

theorem represents_iff : (numbers f).Represents v ↔ f.holds v := holds_iff.symm

theorem mem_ladder (hkind : g.kind = f.kind) (hwide : ¬(numbers g).Narrower (numbers f)) :
    g ∈ f.ladder := by
  revert hkind hwide
  cases f <;> cases g <;> decide

theorem pairwise_ladder (f : Format) :
    f.ladder.Pairwise fun g h => ¬(numbers h).Narrower (numbers g) := by
  cases f <;> decide

/-- No format that is at least as wide as the first holds a value and is narrower than the one
    that fits. -/
theorem not_narrower_of_fitting? (hfit : f.fitting? v = some g)
    (hv : (numbers h).Represents v) (hwide : ¬(numbers h).Narrower (numbers f)) :
    ¬(numbers h).Narrower (numbers g) := by
  obtain ⟨hg, before, after, hladder, hbefore⟩ := List.find?_eq_some_iff_append.1 hfit
  have hholds : h.holds v := represents_iff.1 hv
  have hkind : h.kind = f.kind := by
    have hmem : g ∈ f.ladder := hladder ▸ List.mem_append_right _ List.mem_cons_self
    rw [← kind_of_holds hholds, kind_of_holds hg, kind_of_mem_ladder hmem]
  have hmem : h ∈ before ++ g :: after := hladder ▸ mem_ladder hkind hwide
  rcases List.mem_append.1 hmem with hmem | hmem
  · -- What comes before the format that fits does not hold the value.
    have := hbefore h hmem
    rw [hholds] at this
    cases this
  · rcases List.mem_cons.1 hmem with rfl | hmem
    · exact not_narrower_self _
    · have hpairwise := (List.pairwise_append.1 (hladder ▸ f.pairwise_ladder)).2.1
      exact (List.pairwise_cons.1 hpairwise).1 h hmem

end Format

end ColumnStore

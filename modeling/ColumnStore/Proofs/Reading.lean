import ColumnStore.Attribute
import ColumnStore.Proofs.Text.Integer

/-!
# Reading integers is exact

A text spells an integer if a numeral of it is left without the blanks around the text
(`Text.Spells`). An attribute of longs reads the texts that spell an integer in the range of longs,
each as that integer, and refuses all others with an error that has the whole text; one of ints does
so in the range of ints (`Attribute.ReadsIntegers`). What is written of a value is read as that
value, whatever blanks are around it. A text attribute takes every text as it is
(`Attribute.readValue_exact`).
-/

namespace ColumnStore

namespace Text

variable {input before after : String} {z : Int}

/-- Without the blanks around it, the text is a numeral of the integer. -/
def Spells (input : String) (z : Int) : Prop :=
  ∃ t, Strips input.toList t ∧ Numeral t z

/-- A text without other characters than blanks. -/
def Blank (s : String) : Prop := ∀ c ∈ s.toList, isBlank c = true

instance : DecidablePred Blank := fun s =>
  decidable_of_iff (s.toList.all isBlank = true) List.all_eq_true

theorem spells_iff : Spells input z ↔ readInteger? (trim input.toList) = some z := by
  rw [readInteger?_eq_some_iff]
  constructor
  · rintro ⟨t, hstrips, ht⟩
    rwa [trim_eq_iff.2 hstrips]
  · exact fun h => ⟨_, strips_trim _, h⟩

/-- Between blanks an integer is spelled as it is written. -/
theorem spells_pad (hbefore : Blank before) (hafter : Blank after) (z : Int) :
    Spells (before ++ toString z ++ after) z := by
  refine ⟨(toString z).toList, ⟨before.toList, after.toList, ?_, hbefore, hafter, ?_⟩,
    numeral_toString z⟩
  · rw [String.toList_append, String.toList_append]
  · exact bare_of_forall (numeral_toString z).not_isBlank

end Text

namespace Value

variable {z : Int} {v : Value}

theorem ofLong?_eq_some_iff : ofLong? z = some v ↔ ∃ n : Int64, n.toInt = z ∧ v = .long n := by
  rw [ofLong?, Option.ite_none_right_eq_some, Option.some_inj]
  constructor
  · rintro ⟨⟨hlow, hhigh⟩, rfl⟩
    exact ⟨.ofInt z, Int64.toInt_ofInt_of_le hlow (Int.lt_of_le_sub_one hhigh), rfl⟩
  · rintro ⟨n, rfl, rfl⟩
    exact ⟨⟨n.le_toInt, Int.le_sub_one_of_lt n.toInt_lt⟩, by rw [Int64.ofInt_toInt]⟩

theorem ofInt?_eq_some_iff : ofInt? z = some v ↔ ∃ n : Int32, n.toInt = z ∧ v = .int n := by
  rw [ofInt?, Option.ite_none_right_eq_some, Option.some_inj]
  constructor
  · rintro ⟨⟨hlow, hhigh⟩, rfl⟩
    exact ⟨.ofInt z, Int32.toInt_ofInt_of_le hlow (Int.lt_of_le_sub_one hhigh), rfl⟩
  · rintro ⟨n, rfl, rfl⟩
    exact ⟨⟨n.le_toInt, Int.le_sub_one_of_lt n.toInt_lt⟩, by rw [Int32.ofInt_toInt]⟩

end Value

namespace Attribute

open Text

variable {ι : Type} {a : Attribute} {value : ι → Value} {toInt : ι → Int} {bound : Int}

/-- An attribute of integers in a range around zero reads all that spells one of them, and nothing
    else. -/
structure ReadsIntegers (a : Attribute) (value : ι → Value) (toInt : ι → Int) (bound : Int) :
    Prop where
  range : ∀ z, (∃ n, toInt n = z) ↔ -bound ≤ z ∧ z < bound
  ok_iff : ∀ input v, a.readValue input = .ok v ↔ ∃ n, Spells input (toInt n) ∧ v = value n
  /-- What is refused is told with all blanks. -/
  error_iff : ∀ input e, a.readValue input = .error e ↔
    e = .unreadable a.name a.kind input ∧ ∀ z, Spells input z → ¬(-bound ≤ z ∧ z < bound)
  ok_display : ∀ before after, Blank before → Blank after → ∀ n,
    a.readValue (before ++ (value n).display ++ after) = .ok (value n)

theorem readValue_eq_ok_iff {input : String} {v : Value} :
    a.readValue input = .ok v ↔ Value.read? a.kind input = some v := by
  rw [readValue]
  cases Value.read? a.kind input <;> simp

theorem readValue_eq_error_iff {input : String} {e : SchemaError} :
    a.readValue input = .error e ↔
      e = .unreadable a.name a.kind input ∧ Value.read? a.kind input = none := by
  rw [readValue]
  cases Value.read? a.kind input <;> simp [eq_comm]

/-- An attribute whose values are numbers of a machine type, written as integers, reads these if it
    takes the numerals that are in the range of the type. -/
theorem readsIntegers_of {of? : Int → Option Value} {ofInt : Int → ι}
    (toInt_ofInt : ∀ {z}, -bound ≤ z → z < bound → toInt (ofInt z) = z)
    (le_toInt : ∀ n, -bound ≤ toInt n) (toInt_lt : ∀ n, toInt n < bound)
    (take : ∀ z v, of? z = some v ↔ ∃ n, toInt n = z ∧ v = value n)
    (read : ∀ input, Value.read? a.kind input = (readInteger? (trim input.toList)).bind of?)
    (display : ∀ n, (value n).display = toString (toInt n)) :
    a.ReadsIntegers value toInt bound := by
  have range (z : Int) : (∃ n, toInt n = z) ↔ -bound ≤ z ∧ z < bound := by
    constructor
    · rintro ⟨n, rfl⟩
      exact ⟨le_toInt n, toInt_lt n⟩
    · exact fun h => ⟨ofInt z, toInt_ofInt h.1 h.2⟩
  have ok_iff (input : String) (v : Value) :
      a.readValue input = .ok v ↔ ∃ n, Spells input (toInt n) ∧ v = value n := by
    rw [readValue_eq_ok_iff, read, Option.bind_eq_some_iff]
    simp only [← spells_iff, take]
    constructor
    · rintro ⟨_, hspells, n, rfl, rfl⟩
      exact ⟨n, hspells, rfl⟩
    · rintro ⟨n, hspells, rfl⟩
      exact ⟨_, hspells, n, rfl, rfl⟩
  refine ⟨range, ok_iff, fun input e => ?_, fun before after hbefore hafter n => ?_⟩
  · rw [readValue_eq_error_iff, Option.eq_none_iff_forall_ne_some]
    refine and_congr_right fun _ => ⟨fun hnone z hspells hrange => ?_, fun hout v hread => ?_⟩
    · obtain ⟨n, rfl⟩ := (range z).2 hrange
      exact hnone _ (readValue_eq_ok_iff.1 ((ok_iff input _).2 ⟨n, hspells, rfl⟩))
    · obtain ⟨n, hspells, -⟩ := (ok_iff input v).1 (readValue_eq_ok_iff.2 hread)
      exact hout _ hspells ((range _).1 ⟨n, rfl⟩)
  · rw [ok_iff, display]
    exact ⟨n, spells_pad hbefore hafter _, rfl⟩

theorem readsIntegers_long (name : String) :
    ReadsIntegers ⟨name, .long⟩ Value.long Int64.toInt (2 ^ 63) :=
  readsIntegers_of Int64.toInt_ofInt_of_le Int64.le_toInt Int64.toInt_lt
    (fun _ _ => Value.ofLong?_eq_some_iff) (fun _ => rfl) (fun _ => rfl)

theorem readsIntegers_int (name : String) :
    ReadsIntegers ⟨name, .int⟩ Value.int Int32.toInt (2 ^ 31) :=
  readsIntegers_of Int32.toInt_ofInt_of_le Int32.le_toInt Int32.toInt_lt
    (fun _ _ => Value.ofInt?_eq_some_iff) (fun _ => rfl) (fun _ => rfl)

/-- Attributes of longs and of ints read exactly the numerals of their ranges, between any blanks,
    and a text attribute takes every text with all its blanks. -/
theorem readValue_exact (name : String) :
    ReadsIntegers ⟨name, .long⟩ Value.long Int64.toInt (2 ^ 63) ∧
      ReadsIntegers ⟨name, .int⟩ Value.int Int32.toInt (2 ^ 31) ∧
      ∀ input, readValue ⟨name, .text⟩ input = .ok (.text input) :=
  ⟨readsIntegers_long name, readsIntegers_int name, fun _ => rfl⟩

/-- The least int is read between blanks that are not ASCII. -/
theorem readValue_exact_minValue :
    Blank "\u2003" ∧ Blank "\u0085\n" ∧
      count.readValue ("\u2003" ++ (Value.int Int32.minValue).display ++ "\u0085\n")
        = .ok (.int Int32.minValue) :=
  ⟨by decide, by decide,
    (readValue_exact "count").2.1.ok_display "\u2003" "\u0085\n" (by decide) (by decide)
      Int32.minValue⟩

/-- Zeros may lead, but the number after the greatest int is refused and not wrapped around. -/
example : count.readValue "+002147483647" = .ok (.int Int32.maxValue) ∧
    count.readValue " 2147483648" = .error (.unreadable "count" .int " 2147483648") := by
  decide

end Attribute

end ColumnStore

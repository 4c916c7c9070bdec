import ColumnStore.Segment.Format

/-!
# What formats keep

A format reads back exactly what it was given to keep (`decode_of_encode?`), and it holds every
value that one of its payloads stands for (`holds_iff`). The two narrow readers, for integers and
for numbers, see the same value as the full one (`integer?_eq`, `number?_decode`).
-/

namespace ColumnStore

namespace Half

/-- A byte stands for no double but its half. -/
theorem decode_of_encode? {x : Double} {s : Int8} (h : encode? x = some s) : decode s = x := by
  simp only [encode?, Option.ite_none_right_eq_some, Option.some.injEq] at h
  obtain ⟨-, hx, rfl⟩ := h
  exact hx

/-- What holds of all 256 patterns of a byte holds of every byte. -/
theorem forall_byte {P : Int8 → Prop} (h : ∀ n : Fin 256, P (Int8.ofNat n)) (s : Int8) : P s := by
  have hs : Int8.ofNat s.toBitVec.toNat = s := by
    rw [← Int8.toInt_inj]
    simp
  rw [← hs]
  exact h ⟨s.toBitVec.toNat, s.toBitVec.isLt⟩

/-- Every byte is kept as the one that it is. -/
theorem encode?_decode (s : Int8) : encode? (decode s) = some s :=
  forall_byte (P := fun s => encode? (decode s) = some s) (by decide +kernel) s

end Half

/-- The value that the default payload stands for, of a kind of numbers. -/
def Kind.zero? : Kind → Option Value
  | .long => some (.long 0)
  | .int => some (.int 0)
  | .double => some (.double ⟨0⟩)
  | .bool | .text => none

theorem Kind.zero?_eq_none {kind : Kind} (h : kind.isNumeric = false) : kind.zero? = none := by
  cases kind <;> first | rfl | cases h

namespace Format

variable {f g : Format} {v : Value}

theorem kind_decode (f : Format) (p : f.Payload) : (f.decode p).kind = f.kind := by
  cases f <;> rfl

/-- What a format keeps reads back bit for bit. -/
theorem decode_of_encode? {p : f.Payload} (h : f.encode? v = some p) : f.decode p = v := by
  cases f <;> cases v <;> simp only [encode?, reduceCtorEq] at h
  case half.double x => rw [decode, Half.decode_of_encode? h]
  -- The full formats keep the payload itself, the narrow ones a payload that widens to it.
  case long64.long n => cases h; rfl
  case int32.int n => cases h; rfl
  case double.double x => cases h; rfl
  all_goals
    split at h
    · rename_i hn
      cases h
      rw [decode, hn]
    · cases h

theorem decode_default (f : Format) : some (f.decode default) = f.kind.zero? := by
  cases f <;> decide

theorem isNumeric_kind (f : Format) : f.kind.isNumeric = true := by cases f <;> rfl

/-- A payload is kept for what it stands for. -/
theorem encode?_decode (f : Format) (p : f.Payload) : f.encode? (f.decode p) = some p := by
  cases f with
  | long16 => rw [decode, encode?, Int16.toInt16_toInt64, if_pos rfl]
  | long32 => rw [decode, encode?, Int32.toInt32_toInt64, if_pos rfl]
  | int16 => rw [decode, encode?, Int16.toInt16_toInt32, if_pos rfl]
  | half => rw [decode, encode?, Half.encode?_decode]
  | long64 | int32 | double => rfl

/-- A format holds exactly the values that its payloads stand for. -/
theorem holds_iff : f.holds v ↔ ∃ p, f.decode p = v := by
  rw [holds, Option.isSome_iff_exists]
  constructor
  · rintro ⟨p, hp⟩
    exact ⟨p, decode_of_encode? hp⟩
  · rintro ⟨p, rfl⟩
    exact ⟨p, f.encode?_decode p⟩

theorem kind_of_holds (h : f.holds v) : v.kind = f.kind := by
  obtain ⟨p, hp⟩ := Option.isSome_iff_exists.1 h
  rw [← decode_of_encode? hp, kind_decode]

/-! ## The narrow readers -/

theorem integer?_eq (f : Format) (p : f.Payload) : f.integer? p = (f.decode p).integer? := by
  cases f with
  | int16 => rw [integer?, decode, Value.integer?, Int16.toInt64_toInt32]
  | _ => rfl

theorem number?_decode (f : Format) (p : f.Payload) : (f.decode p).number? = some (f.number p) := by
  cases f with
  | long16 => rw [number, decode, Value.number?, Int16.toInt_toInt64]
  | long32 => rw [number, decode, Value.number?, Int32.toInt_toInt64]
  | int16 => rw [number, decode, Value.number?, Int16.toInt_toInt32]
  | _ => rfl

end Format

end ColumnStore

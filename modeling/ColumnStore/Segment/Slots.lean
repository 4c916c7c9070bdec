/-!
# Slots

The storage of a segment of numbers: an array of payloads and, once some slot was left
without a value, a mask that tells which slots have one. Payloads are kept under absent
slots, too, but no reader sees them.

A write past the end fills the slots between with the default payload. What it leaves there
depends on the write: `put` leaves them absent, and `clear` leaves them as the mask it finds
would have them, so that without a mask they are present.
-/

namespace ColumnStore

/-- Payloads with a mask of the present ones; without a mask all are present. -/
structure Slots (α : Type) where
  data : Array α
  mask : Option (Array Bool)
  aligned : ∀ m, mask = some m → m.size = data.size

namespace Slots

variable {α β : Type}

/-- No slots at all. -/
def empty : Slots α := ⟨#[], none, by simp⟩

/-- The number of slots. -/
def size (s : Slots α) : Nat := s.data.size

/-- Some slot was left without a value at some time. -/
def hasMask (s : Slots α) : Bool := s.mask.isSome

/-- The slot has a value. -/
def isPresent (s : Slots α) (slot : Nat) : Bool :=
  slot < s.size && match s.mask with
    | some m => m.getD slot false
    | none => true

/-- The payload of a slot that has a value. -/
def get? (s : Slots α) (slot : Nat) : Option α :=
  if s.isPresent slot then s.data[slot]? else none

/-- Writes a payload. Past the end the slots up to this one become absent. -/
def put [Inhabited α] (s : Slots α) (slot : Nat) (x : α) : Slots α :=
  match s with
  | ⟨data, mask, h⟩ =>
    let size := data.size
    if slot < size then
      ⟨data.setIfInBounds slot x, mask.map (·.setIfInBounds slot true), by
        intro m hm
        obtain ⟨m', hm', rfl⟩ := Option.map_eq_some_iff.1 hm
        simpa using h m' hm'⟩
    else
      -- The gap before the slot is absent, so only a write without one can do without a mask.
      let gap := slot - size
      let marked := mask.getD (.replicate size true) ++ Array.replicate gap false
      ⟨(data ++ Array.replicate gap default).push x,
        if gap = 0 && mask.isNone then none else some (marked.push true), by
          intro m hm
          split at hm
          · simp at hm
          · obtain rfl := Option.some.inj hm
            cases hmask : mask with
            | none => simp [marked, hmask, size]
            | some m' => simp [marked, hmask, h m' hmask]⟩

/-- Takes the value out of a slot. Past the end the slots up to this one become absent where
    there is a mask, and present with the default payload where there is none. -/
def clear [Inhabited α] (s : Slots α) (slot : Nat) : Slots α :=
  match s with
  | ⟨data, mask, h⟩ =>
    if hslot : slot < data.size then
      ⟨data, some ((mask.getD (.replicate data.size true)).setIfInBounds slot false), by
        intro m hm
        obtain rfl := Option.some.inj hm
        cases hmask : mask with
        | none => simp
        | some m' => simp [h m' hmask]⟩
    else
      -- Without a mask so far, the gap gets marked along with the slots that are there.
      let gap := slot - data.size
      let marked := mask.elim (.replicate slot true) (· ++ Array.replicate gap false)
      ⟨data ++ Array.replicate (gap + 1) default, some (marked.push false), by
        intro m hm
        obtain rfl := Option.some.inj hm
        cases hmask : mask with
        | none => simp [marked, hmask, gap]; omega
        | some m' => simp [marked, hmask, h m' hmask]⟩

/-- The same slots with converted payloads. -/
def map (f : α → β) (s : Slots α) : Slots β :=
  ⟨s.data.map f, s.mask, by intro m hm; simpa using s.aligned m hm⟩

/-- The same slots in no more memory than they need. -/
def compact (s : Slots α) : Slots α :=
  ⟨s.data.extract 0 s.data.size, s.mask.map fun m => m.extract 0 m.size, by
    intro m hm
    obtain ⟨m', hm', rfl⟩ := Option.map_eq_some_iff.1 hm
    simpa using s.aligned m' hm'⟩

end Slots

end ColumnStore

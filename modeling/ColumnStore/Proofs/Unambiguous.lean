import ColumnStore.Digest.LittleEndian
import Mathlib.Algebra.Ring.Nat

/-!
# Codes that can be read back

A code writes data in bytes. It is unambiguous on some data if what it writes can be told from
whatever comes after it (`Unambiguous`). Then one thing may be written after the other
(`Unambiguous.append`), lists of a fixed length item by item (`Unambiguous.flatMap`), and lists of
any length if nothing comes after them (`Unambiguous.flatMap_inj`).

Numbers are written in a fixed width, least byte first (`unambiguous_littleEndian`), and bytes
after their number (`unambiguous_lengthPrefixed`).
-/

namespace ColumnStore

variable {α β : Type} {code : α → List UInt8} {P : α → Prop}

/-- What is written can be told from what comes after it. -/
def Unambiguous (code : α → List UInt8) (P : α → Prop) : Prop :=
  ∀ ⦃a b⦄, P a → P b → ∀ ⦃r s⦄, code a ++ r = code b ++ s → a = b ∧ r = s

namespace Unambiguous

/-- What is written in one width can be cut off. -/
theorem of_length {n : Nat} (hlength : ∀ a, P a → (code a).length = n)
    (hinj : ∀ a b, P a → P b → code a = code b → a = b) : Unambiguous code P := by
  intro a b ha hb r s h
  obtain ⟨hcode, hrest⟩ := List.append_inj h ((hlength a ha).trans (hlength b hb).symm)
  exact ⟨hinj a b ha hb hcode, hrest⟩

/-- Data is written as other data that tells what it was. -/
theorem comap {f : β → α} {Q : β → Prop} (h : Unambiguous code P) (hP : ∀ b, Q b → P (f b))
    (hf : ∀ b c, f b = f c → b = c) : Unambiguous (fun b => code (f b)) Q := by
  intro b c hb hc r s heq
  obtain ⟨hfeq, hrest⟩ := h (hP b hb) (hP c hc) heq
  exact ⟨hf b c hfeq, hrest⟩

theorem append {code' : β → List UInt8} {Q : β → Prop} (h : Unambiguous code P)
    (h' : Unambiguous code' Q) :
    Unambiguous (fun p : α × β => code p.1 ++ code' p.2) fun p => P p.1 ∧ Q p.2 := by
  rintro ⟨a, b⟩ ⟨a', b'⟩ ⟨ha, hb⟩ ⟨ha', hb'⟩ r s heq
  rw [List.append_assoc, List.append_assoc] at heq
  obtain ⟨rfl, hsecond⟩ := h ha ha' heq
  obtain ⟨rfl, hrest⟩ := h' hb hb' hsecond
  exact ⟨rfl, hrest⟩

/-- Lists of one length are written item by item. -/
theorem flatMap (h : Unambiguous code P) (n : Nat) :
    Unambiguous (List.flatMap code) fun as => as.length = n ∧ ∀ a ∈ as, P a := by
  intro as bs ⟨hn, has⟩ ⟨hn', hbs⟩ r s heq
  induction as generalizing n bs with
  | nil =>
    obtain rfl := List.length_eq_zero_iff.1 (hn'.trans hn.symm)
    exact ⟨rfl, heq⟩
  | cons a as ih =>
    obtain ⟨b, bs, rfl⟩ := List.exists_cons_of_length_eq_add_one (hn'.trans hn.symm)
    rw [List.flatMap_cons, List.flatMap_cons, List.append_assoc, List.append_assoc] at heq
    obtain ⟨rfl, htail⟩ := h (has a List.mem_cons_self) (hbs b List.mem_cons_self) heq
    obtain ⟨rfl, hrest⟩ := ih as.length rfl (fun x hx => has x (List.mem_cons_of_mem _ hx))
      (Nat.succ_inj.1 (hn'.trans hn.symm)) (fun x hx => hbs x (List.mem_cons_of_mem _ hx)) htail
    exact ⟨rfl, hrest⟩

/-- If no item is written as nothing, the bytes end with the last item. -/
theorem flatMap_inj (h : Unambiguous code P) (hne : ∀ a, code a ≠ []) {as bs : List α}
    (has : ∀ a ∈ as, P a) (hbs : ∀ b ∈ bs, P b) (heq : as.flatMap code = bs.flatMap code) :
    as = bs := by
  induction as generalizing bs with
  | nil =>
    cases bs with
    | nil => rfl
    -- Of two lists that are written alike, neither ends before the other.
    | cons b bs => exact absurd (List.append_eq_nil_iff.1 heq.symm).1 (hne b)
  | cons a as ih =>
    cases bs with
    | nil => exact absurd (List.append_eq_nil_iff.1 heq).1 (hne a)
    | cons b bs =>
      obtain ⟨rfl, hrest⟩ := h (has a List.mem_cons_self) (hbs b List.mem_cons_self) heq
      rw [ih (fun x hx => has x (List.mem_cons_of_mem _ hx))
        (fun x hx => hbs x (List.mem_cons_of_mem _ hx)) hrest]

end Unambiguous

/-! ## Numbers -/

@[simp]
theorem length_littleEndian (width n : Nat) : (littleEndian width n).length = width := by
  induction width generalizing n with
  | zero => rfl
  | succ width ih => rw [littleEndian, List.length_cons, ih]

/-- A number that fits into the bytes is told by them. -/
theorem littleEndian_inj {width m n : Nat} (hm : m < 256 ^ width) (hn : n < 256 ^ width)
    (h : littleEndian width m = littleEndian width n) : m = n := by
  induction width generalizing m n with
  | zero =>
    rw [Nat.pow_zero, Nat.lt_one_iff] at hm hn
    rw [hm, hn]
  | succ width ih =>
    obtain ⟨hlow, hhigh⟩ := List.cons.inj h
    have hmod : m % 256 = n % 256 := by
      have := congrArg UInt8.toNat hlow
      rwa [UInt8.toNat_ofNat', UInt8.toNat_ofNat'] at this
    have hdiv : m / 256 = n / 256 :=
      ih (Nat.div_lt_of_lt_mul (by rwa [Nat.pow_succ'] at hm))
        (Nat.div_lt_of_lt_mul (by rwa [Nat.pow_succ'] at hn)) hhigh
    rw [← Nat.div_add_mod m 256, ← Nat.div_add_mod n 256, hmod, hdiv]

theorem unambiguous_littleEndian (width : Nat) :
    Unambiguous (littleEndian width) (· < 256 ^ width) :=
  .of_length (fun n _ => length_littleEndian width n) fun _ _ => littleEndian_inj

/-- Bytes after their number, if that fits into the bytes for it. -/
theorem unambiguous_lengthPrefixed (width : Nat) :
    Unambiguous (fun bytes : List UInt8 => littleEndian width bytes.length ++ bytes)
      (·.length < 256 ^ width) := by
  intro a b ha hb r s heq
  rw [List.append_assoc, List.append_assoc] at heq
  obtain ⟨hlength, hrest⟩ := unambiguous_littleEndian width ha hb heq
  exact List.append_inj hrest hlength

end ColumnStore

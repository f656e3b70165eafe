import Mathlib.Data.List.TakeWhile

/-!
# Decimals

Numbers as ASCII digits.
-/

namespace EzRemote.Decimal

def isDigit (b : UInt8) : Bool := 48 ≤ b && b ≤ 57

/-- The number that digits stand for. -/
def value (digits : List UInt8) : Nat := digits.foldl (fun n b => 10 * n + (b.toNat - 48)) 0

/-- A number in digits, without leading zeros. -/
def ofNat (n : Nat) : List UInt8 := (Nat.toDigits 10 n).map fun c => UInt8.ofNat c.toNat

theorem isDigit_iff {b : UInt8} : isDigit b = true ↔ 48 ≤ b.toNat ∧ b.toNat ≤ 57 := by
  simp only [isDigit, Bool.and_eq_true, decide_eq_true_eq, UInt8.le_iff_toNat_le]
  exact Iff.rfl

theorem toNat_ofNat_digit {c : Char} (h : c.isDigit = true) :
    (UInt8.ofNat c.toNat).toNat = c.toNat ∧ 48 ≤ c.toNat ∧ c.toNat ≤ 57 := by
  simp only [Char.isDigit, Bool.and_eq_true, decide_eq_true_eq] at h
  have hl : 48 ≤ c.toNat := h.1
  have hu : c.toNat ≤ 57 := h.2
  refine ⟨?_, hl, hu⟩
  rw [UInt8.toNat_ofNat', Nat.mod_eq_of_lt (by omega)]

theorem isDigit_of_mem_ofNat {n : Nat} {b : UInt8} (h : b ∈ ofNat n) : isDigit b = true := by
  obtain ⟨c, hc, rfl⟩ := List.mem_map.mp h
  obtain ⟨hval, hl, hu⟩ :=
    toNat_ofNat_digit (Nat.isDigit_of_mem_toDigits (by decide) (by decide) hc)
  rw [isDigit_iff, hval]
  exact ⟨hl, hu⟩

theorem ofNat_ne_nil (n : Nat) : ofNat n ≠ [] := by
  intro h
  exact Nat.toDigits_ne_nil (List.map_eq_nil_iff.mp h)

theorem value_map {chars : List Char} (h : ∀ c ∈ chars, c.isDigit = true) (n : Nat) :
    (chars.map fun c => UInt8.ofNat c.toNat).foldl (fun n b => 10 * n + (b.toNat - 48)) n =
      Nat.ofDigitChars 10 chars n := by
  induction chars generalizing n with
  | nil => rw [Nat.ofDigitChars_nil, List.map_nil, List.foldl_nil]
  | cons c chars ih =>
    have hval := (toNat_ofNat_digit (h c List.mem_cons_self)).1
    rw [Nat.ofDigitChars_cons, List.map_cons, List.foldl_cons, hval]
    exact ih (fun c hc => h c (List.mem_cons_of_mem _ hc)) _

theorem value_ofNat (n : Nat) : value (ofNat n) = n := by
  have hdigit : ∀ c ∈ Nat.toDigits 10 n, c.isDigit = true :=
    fun c hc => Nat.isDigit_of_mem_toDigits (by decide) (by decide) hc
  unfold value ofNat
  rw [value_map hdigit 0, Nat.ofDigitChars_ten_toDigits]

theorem ofNat_injective : Function.Injective ofNat := by
  intro n m h
  rw [← value_ofNat n, h, value_ofNat]

theorem span_digits {digits rest : List UInt8} (hd : ∀ b ∈ digits, isDigit b = true)
    (hend : ∀ b ∈ rest.head?, isDigit b = false) :
    (digits ++ rest).takeWhile isDigit = digits ∧ (digits ++ rest).dropWhile isDigit = rest := by
  rw [List.takeWhile_append_of_pos hd, List.dropWhile_append_of_pos hd]
  cases rest with
  | nil => exact ⟨List.append_nil _, rfl⟩
  | cons b rest =>
    have hb : ¬ isDigit b = true := by
      rw [hend b rfl]
      decide
    rw [List.takeWhile_cons_of_neg hb, List.dropWhile_cons_of_neg hb]
    exact ⟨List.append_nil _, rfl⟩

/-- A number ends where something else follows its digits. -/
theorem ofNat_append_inj {n m : Nat} {x y : List UInt8} (hx : ∀ b ∈ x.head?, isDigit b = false)
    (hy : ∀ b ∈ y.head?, isDigit b = false) (h : ofNat n ++ x = ofNat m ++ y) : n = m ∧ x = y := by
  obtain ⟨htake, hdrop⟩ := span_digits (fun b hb => isDigit_of_mem_ofNat (n := n) hb) hx
  obtain ⟨htake', hdrop'⟩ := span_digits (fun b hb => isDigit_of_mem_ofNat (n := m) hb) hy
  rw [h] at htake hdrop
  exact ⟨ofNat_injective (htake.symm.trans htake'), hdrop.symm.trans hdrop'⟩

end EzRemote.Decimal

import Mathlib.Data.List.TakeWhile
import Mathlib.Tactic.Conv
import EzRemote.Config

/-!
# String helpers

The helpers of `util.h` that the clients use on paths, C strings and decimals.
-/

namespace EzRemote

def rtrim (str chars : Bytes) : Bytes := (str.reverse.dropWhile (· ∈ chars)).reverse

def ltrim (str chars : Bytes) : Bytes := str.dropWhile (· ∈ chars)

def trim (str chars : Bytes) : Bytes := ltrim (rtrim str chars) chars

/-- `std::string::c_str()` as a C string. -/
def cStr (b : Bytes) : Bytes := b.takeWhile (· ≠ 0)

theorem cStr_of_notMem {b : Bytes} (h : 0 ∉ b) : cStr b = b := by
  apply List.takeWhile_eq_self_iff.mpr
  intro x hx
  have hne : x ≠ 0 := fun h0 => h (h0 ▸ hx)
  simpa using hne

theorem cStr_cStr (b : Bytes) : cStr (cStr b) = cStr b := List.takeWhile_idem

theorem zero_notMem_cStr (b : Bytes) : 0 ∉ cStr b := by
  intro h
  have := List.mem_takeWhile_imp h
  simp at this

/-- `s.find(needle, pos)`; `none` is `npos`. -/
def find (s needle : Bytes) (pos : Nat) : Option Nat :=
  (List.range (s.length + 1)).find? fun i => pos ≤ i && needle.isPrefixOf (s.drop i)

theorem find_lt {s needle : Bytes} {pos i : Nat} (h : find s needle pos = some i)
    (hne : needle ≠ []) : i < s.length := by
  have hmatch := List.find?_some h
  simp only [Bool.and_eq_true, List.isPrefixOf_iff_prefix] at hmatch
  have hlen := hmatch.2.length_le
  have hpos : 0 < needle.length := List.length_pos_iff.mpr hne
  rw [List.length_drop] at hlen
  omega

/-- `isspace` in the C locale. -/
def isSpace (c : UInt8) : Bool := c = 32 || (9 ≤ c && c ≤ 13)

def slash : UInt8 := 47

/-- `Util::ReplaceAll(data, "//", "/")`: the search goes on behind each
replacement. -/
def replaceDoubleSlash : Bytes → Bytes
  | [] => []
  | [b] => [b]
  | a :: b :: data =>
    if a = slash ∧ b = slash then slash :: replaceDoubleSlash data
    else a :: replaceDoubleSlash (b :: data)

theorem decimal_char {n : Int} {c : Char} (h : c ∈ (toString n).toList) :
    45 ≤ c.toNat ∧ c.toNat ≤ 57 := by
  have hdigit : ∀ m, c ∈ Nat.toDigits 10 m → 45 ≤ c.toNat ∧ c.toNat ≤ 57 := by
    intro m hm
    have hc := Nat.isDigit_of_mem_toDigits (by decide) (by decide) hm
    simp only [Char.isDigit, Bool.and_eq_true, decide_eq_true_eq] at hc
    exact ⟨Nat.le_trans (by decide) hc.1, hc.2⟩
  rw [Int.toString_eq_repr, Int.repr_eq_if] at h
  split at h
  · rw [Nat.toList_repr] at h
    exact hdigit _ h
  · rw [String.toList_append, List.mem_append, Nat.toList_repr] at h
    rcases h with h | h
    · have hc : c = '-' := by simpa using h
      subst hc
      decide
    · exact hdigit _ h

theorem map_toDecimal (n : Int) :
    (toDecimal n).map (fun b => Char.ofNat b.toNat) = (toString n).toList := by
  rw [toDecimal, bytes, List.map_map]
  conv_rhs => rw [← List.map_id (toString n).toList]
  refine List.map_congr_left ?_
  intro c hc
  have hlt : c.toNat < 256 := Nat.lt_of_le_of_lt (decimal_char hc).2 (by decide)
  simp [Nat.mod_eq_of_lt hlt]

theorem mem_toDecimal {n : Int} {b : UInt8} (h : b ∈ toDecimal n) :
    45 ≤ b.toNat ∧ b.toNat ≤ 57 := by
  obtain ⟨c, hc, rfl⟩ := List.mem_map.mp h
  have hb := decimal_char hc
  have hlt : c.toNat < 256 := Nat.lt_of_le_of_lt hb.2 (by decide)
  show 45 ≤ (UInt8.ofNat c.toNat).toNat ∧ (UInt8.ofNat c.toNat).toNat ≤ 57
  rwa [UInt8.toNat_ofNat', Nat.mod_eq_of_lt hlt]

theorem length_toDecimal_le {n : Int} (h : n.natAbs ≤ 9223372036854775808) :
    (toDecimal n).length ≤ 20 := by
  have hdigits : ∀ m, m = n.natAbs → (Nat.toDigits 10 m).length ≤ 19 := by
    rintro m rfl
    exact (Nat.length_toDigits_le_iff (by decide) (by decide)).mpr (by omega)
  rw [toDecimal, bytes, List.length_map, Int.toString_eq_repr, Int.repr_eq_if]
  split
  · have := hdigits n.toNat (by omega)
    rw [Nat.toList_repr]
    omega
  · have := hdigits (-n).toNat (by omega)
    have hsign : "-".toList.length = 1 := by decide
    rw [String.toList_append, List.length_append, Nat.toList_repr]
    omega

end EzRemote

import EzRemote.Util

/-!
# Base64

`Encode` and `Decode` of `base64.h`.  `none` is undefined behaviour of the
source or an exception: an index outside the input or the table, or `resize`
to a wrapped length.
-/

namespace EzRemote.Base64

def padding : UInt8 := 61

/-- `sEncodingTable`. -/
def encodingTable : Bytes := bytes "ABCDEFGHIJKLMNOPQRSTUVWXYZabcdefghijklmnopqrstuvwxyz0123456789+/"

def encodeChar (n : Nat) : UInt8 := encodingTable.getD n 0

/-- `kDecodingTable`; 64 marks what is no digit. -/
def decodingTable : List Nat :=
  List.replicate 43 64 ++ [62] ++ List.replicate 3 64 ++ [63] ++ List.range' 52 10 ++
    List.replicate 7 64 ++ List.range' 0 26 ++ List.replicate 6 64 ++ List.range' 26 26 ++
    List.replicate 133 64

/-- The four characters that `Encode` makes of three bytes. -/
def encodeTriple (x y z : Nat) : Bytes :=
  [encodeChar ((x >>> 2) &&& 0x3F), encodeChar (((x &&& 0x3) <<< 4) ||| ((y &&& 0xF0) >>> 4)),
    encodeChar (((y &&& 0xF) <<< 2) ||| ((z &&& 0xC0) >>> 6)), encodeChar (z &&& 0x3F)]

/-- The loop of `Encode` and the rest of one or two bytes behind it. -/
def encodeLoop : Bytes → Bytes
  | x :: y :: z :: input => encodeTriple x.toNat y.toNat z.toNat ++ encodeLoop input
  | [x, y] =>
    [encodeChar ((x.toNat >>> 2) &&& 0x3F),
      encodeChar (((x.toNat &&& 0x3) <<< 4) ||| ((y.toNat &&& 0xF0) >>> 4)),
      encodeChar ((y.toNat &&& 0xF) <<< 2), padding]
  | [x] =>
    [encodeChar ((x.toNat >>> 2) &&& 0x3F), encodeChar ((x.toNat &&& 0x3) <<< 4), padding, padding]
  | [] => []

/-- `Encode`: with fewer than two bytes `in_len - 2` wraps, and the loop runs
off the input. -/
def encode (input : Bytes) : Option Bytes :=
  if input.length < 2 then none else some (encodeLoop input)

/-- One character of `Decode`; a `char` is signed, so a byte from 128 on is a
negative index. -/
def decodeChar (b : UInt8) : Option Nat :=
  if b = padding then some 0
  else if b.toNat < 128 then some (decodingTable.getD b.toNat 64)
  else none

/-- The loop of `Decode` without its bound `out_len`; the four digits are at
most 64 each, so `triple` fits its `uint32_t`. -/
def decodeLoop : Bytes → Option Bytes
  | a :: b :: c :: d :: input => do
    let a ← decodeChar a
    let b ← decodeChar b
    let c ← decodeChar c
    let d ← decodeChar d
    let triple := (a <<< (3 * 6)) + (b <<< (2 * 6)) + (c <<< (1 * 6)) + (d <<< (0 * 6))
    let out ← decodeLoop input
    return UInt8.ofNat ((triple >>> (2 * 8)) &&& 0xFF) ::
      UInt8.ofNat ((triple >>> (1 * 8)) &&& 0xFF) ::
      UInt8.ofNat ((triple >>> (0 * 8)) &&& 0xFF) :: out
  | _ => some []

/-- What `Decode` takes off `out_len`.  `input[in_len - 1]` and
`input[in_len - 2]` of an empty string are the bytes of `outside`. -/
def padChars (outside : Nat → UInt8) (input : Bytes) : Nat :=
  (if input.reverse.getD 0 (outside 0) = padding then 1 else 0) +
    (if input.reverse.getD 1 (outside 1) = padding then 1 else 0)

/-- `Decode`; the inner `none` is the result 0. -/
def decode (outside : Nat → UInt8) (input : Bytes) : Option (Option Bytes) :=
  if input.length % 4 ≠ 0 then some none
  else if input.length / 4 * 3 < padChars outside input then none
  else (decodeLoop input).map fun out =>
    some (out.take (input.length / 4 * 3 - padChars outside input))

theorem char_digit {n : Nat} (h : n < 64) :
    decodeChar (encodeChar n) = some n ∧ encodeChar n ≠ padding ∧ encodeChar n ≠ 0 := by
  have hall : ∀ n : Fin 64, decodeChar (encodeChar n) = some n.val ∧
      encodeChar n ≠ padding ∧ encodeChar n ≠ 0 := by decide +kernel
  exact hall ⟨n, h⟩

theorem first_digit {x : Nat} (hx : x < 256) : (x >>> 2) &&& 0x3F = x / 4 := by
  rw [Nat.shiftRight_eq_div_pow, Nat.and_two_pow_sub_one_eq_mod _ 6]
  omega

theorem low_digit (z : Nat) : z &&& 0x3F = z % 64 := Nat.and_two_pow_sub_one_eq_mod _ 6

theorem shifted_two (x : Nat) : (x &&& 0x3) <<< 4 = x % 4 * 16 := by
  rw [Nat.shiftLeft_eq, Nat.and_two_pow_sub_one_eq_mod _ 2]

theorem shifted_four (y : Nat) : (y &&& 0xF) <<< 2 = y % 16 * 4 := by
  rw [Nat.shiftLeft_eq, Nat.and_two_pow_sub_one_eq_mod _ 4]

theorem second_digit (x : Nat) {y : Nat} (hy : y < 256) :
    ((x &&& 0x3) <<< 4) ||| ((y &&& 0xF0) >>> 4) = x % 4 * 16 + y / 16 := by
  have hhigh : (y &&& 0xF0) >>> 4 = y / 16 := by
    rw [Nat.shiftRight_and_distrib, Nat.shiftRight_eq_div_pow]
    show y / 16 &&& 2 ^ 4 - 1 = y / 16
    rw [Nat.and_two_pow_sub_one_eq_mod]
    omega
  -- the two parts share no bit
  rw [hhigh, ← Nat.shiftLeft_add_eq_or_of_lt (by omega : y / 16 < 2 ^ 4), shifted_two]

theorem third_digit (y : Nat) {z : Nat} (hz : z < 256) :
    ((y &&& 0xF) <<< 2) ||| ((z &&& 0xC0) >>> 6) = y % 16 * 4 + z / 64 := by
  have hhigh : (z &&& 0xC0) >>> 6 = z / 64 := by
    rw [Nat.shiftRight_and_distrib, Nat.shiftRight_eq_div_pow]
    show z / 64 &&& 2 ^ 2 - 1 = z / 64
    rw [Nat.and_two_pow_sub_one_eq_mod]
    omega
  rw [hhigh, ← Nat.shiftLeft_add_eq_or_of_lt (by omega : z / 64 < 2 ^ 2), shifted_four]

def bytesOf (p q r s : Nat) : Bytes :=
  let triple := p * 262144 + q * 4096 + r * 64 + s
  [UInt8.ofNat (triple / 65536 % 256), UInt8.ofNat (triple / 256 % 256), UInt8.ofNat (triple % 256)]

theorem decodeLoop_quad {a b c d : UInt8} {p q r s : Nat} (ha : decodeChar a = some p)
    (hb : decodeChar b = some q) (hc : decodeChar c = some r) (hd : decodeChar d = some s)
    (input : Bytes) :
    decodeLoop (a :: b :: c :: d :: input) =
      (decodeLoop input).map fun out => bytesOf p q r s ++ out := by
  have hmask : ∀ n : Nat, n &&& 0xFF = n % 256 := fun n => Nat.and_two_pow_sub_one_eq_mod n 8
  conv_lhs => unfold decodeLoop
  simp only [ha, hb, hc, hd, hmask, Nat.shiftLeft_eq, Nat.shiftRight_eq_div_pow,
    Option.bind_eq_bind, Option.bind_some]
  cases decodeLoop input with
  | none => rfl
  | some out => simp [bytesOf]

theorem bytesOf_triple (x y z : UInt8) :
    bytesOf (x.toNat / 4) (x.toNat % 4 * 16 + y.toNat / 16) (y.toNat % 16 * 4 + z.toNat / 64)
      (z.toNat % 64) = [x, y, z] := by
  have hx := x.toNat_lt
  have hy := y.toNat_lt
  have hz := z.toNat_lt
  have htriple : x.toNat / 4 * 262144 + (x.toNat % 4 * 16 + y.toNat / 16) * 4096 +
      (y.toNat % 16 * 4 + z.toNat / 64) * 64 + z.toNat % 64 =
        x.toNat * 65536 + y.toNat * 256 + z.toNat := by omega
  unfold bytesOf
  rw [htriple]
  have h1 : (x.toNat * 65536 + y.toNat * 256 + z.toNat) / 65536 % 256 = x.toNat := by omega
  have h2 : (x.toNat * 65536 + y.toNat * 256 + z.toNat) / 256 % 256 = y.toNat := by omega
  have h3 : (x.toNat * 65536 + y.toNat * 256 + z.toNat) % 256 = z.toNat := by omega
  simp [h1, h2, h3]

/-- How many `=` end the text. -/
def padCount (input : Bytes) : Nat := (3 - input.length % 3) % 3

theorem decodeLoop_encodeLoop (input : Bytes) :
    decodeLoop (encodeLoop input) = some (input ++ List.replicate (padCount input) 0) := by
  have hpad : decodeChar padding = some 0 := rfl
  fun_induction encodeLoop input with
  | case1 x y z input ih =>
    have hx := x.toNat_lt
    have hy := y.toNat_lt
    have hz := z.toNat_lt
    show decodeLoop (_ :: _ :: _ :: _ :: encodeLoop input) = _
    rw [first_digit hx, second_digit _ hy, third_digit _ hz, low_digit,
      decodeLoop_quad (char_digit (by omega)).1 (char_digit (by omega)).1
        (char_digit (by omega)).1 (char_digit (by omega)).1,
      ih, Option.map_some, bytesOf_triple]
    have hcount : padCount (x :: y :: z :: input) = padCount input := by
      simp only [padCount, List.length_cons]
      omega
    rw [hcount]
    rfl
  | case2 x y =>
    have hx := x.toNat_lt
    have hy := y.toNat_lt
    rw [first_digit hx, second_digit _ hy, shifted_four,
      decodeLoop_quad (char_digit (by omega)).1 (char_digit (by omega)).1
        (char_digit (by omega)).1 hpad]
    have htriple := bytesOf_triple x y 0
    simp only [UInt8.toNat_zero, Nat.zero_div, Nat.zero_mod, Nat.add_zero] at htriple
    rw [htriple]
    rfl
  | case3 x =>
    have hx := x.toNat_lt
    rw [first_digit hx, shifted_two, decodeLoop_quad (char_digit (by omega)).1
      (char_digit (by omega)).1 hpad hpad]
    have htriple := bytesOf_triple x 0 0
    simp only [UInt8.toNat_zero, Nat.zero_div, Nat.zero_mod, Nat.zero_mul, Nat.add_zero] at htriple
    rw [htriple]
    rfl
  | case4 => rfl

theorem length_encodeLoop (input : Bytes) :
    (encodeLoop input).length = 4 * ((input.length + 2) / 3) := by
  fun_induction encodeLoop input with
  | case1 x y z input ih =>
    rw [List.length_append, ih]
    simp only [encodeTriple, List.length_cons, List.length_nil]
    omega
  | _ => simp

theorem padChars_encodeLoop {outside : Nat → UInt8} (ho : ∀ k, outside k ≠ padding)
    (input : Bytes) : padChars outside (encodeLoop input) = padCount input := by
  fun_induction encodeLoop input with
  | case1 x y z input ih =>
    have hz := z.toNat_lt
    have hy := y.toNat_lt
    have hcount : padCount (x :: y :: z :: input) = padCount input := by
      simp only [padCount, List.length_cons]
      omega
    rw [hcount, ← ih]
    cases input with
    | nil =>
      have h3 := (char_digit (n := y.toNat % 16 * 4 + z.toNat / 64) (by omega)).2.1
      have h4 := (char_digit (n := z.toNat % 64) (by omega)).2.1
      simp [padChars, encodeTriple, encodeLoop, third_digit _ hz, low_digit, h3, h4, ho]
    | cons w input =>
      -- the end of the text is the end of what follows
      have hlen : 4 ≤ (encodeLoop (w :: input)).reverse.length := by
        rw [List.length_reverse, length_encodeLoop, List.length_cons]
        omega
      simp only [padChars, List.reverse_append, List.getD_eq_getElem?_getD,
        List.getElem?_append_left (Nat.lt_of_lt_of_le (by decide : 0 < 4) hlen),
        List.getElem?_append_left (Nat.lt_of_lt_of_le (by decide : 1 < 4) hlen)]
  | case2 x y =>
    have hy := y.toNat_lt
    have h3 := (char_digit (n := y.toNat % 16 * 4) (by omega)).2.1
    simp [padChars, padCount, shifted_four, h3]
  | case3 x => simp [padChars, padCount]
  | case4 => simp [padChars, padCount, ho]

/-- What `Encode` writes, `Decode` reads back. -/
theorem decode_encodeLoop {outside : Nat → UInt8} (ho : ∀ k, outside k ≠ padding)
    (input : Bytes) : decode outside (encodeLoop input) = some (some input) := by
  unfold decode
  rw [padChars_encodeLoop ho, length_encodeLoop, decodeLoop_encodeLoop,
    if_neg (by omega : ¬4 * ((input.length + 2) / 3) % 4 ≠ 0),
    if_neg (by unfold padCount; omega), Option.map_some, List.take_left']
  unfold padCount
  omega

theorem zero_notMem_encodeLoop (input : Bytes) : (0 : UInt8) ∉ encodeLoop input := by
  have hpad : padding ≠ 0 := by decide
  fun_induction encodeLoop input with
  | case1 x y z input ih =>
    have hx := x.toNat_lt
    have hy := y.toNat_lt
    have hz := z.toNat_lt
    have h1 := (char_digit (n := x.toNat / 4) (by omega)).2.2
    have h2 := (char_digit (n := x.toNat % 4 * 16 + y.toNat / 16) (by omega)).2.2
    have h3 := (char_digit (n := y.toNat % 16 * 4 + z.toNat / 64) (by omega)).2.2
    have h4 := (char_digit (n := z.toNat % 64) (by omega)).2.2
    simp [encodeTriple, first_digit hx, second_digit _ hy, third_digit _ hz, low_digit,
      Ne.symm h1, Ne.symm h2, Ne.symm h3, Ne.symm h4, ih]
  | case2 x y =>
    have hx := x.toNat_lt
    have hy := y.toNat_lt
    have h1 := (char_digit (n := x.toNat / 4) (by omega)).2.2
    have h2 := (char_digit (n := x.toNat % 4 * 16 + y.toNat / 16) (by omega)).2.2
    have h3 := (char_digit (n := y.toNat % 16 * 4) (by omega)).2.2
    simp [first_digit hx, second_digit _ hy, shifted_four, Ne.symm h1, Ne.symm h2, Ne.symm h3,
      Ne.symm hpad]
  | case3 x =>
    have hx := x.toNat_lt
    have h1 := (char_digit (n := x.toNat / 4) (by omega)).2.2
    have h2 := (char_digit (n := x.toNat % 4 * 16) (by omega)).2.2
    simp [first_digit hx, shifted_two, Ne.symm h1, Ne.symm h2, Ne.symm hpad]
  | case4 => simp

end EzRemote.Base64

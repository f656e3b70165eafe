import EzRemote.Lib.Buffer
import EzRemote.Lib.StandardBase64
import EzRemote.History.Base64

/-!
# Base64 in memory

`Encode` and `Decode` of `base64.h` with the reads of their input, the writes to
their output and the arithmetic of `size_t`, and what they are next to standard
Base64.  `none` is a read or a write outside.
-/

namespace EzRemote.Base64

open StandardBase64 (alphabet pad Encodes)

def resize (s : Bytes) (n : Nat) : Bytes := s.take n ++ List.replicate (n - s.length) 0

/-- `n - k` as a `size_t`. -/
def wrapSub (n k : Nat) : Nat := if k ≤ n then n - k else n + 18446744073709551616 - k

/-- The output of `Encode` and the place of `p` in it. -/
structure Cursor where
  out : Bytes
  p : Nat
  deriving DecidableEq, Repr

def Cursor.put (s : Cursor) (chars : Bytes) : Option Cursor :=
  (Buffer.write s.out s.p chars).map fun out => ⟨out, s.p + chars.length⟩

/-- The loop of `Encode`; also where `i` comes to. -/
def encodeGroups (input : Bytes) (i : Nat) (s : Cursor) : Option (Nat × Cursor) :=
  if i < wrapSub input.length 2 then
    if h : i + 2 < input.length then
      (s.put (encodeTriple input[i].toNat input[i + 1].toNat input[i + 2].toNat)).bind fun s =>
        encodeGroups input (i + 3) s
    else none
  else some (i, s)
termination_by input.length - i

/-- The rest of one or two bytes. -/
def encodeTail (input : Bytes) (i : Nat) (s : Cursor) : Option Cursor :=
  if i < input.length then do
    let x ← input[i]?
    let s ← s.put [encodeChar ((x.toNat >>> 2) &&& 0x3F)]
    if i = wrapSub input.length 1 then
      let s ← s.put [encodeChar ((x.toNat &&& 0x3) <<< 4)]
      let s ← s.put [padding]
      s.put [padding]
    else
      let y ← input[i + 1]?
      let s ← s.put [encodeChar (((x.toNat &&& 0x3) <<< 4) ||| ((y.toNat &&& 0xF0) >>> 4))]
      let s ← s.put [encodeChar ((y.toNat &&& 0xF) <<< 2)]
      s.put [padding]
  else some s

/-- `Encode`, with the characters it has written. -/
def encodeInto (input out : Bytes) : Option (Int × Bytes × Nat) := do
  let (i, s) ← encodeGroups input 0 ⟨resize out (4 * ((input.length + 2) / 3)), 0⟩
  let s ← encodeTail input i s
  return (1, s.out, s.p)

/-- `input[in_len - k]`; the empty string has no such byte. -/
def readBack (input : Bytes) (k : Nat) : Option UInt8 := input[wrapSub input.length k]?

/-- One digit of `Decode`. -/
def digitAt (input : Bytes) (i : Nat) : Option Nat := input[i]?.bind decodeChar

/-- `if (j < out_len) out[j++] = b;` -/
def store (s : Bytes × Nat) (b : UInt8) : Bytes × Nat :=
  if s.2 < s.1.length then (s.1.set s.2 b, s.2 + 1) else s

/-- The loop of `Decode` on an `out` of length `out_len`. -/
def decodeFrom (input : Bytes) (i : Nat) (s : Bytes × Nat) : Option Bytes :=
  if i < input.length then do
    let a ← digitAt input i
    let b ← digitAt input (i + 1)
    let c ← digitAt input (i + 2)
    let d ← digitAt input (i + 3)
    let triple := (a <<< (3 * 6)) + (b <<< (2 * 6)) + (c <<< (1 * 6)) + (d <<< (0 * 6))
    let s := store s (UInt8.ofNat ((triple >>> (2 * 8)) &&& 0xFF))
    let s := store s (UInt8.ofNat ((triple >>> (1 * 8)) &&& 0xFF))
    let s := store s (UInt8.ofNat ((triple >>> (0 * 8)) &&& 0xFF))
    decodeFrom input (i + 4) s
  else some s.1
termination_by input.length - i

/-- `Decode` with its result. -/
def decodeInto (input out : Bytes) : Option (Int × Bytes) :=
  if input.length % 4 ≠ 0 then some (0, out)
  else do
    let last ← readBack input 1
    let before ← readBack input 2
    let outLen := input.length / 4 * 3 - ((if last = padding then 1 else 0) +
      (if before = padding then 1 else 0))
    let out ← decodeFrom input 0 (resize out outLen, 0)
    return (1, out)

theorem length_resize (s : Bytes) (n : Nat) : (resize s n).length = n := by
  unfold resize
  rw [List.length_append, List.length_take, List.length_replicate]
  omega

theorem wrapSub_of_le {n k : Nat} (h : k ≤ n) : wrapSub n k = n - k := if_pos h

namespace Cursor

variable {s : Cursor}

theorem put_nil (h : s.p ≤ s.out.length) : s.put [] = some s := by
  unfold put
  rw [Buffer.write_nil h]
  rfl

theorem put_append (xs ys : Bytes) : s.put (xs ++ ys) = (s.put xs).bind fun s => s.put ys := by
  unfold put
  rw [Buffer.write_append]
  cases Buffer.write s.out s.p xs with
  | none => rfl
  | some out =>
    simp only [Option.bind_some, Option.map_some, List.length_append, Nat.add_assoc]

theorem le_of_put {s' : Cursor} {chars : Bytes} (h : s.put chars = some s') :
    s'.p ≤ s'.out.length := by
  obtain ⟨out, hwrite, rfl⟩ := Option.map_eq_some_iff.mp h
  have hle := (Buffer.write_eq_some hwrite).1
  rw [← Buffer.length_write hwrite] at hle
  exact hle

end Cursor

theorem encodeTail_eq {input : Bytes} {i : Nat} {s : Cursor} (hs : s.p ≤ s.out.length)
    (hrest : input.length ≤ i + 2) : encodeTail input i s = s.put (encodeLoop (input.drop i)) := by
  unfold encodeTail
  by_cases hi : i < input.length
  · rw [if_pos hi, List.getElem?_eq_getElem hi, List.drop_eq_getElem_cons hi]
    have hone : wrapSub input.length 1 = input.length - 1 := wrapSub_of_le (by omega)
    by_cases hlast : i = input.length - 1
    · rw [List.drop_eq_nil_of_le (by omega), hone]
      simp only [Option.bind_eq_bind, Option.bind_some, if_pos hlast]
      show _ = s.put ([_] ++ ([_] ++ ([_] ++ [_])))
      simp only [Cursor.put_append]
    · have hnext : i + 1 < input.length := by omega
      rw [List.drop_eq_getElem_cons hnext, List.drop_eq_nil_of_le (by omega), hone,
        List.getElem?_eq_getElem hnext]
      simp only [Option.bind_eq_bind, Option.bind_some, if_neg hlast]
      show _ = s.put ([_] ++ ([_] ++ ([_] ++ [_])))
      simp only [Cursor.put_append]
  · rw [if_neg hi, List.drop_eq_nil_of_le (by omega)]
    exact (Cursor.put_nil hs).symm

theorem encodeGroups_eq {input : Bytes} (hlen : 2 ≤ input.length) (i : Nat) {s : Cursor}
    (hs : s.p ≤ s.out.length) :
    ((encodeGroups input i s).bind fun t => encodeTail input t.1 t.2) =
      s.put (encodeLoop (input.drop i)) := by
  have hbound : wrapSub input.length 2 = input.length - 2 := wrapSub_of_le hlen
  fun_induction encodeGroups input i s with
  | case1 i s hi h ih =>
    have hdrop : input.drop i = input[i] :: input[i + 1] :: input[i + 2] :: input.drop (i + 3) := by
      rw [List.drop_eq_getElem_cons (by omega), List.drop_eq_getElem_cons (by omega),
        List.drop_eq_getElem_cons h]
    rw [hdrop]
    show _ = s.put (encodeTriple _ _ _ ++ encodeLoop (input.drop (i + 3)))
    rw [Cursor.put_append, Option.bind_assoc]
    cases hput : s.put (encodeTriple input[i].toNat input[i + 1].toNat input[i + 2].toNat) with
    | none => rfl
    | some s' => exact ih s' (Cursor.le_of_put hput)
  | case2 i s hi h => omega
  | case3 i s hi => exact encodeTail_eq hs (by omega)

theorem encodeInto_eq (input out : Bytes) :
    encodeInto input out = (encode input).map fun text => (1, text, text.length) := by
  unfold encode
  by_cases hlen : input.length < 2
  · rw [if_pos hlen]
    -- `in_len - 2` wraps, and the loop begins
    have hbound : 0 < wrapSub input.length 2 := by
      unfold wrapSub
      rw [if_neg (by omega)]
      omega
    unfold encodeInto encodeGroups
    rw [if_pos hbound, dif_neg (by omega)]
    rfl
  · rw [if_neg hlen, Option.map_some]
    have hout : (resize out (4 * ((input.length + 2) / 3))).length = (encodeLoop input).length := by
      rw [length_resize, length_encodeLoop]
    have hput : (⟨resize out (4 * ((input.length + 2) / 3)), 0⟩ : Cursor).put (encodeLoop input) =
        some ⟨encodeLoop input, (encodeLoop input).length⟩ := by
      unfold Cursor.put
      rw [Buffer.write_of_le (by rw [hout, Nat.zero_add]), Nat.zero_add, ← hout,
        List.drop_length, List.take_zero]
      simp
    have hloop := encodeGroups_eq (Nat.le_of_not_lt hlen) 0
      (s := ⟨resize out (4 * ((input.length + 2) / 3)), 0⟩) (Nat.zero_le _)
    rw [List.drop_zero, hput] at hloop
    obtain ⟨t, hgroups, htail⟩ := Option.bind_eq_some_iff.mp hloop
    unfold encodeInto
    rw [hgroups]
    simp only [Option.bind_eq_bind, Option.bind_some, htail]
    rfl

theorem readBack_of_le {input : Bytes} {k : Nat} (hk : 0 < k) (h : k ≤ input.length) (d : UInt8) :
    readBack input k = some (input.reverse.getD (k - 1) d) := by
  unfold readBack
  rw [wrapSub_of_le h, List.getD_eq_getElem?_getD, List.getElem?_reverse (by omega)]
  have hindex : input.length - 1 - (k - 1) = input.length - k := by omega
  rw [hindex, List.getElem?_eq_getElem (by omega)]
  rfl

theorem decodeFrom_eq {input : Bytes} (i : Nat) (s : Bytes × Nat)
    (hquads : (input.length - i) % 4 = 0) :
    decodeFrom input i s = (decodeLoop (input.drop i)).map fun bs => (bs.foldl store s).1 := by
  fun_induction decodeFrom input i s with
  | case1 i s hi ih =>
    have hlt : i + 3 < input.length := by omega
    have hdrop : input.drop i =
        input[i] :: input[i + 1] :: input[i + 2] :: input[i + 3] :: input.drop (i + 4) := by
      rw [List.drop_eq_getElem_cons (by omega), List.drop_eq_getElem_cons (by omega),
        List.drop_eq_getElem_cons (by omega), List.drop_eq_getElem_cons hlt]
    have hdigit : ∀ k (_ : k < input.length), digitAt input k = decodeChar input[k] := by
      intro k hk
      unfold digitAt
      rw [List.getElem?_eq_getElem hk, Option.bind_some]
    rw [hdrop, hdigit i (by omega), hdigit (i + 1) (by omega), hdigit (i + 2) (by omega),
      hdigit (i + 3) hlt]
    conv_rhs => unfold decodeLoop
    have hrest : (input.length - (i + 4)) % 4 = 0 := by omega
    cases decodeChar input[i] with
    | none => rfl
    | some a =>
      cases decodeChar input[i + 1] with
      | none => rfl
      | some b =>
        cases decodeChar input[i + 2] with
        | none => rfl
        | some c =>
          cases decodeChar input[i + 3] with
          | none => rfl
          | some d =>
            refine (ih a b c d hrest).trans ?_
            cases decodeLoop (input.drop (i + 4)) with
            | none => rfl
            | some bs => rfl
  | case2 i s hi =>
    rw [List.drop_eq_nil_of_le (by omega)]
    rfl

theorem foldl_store (bs front rest : Bytes) :
    (bs.foldl store (front ++ rest, front.length)).1 =
      front ++ (bs.take rest.length ++ rest.drop bs.length) := by
  induction bs generalizing front rest with
  | nil => simp
  | cons b bs ih =>
    rw [List.foldl_cons]
    cases rest with
    | nil =>
      have hstore : store (front ++ [], front.length) b = (front ++ [], front.length) :=
        if_neg (by simp)
      rw [hstore, ih]
      simp
    | cons r rest =>
      have hstore : store (front ++ r :: rest, front.length) b =
          ((front ++ [b]) ++ rest, (front ++ [b]).length) := by
        unfold store
        rw [if_pos (by simp)]
        simp
      rw [hstore, ih]
      simp

theorem decodeLoop_cons {a b c d : UInt8} {input bs : Bytes}
    (h : decodeLoop (a :: b :: c :: d :: input) = some bs) :
    ∃ p q r t rest, (decodeChar a = some p ∧ decodeChar b = some q ∧ decodeChar c = some r ∧
      decodeChar d = some t) ∧ decodeLoop input = some rest ∧ bs = bytesOf p q r t ++ rest := by
  have hparts := h
  unfold decodeLoop at hparts
  obtain ⟨p, hp, hparts⟩ := Option.bind_eq_some_iff.mp hparts
  obtain ⟨q, hq, hparts⟩ := Option.bind_eq_some_iff.mp hparts
  obtain ⟨r, hr, hparts⟩ := Option.bind_eq_some_iff.mp hparts
  obtain ⟨t, ht, -⟩ := Option.bind_eq_some_iff.mp hparts
  rw [decodeLoop_quad hp hq hr ht] at h
  obtain ⟨rest, hrest, rfl⟩ := Option.map_eq_some_iff.mp h
  exact ⟨p, q, r, t, rest, ⟨hp, hq, hr, ht⟩, hrest, rfl⟩

theorem length_decodeLoop {input bs : Bytes} (hmod : input.length % 4 = 0)
    (h : decodeLoop input = some bs) : bs.length = input.length / 4 * 3 := by
  induction hn : input.length / 4 generalizing input bs with
  | zero =>
    have hnil : input = [] := List.eq_nil_of_length_eq_zero (by omega)
    subst hnil
    cases h
    rfl
  | succ n ih =>
    obtain ⟨a, b, c, d, rest, rfl⟩ : ∃ a b c d rest, input = a :: b :: c :: d :: rest := by
      rcases input with _ | ⟨a, _ | ⟨b, _ | ⟨c, _ | ⟨d, rest⟩⟩⟩⟩
      · simp at hn
      · simp at hn
      · simp at hn
      · simp at hn
      · exact ⟨a, b, c, d, rest, rfl⟩
    obtain ⟨p, q, r, t, bs', -, hrest, rfl⟩ := decodeLoop_cons h
    simp only [List.length_cons] at hmod hn
    rw [List.length_append, ih (by omega) hrest (by omega)]
    simp only [bytesOf, List.length_cons, List.length_nil]
    omega

/-- `Decode` of a text that is not empty is what a load of the history does. -/
theorem decodeInto_eq (outside : Nat → UInt8) {input : Bytes} (hne : input ≠ []) (out : Bytes) :
    decodeInto input out =
      (decode outside input).map fun r => r.elim (0, out) fun b => (1, b) := by
  unfold decodeInto decode
  by_cases hmod : input.length % 4 ≠ 0
  · rw [if_pos hmod, if_pos hmod]
    rfl
  · have hpos : 0 < input.length := List.length_pos_iff.mpr hne
    rw [if_neg hmod, if_neg hmod, readBack_of_le (by decide) (by omega) (outside 0),
      readBack_of_le (by decide) (by omega) (outside 1)]
    have hpad : padChars outside input ≤ 2 := by
      unfold padChars
      split <;> split <;> decide
    rw [if_neg (by omega)]
    simp only [Option.bind_eq_bind, Option.bind_some]
    show ((decodeFrom input 0 (resize out (input.length / 4 * 3 - padChars outside input), 0)).bind
      fun out => some ((1 : Int), out)) = _
    rw [decodeFrom_eq 0 _ (by omega), List.drop_zero]
    cases hloop : decodeLoop input with
    | none => rfl
    | some bs =>
      have hlen := length_decodeLoop (by omega) hloop
      have hstore := foldl_store bs [] (resize out (input.length / 4 * 3 - padChars outside input))
      rw [length_resize, List.drop_eq_nil_of_le (by rw [length_resize]; omega)] at hstore
      simp only [List.nil_append, List.length_nil, List.append_nil] at hstore
      simp only [Option.map_some, Option.bind_some, Option.elim, hstore]

theorem padding_eq_pad : padding = pad := rfl

theorem decodeChar_alphabet {n : Nat} (h : n < 64) : decodeChar (alphabet n) = some n := by
  have hall : ∀ n : Fin 64, decodeChar (alphabet n) = some n.val := by decide +kernel
  exact hall ⟨n, h⟩

theorem bytesOf_eq {x y z : UInt8} {p q r t : Nat}
    (h : x.toNat * 65536 + y.toNat * 256 + z.toNat = p * 262144 + q * 4096 + r * 64 + t) :
    bytesOf p q r t = [x, y, z] := by
  have hx := x.toNat_lt
  have hy := y.toNat_lt
  have hz := z.toNat_lt
  unfold bytesOf
  rw [← h]
  have h1 : (x.toNat * 65536 + y.toNat * 256 + z.toNat) / 65536 % 256 = x.toNat := by omega
  have h2 : (x.toNat * 65536 + y.toNat * 256 + z.toNat) / 256 % 256 = y.toNat := by omega
  have h3 : (x.toNat * 65536 + y.toNat * 256 + z.toNat) % 256 = z.toNat := by omega
  simp [h1, h2, h3]

theorem padChars_append {outside : Nat → UInt8} {text : Bytes} (h : 2 ≤ text.length)
    (front : Bytes) : padChars outside (front ++ text) = padChars outside text := by
  have hlen : 2 ≤ text.reverse.length := by rwa [List.length_reverse]
  simp only [padChars, List.reverse_append, List.getD_eq_getElem?_getD,
    List.getElem?_append_left (Nat.lt_of_lt_of_le (by decide : 0 < 2) hlen),
    List.getElem?_append_left (Nat.lt_of_lt_of_le (by decide : 1 < 2) hlen)]

variable {strict : Prop} {b text : Bytes}

/-- The loop gives the bytes of a standard text, and one more for each `=`. -/
theorem decodeLoop_of_encodes (outside : Nat → UInt8) (h : Encodes strict b text) :
    ∃ extra, decodeLoop text = some (b ++ extra) ∧
      (text ≠ [] → padChars outside text = extra.length) := by
  have hpad : decodeChar pad = some 0 := rfl
  induction h with
  | nil => exact ⟨[], rfl, fun hne => absurd rfl hne⟩
  | @group x y z p q r t b text hp hq hr ht h htext ih =>
    obtain ⟨extra, hloop, hcount⟩ := ih
    refine ⟨extra, ?_, fun _ => ?_⟩
    · rw [decodeLoop_quad (decodeChar_alphabet hp) (decodeChar_alphabet hq)
        (decodeChar_alphabet hr) (decodeChar_alphabet ht), hloop, bytesOf_eq h]
      rfl
    · cases text with
      | nil =>
        have hextra : extra = [] := (List.append_eq_nil_iff.mp (Option.some.inj hloop).symm).2
        have h3 := StandardBase64.alphabet_ne_pad hr
        have h4 := StandardBase64.alphabet_ne_pad ht
        simp [padChars, hextra, padding_eq_pad, h3, h4]
      | cons a text =>
        have hlen := htext.length_eq
        have htwo : 2 ≤ (a :: text).length := by
          simp only [List.length_cons] at hlen ⊢
          omega
        exact (padChars_append htwo [alphabet p, alphabet q, alphabet r, alphabet t]).trans
          (hcount (List.cons_ne_nil a text))
  | @two x y p q r hp hq hr h hz =>
    -- the bits that are left over make one more byte
    have hextra : (UInt8.ofNat (r % 4 * 64)).toNat = r % 4 * 64 := by
      rw [UInt8.toNat_ofNat', Nat.mod_eq_of_lt (by omega)]
    have hbytes : bytesOf p q r 0 = [x, y, UInt8.ofNat (r % 4 * 64)] := by
      have hshift : x.toNat * 65536 + y.toNat * 256 = (x.toNat * 256 + y.toNat) * 256 := by
        rw [Nat.add_mul, Nat.mul_assoc]
      apply bytesOf_eq
      rw [hshift, h, hextra]
      clear h hshift hextra
      omega
    refine ⟨[UInt8.ofNat (r % 4 * 64)], ?_, fun _ => ?_⟩
    · rw [decodeLoop_quad (decodeChar_alphabet hp) (decodeChar_alphabet hq)
        (decodeChar_alphabet hr) hpad, hbytes]
      rfl
    · have h3 := StandardBase64.alphabet_ne_pad hr
      simp [padChars, padding_eq_pad, h3]
  | @one x p q hp hq h hz =>
    have hx := x.toNat_lt
    have hextra : (UInt8.ofNat (q % 16 * 16)).toNat = q % 16 * 16 := by
      rw [UInt8.toNat_ofNat', Nat.mod_eq_of_lt (by omega)]
    have hbytes : bytesOf p q 0 0 = [x, UInt8.ofNat (q % 16 * 16), 0] :=
      bytesOf_eq (by rw [UInt8.toNat_zero]; omega)
    refine ⟨[UInt8.ofNat (q % 16 * 16), 0], ?_, fun _ => ?_⟩
    · rw [decodeLoop_quad (decodeChar_alphabet hp) (decodeChar_alphabet hq) hpad hpad, hbytes]
      rfl
    · simp [padChars, padding_eq_pad]

theorem decodeInto_of_encodes (h : Encodes strict b text) (hne : text ≠ []) (out : Bytes) :
    decodeInto text out = some (1, b) := by
  obtain ⟨extra, hloop, hcount⟩ := decodeLoop_of_encodes (fun _ => 0) h
  have hlen := h.length_eq
  have hall := length_decodeLoop (by omega) hloop
  rw [List.length_append] at hall
  rw [decodeInto_eq (fun _ => 0) hne, decode, if_neg (by omega), hcount hne, if_neg (by omega), hloop,
    Option.map_some, Option.map_some, Option.elim, List.take_left' (by omega)]

/-- Four characters after four, the result is 1. -/
theorem decodeInto_ne_zero {out out' : Bytes} (hmod : text.length % 4 = 0) :
    decodeInto text out ≠ some (0, out') := by
  unfold decodeInto
  rw [if_neg (by omega)]
  intro h
  obtain ⟨last, -, h⟩ := Option.bind_eq_some_iff.mp h
  obtain ⟨before, -, h⟩ := Option.bind_eq_some_iff.mp h
  obtain ⟨o, -, h⟩ := Option.bind_eq_some_iff.mp h
  cases h

theorem decodeInto_nil (out : Bytes) : decodeInto [] out = none := rfl

/-- `Decode` reads inside, returns 1 and the bytes of the text where it is standard
Base64, and 0 with `out` unchanged where it is not. -/
def DecodesExactly (strict : Prop) (text : Bytes) : Prop :=
  ∀ out, (∀ b, Encodes strict b text → decodeInto text out = some (1, b)) ∧
    ((∀ b, ¬ Encodes strict b text) → decodeInto text out = some (0, out))

/-- A text of another length is refused, the empty one read outside, and of the
others everything is accepted that no `char` below 0 stops. -/
theorem decodes_exactly_iff (strict : Prop) (text : Bytes) :
    DecodesExactly strict text ↔
      text ≠ [] ∧ (text.length % 4 = 0 → ∃ b, Encodes strict b text) := by
  constructor
  · intro h
    constructor
    · rintro rfl
      have hread := (h []).1 [] .nil
      rw [decodeInto_nil] at hread
      cases hread
    · intro hmod
      by_contra hno
      have hrefused := (h []).2 fun b hb => hno ⟨b, hb⟩
      exact decodeInto_ne_zero hmod hrefused
  · rintro ⟨hne, hstandard⟩ out
    refine ⟨fun b hb => decodeInto_of_encodes hb hne out, ?_⟩
    intro hno
    by_cases hmod : text.length % 4 = 0
    · obtain ⟨b, hb⟩ := hstandard hmod
      exact absurd hb (hno b)
    · exact if_pos hmod

/-- A character that is no digit is accepted, and the empty text read outside. -/
theorem decodes_exactly_iff_invalid : ¬ DecodesExactly True (bytes "p@ss") ∧
    ¬ DecodesExactly False (bytes "p@ss") ∧ ¬ DecodesExactly True [] := by
  have hno : ∀ strict b, ¬ Encodes strict b (bytes "p@ss") := by
    intro strict b hb
    rcases hb.mem 64 (by decide) with hpad | ⟨n, hn, halphabet⟩
    · exact absurd hpad (by decide)
    · have hall : ∀ n : Fin 64, alphabet n ≠ 64 := by decide
      exact hall ⟨n, hn⟩ halphabet.symm
  have hfail : ∀ strict, ¬ DecodesExactly strict (bytes "p@ss") := by
    intro strict h
    obtain ⟨b, hb⟩ := ((decodes_exactly_iff strict _).mp h).2 rfl
    exact hno strict b hb
  exact ⟨hfail True, hfail False, fun h => ((decodes_exactly_iff True _).mp h).1 rfl⟩

theorem encodeChar_eq_alphabet {n : Nat} (h : n < 64) : encodeChar n = alphabet n := by
  have hall : ∀ n : Fin 64, encodeChar n = alphabet n := by decide +kernel
  exact hall ⟨n, h⟩

theorem encodes_encodeLoop (input : Bytes) : Encodes True input (encodeLoop input) := by
  fun_induction encodeLoop input with
  | case1 x y z input ih =>
    have hx := x.toNat_lt
    have hy := y.toNat_lt
    have hz := z.toNat_lt
    show Encodes True _ (_ :: _ :: _ :: _ :: encodeLoop input)
    rw [first_digit hx, second_digit _ hy, third_digit _ hz, low_digit,
      encodeChar_eq_alphabet (by omega), encodeChar_eq_alphabet (by omega),
      encodeChar_eq_alphabet (by omega), encodeChar_eq_alphabet (by omega)]
    exact .group (by omega) (by omega) (by omega) (by omega) (by omega) ih
  | case2 x y =>
    have hx := x.toNat_lt
    have hy := y.toNat_lt
    rw [first_digit hx, second_digit _ hy, shifted_four, encodeChar_eq_alphabet (by omega),
      encodeChar_eq_alphabet (by omega), encodeChar_eq_alphabet (by omega)]
    exact .two (by omega) (by omega) (by omega) (by omega) fun _ => by omega
  | case3 x =>
    have hx := x.toNat_lt
    rw [first_digit hx, shifted_two, encodeChar_eq_alphabet (by omega),
      encodeChar_eq_alphabet (by omega)]
    exact .one (by omega) (by omega) (by omega) fun _ => by omega
  | case4 => exact .nil

/-- `Encode` stays inside, writes the characters of the standard length, and `Decode`
gives the bytes back. -/
def RoundTrips (input : Bytes) : Prop :=
  ∀ out out', ∃ text, encodeInto input out = some (1, text, 4 * ((input.length + 2) / 3)) ∧
    text.length = 4 * ((input.length + 2) / 3) ∧ decodeInto text out' = some (1, input)

/-- From two bytes on `in_len - 2` does not wrap. -/
theorem round_trips_iff (input : Bytes) : RoundTrips input ↔ 2 ≤ input.length := by
  constructor
  · intro h
    by_contra hlt
    obtain ⟨text, hencode, -⟩ := h [] []
    rw [encodeInto_eq, encode, if_pos (by omega)] at hencode
    cases hencode
  · intro hlen out out'
    have htext := length_encodeLoop input
    have hne : encodeLoop input ≠ [] := by
      intro hnil
      rw [hnil, List.length_nil] at htext
      omega
    refine ⟨encodeLoop input, ?_, htext, decodeInto_of_encodes (encodes_encodeLoop input) hne out'⟩
    rw [encodeInto_eq, encode, if_neg (by omega), Option.map_some, htext]

/-- Nothing and one byte are read outside. -/
theorem round_trips_iff_short : ¬ RoundTrips [] ∧ ¬ RoundTrips (bytes "a") :=
  ⟨fun h => absurd ((round_trips_iff _).mp h) (by decide),
    fun h => absurd ((round_trips_iff _).mp h) (by decide)⟩

end EzRemote.Base64

import EzRemote.Util

/-!
# Encoding of URLs

`detail::encode_url`, which the client sends a path through, and
`detail::decode_url`, which the server reads it with.
-/

namespace EzRemote.Http

def isHex (c : UInt8) : Option Nat :=
  if 48 ≤ c ∧ c ≤ 57 then some (c.toNat - 48)
  else if 65 ≤ c ∧ c ≤ 70 then some (c.toNat - 65 + 10)
  else if 97 ≤ c ∧ c ≤ 102 then some (c.toNat - 97 + 10)
  else none

/-- `from_hex_to_i` from the position of its text on; the NUL behind a string is
no digit. -/
def fromHexToI : Nat → Bytes → Nat → Option Nat
  | 0, _, val => some val
  | _ + 1, [], _ => none
  | cnt + 1, c :: s, val => (isHex c).bind fun v => fromHexToI cnt s (val * 16 + v)

def toUtf8 (code : Nat) : Bytes :=
  let byte (n : Nat) : UInt8 := UInt8.ofNat n
  if code < 0x80 then [byte code]
  else if code < 0x800 then [byte (0xC0 + code / 64 % 32), byte (0x80 + code % 64)]
  else if code < 0xD800 then
    [byte (0xE0 + code / 4096 % 16), byte (0x80 + code / 64 % 64), byte (0x80 + code % 64)]
  else if code < 0xE000 then []
  else if code < 0x10000 then
    [byte (0xE0 + code / 4096 % 16), byte (0x80 + code / 64 % 64), byte (0x80 + code % 64)]
  else if code < 0x110000 then
    [byte (0xF0 + code / 262144 % 8), byte (0x80 + code / 4096 % 64),
      byte (0x80 + code / 64 % 64), byte (0x80 + code % 64)]
  else []

def decodeUrl (convertPlusToSpace : Bool) : Bytes → Bytes
  | [] => []
  | c :: s =>
    if c = 37 ∧ s ≠ [] then
      if s.head? = some 117 then
        match fromHexToI 4 (s.drop 1) 0 with
        | some val => toUtf8 val ++ decodeUrl convertPlusToSpace (s.drop 5)
        | none => c :: decodeUrl convertPlusToSpace s
      else
        match fromHexToI 2 s 0 with
        | some val => UInt8.ofNat val :: decodeUrl convertPlusToSpace (s.drop 2)
        | none => c :: decodeUrl convertPlusToSpace s
    else if convertPlusToSpace ∧ c = 43 then 32 :: decodeUrl convertPlusToSpace s
    else c :: decodeUrl convertPlusToSpace s
termination_by s => s.length
decreasing_by all_goals simp only [List.length_cons, List.length_drop]; omega

/-- A digit of `%02X`. -/
def upperHex (n : Nat) : UInt8 := UInt8.ofNat (if n < 10 then 48 + n else 55 + n)

/-- What `encode_url` appends for a byte. -/
def encodeByte (c : UInt8) : Bytes :=
  if c = 32 then bytes "%20"
  else if c = 43 then bytes "%2B"
  else if c = 13 then bytes "%0D"
  else if c = 10 then bytes "%0A"
  else if c = 39 then bytes "%27"
  else if c = 44 then bytes "%2C"
  else if c = 59 then bytes "%3B"
  else if 0x80 ≤ c then [37, upperHex (c.toNat / 16), upperHex (c.toNat % 16)]
  else [c]

/-- `encode_url`, which stops at a NUL. -/
def encodeUrl (s : Bytes) : Bytes := (cStr s).flatMap encodeByte

theorem isHex_upperHex : ∀ n < 16, isHex (upperHex n) = some n := by decide

theorem fromHexToI_upperHex {n : Nat} (hn : n < 256) :
    fromHexToI 2 [upperHex (n / 16), upperHex (n % 16)] 0 = some n := by
  unfold fromHexToI fromHexToI fromHexToI
  rw [isHex_upperHex (n / 16) (by omega), isHex_upperHex (n % 16) (by omega), Option.bind_some,
    Option.bind_some]
  exact congrArg some (by omega)

/-- A byte that is sent as an escape, which reads as the byte. -/
structure IsEscaped (c : UInt8) : Prop where
  escape : ∃ h l, encodeByte c = [37, h, l] ∧ fromHexToI 2 [h, l] 0 = some c.toNat
  not_hex : isHex c = none
  not_special : c ≠ 37 ∧ c ≠ 117 ∧ c ≠ 35 ∧ c ≠ 63 ∧ c ≠ 9

theorem encodeByte_cases (c : UInt8) :
    (encodeByte c = [c] ∧ c ≠ 32 ∧ c ≠ 43) ∨ IsEscaped c := by
  have hone : ∀ k h l : UInt8, encodeByte k = [37, h, l] → fromHexToI 2 [h, l] 0 = some k.toNat →
      isHex k = none → (k ≠ 37 ∧ k ≠ 117 ∧ k ≠ 35 ∧ k ≠ 63 ∧ k ≠ 9) → IsEscaped k :=
    fun k h l henc hread hhex hspecial => ⟨⟨h, l, henc, hread⟩, hhex, hspecial⟩
  by_cases h32 : c = 32
  · exact .inr (h32 ▸ hone 32 50 48 (by decide) (by decide) (by decide) (by decide))
  by_cases h43 : c = 43
  · exact .inr (h43 ▸ hone 43 50 66 (by decide) (by decide) (by decide) (by decide))
  by_cases h13 : c = 13
  · exact .inr (h13 ▸ hone 13 48 68 (by decide) (by decide) (by decide) (by decide))
  by_cases h10 : c = 10
  · exact .inr (h10 ▸ hone 10 48 65 (by decide) (by decide) (by decide) (by decide))
  by_cases h39 : c = 39
  · exact .inr (h39 ▸ hone 39 50 55 (by decide) (by decide) (by decide) (by decide))
  by_cases h44 : c = 44
  · exact .inr (h44 ▸ hone 44 50 67 (by decide) (by decide) (by decide) (by decide))
  by_cases h59 : c = 59
  · exact .inr (h59 ▸ hone 59 51 66 (by decide) (by decide) (by decide) (by decide))
  have henc : encodeByte c =
      if 0x80 ≤ c then [37, upperHex (c.toNat / 16), upperHex (c.toNat % 16)] else [c] := by
    rw [encodeByte, if_neg h32, if_neg h43, if_neg h13, if_neg h10, if_neg h39, if_neg h44, if_neg h59]
  by_cases hhigh : 0x80 ≤ c
  · right
    have hnat : 128 ≤ c.toNat := hhigh
    rw [if_pos hhigh] at henc
    refine hone c _ _ henc (fromHexToI_upperHex c.toNat_lt) ?_ ?_
    · unfold isHex
      simp only [UInt8.le_iff_toNat_le, UInt8.reduceToNat]
      rw [if_neg (by omega), if_neg (by omega), if_neg (by omega)]
    · simp only [ne_eq, ← UInt8.toNat_inj, UInt8.reduceToNat]
      omega
  · rw [if_neg hhigh] at henc
    exact .inl ⟨henc, h32, h43⟩

/-- A text byte by byte, NULs included. -/
def encoded (s : Bytes) : Bytes := s.flatMap encodeByte

theorem encoded_cons (c : UInt8) (s : Bytes) : encoded (c :: s) = encodeByte c ++ encoded s := rfl

theorem encodeUrl_eq {s : Bytes} (h : 0 ∉ s) : encodeUrl s = encoded s := by
  unfold encodeUrl
  rw [cStr_of_notMem h]
  rfl

theorem encodeByte_of_isHex {c : UInt8} (h : isHex c ≠ none) : encodeByte c = [c] :=
  (encodeByte_cases c).elim (fun hc => hc.1) fun hc => absurd hc.not_hex h

theorem fromHexToI_encoded (cnt : Nat) (s : Bytes) (val : Nat) :
    fromHexToI cnt (encoded s) val = fromHexToI cnt s val := by
  induction cnt generalizing s val with
  | zero => rfl
  | succ cnt ih =>
    cases s with
    | nil => rfl
    | cons c s =>
      rw [encoded_cons]
      rcases encodeByte_cases c with ⟨hc, -, -⟩ | hc
      · rw [hc, List.singleton_append, fromHexToI, fromHexToI]
        exact congrArg _ (funext fun v => ih s _)
      · obtain ⟨h, l, henc, -⟩ := hc.escape
        rw [henc, fromHexToI, hc.not_hex]
        rfl

theorem drop_encoded {cnt : Nat} {s : Bytes} {val n : Nat} (h : fromHexToI cnt s val = some n) :
    (encoded s).drop cnt = encoded (s.drop cnt) := by
  induction cnt generalizing s val with
  | zero => rfl
  | succ cnt ih =>
    cases s with
    | nil => cases h
    | cons c s =>
      obtain ⟨v, hv, hrest⟩ := Option.bind_eq_some_iff.mp h
      have hc : encodeByte c = [c] := encodeByte_of_isHex (by rw [hv]; exact Option.some_ne_none v)
      rw [encoded_cons, hc, List.singleton_append, List.drop_succ_cons, List.drop_succ_cons, ih hrest]

theorem length_ge_of_fromHexToI {cnt : Nat} {s : Bytes} {val n : Nat}
    (h : fromHexToI cnt s val = some n) : cnt ≤ s.length := by
  induction cnt generalizing s val with
  | zero => exact Nat.zero_le _
  | succ cnt ih =>
    cases s with
    | nil => cases h
    | cons c s =>
      obtain ⟨v, -, hrest⟩ := Option.bind_eq_some_iff.mp h
      exact Nat.succ_le_succ (ih hrest)

/-- What the text behind a percent sign reads as, and how much of it is read. -/
def escape (s : Bytes) : Option (Bytes × Nat) :=
  if s.head? = some 117 then (fromHexToI 4 (s.drop 1) 0).map fun val => (toUtf8 val, 5)
  else (fromHexToI 2 s 0).map fun val => ([UInt8.ofNat val], 2)

theorem decodeUrl_percent (plus : Bool) (s : Bytes) :
    decodeUrl plus (37 :: s) =
      match escape s with
      | some (text, k) => text ++ decodeUrl plus (s.drop k)
      | none => 37 :: decodeUrl plus s := by
  rw [decodeUrl]
  cases s with
  | nil =>
    rw [if_neg fun h => h.2 rfl, if_neg fun h => absurd h.2 (by decide)]
    rfl
  | cons c s =>
    rw [if_pos ⟨rfl, List.cons_ne_nil _ _⟩]
    unfold escape
    by_cases hu : (c :: s).head? = some 117
    · rw [if_pos hu, if_pos hu]
      cases fromHexToI 4 ((c :: s).drop 1) 0 <;> rfl
    · rw [if_neg hu, if_neg hu]
      cases fromHexToI 2 (c :: s) 0 <;> rfl

theorem decodeUrl_other {plus : Bool} {c : UInt8} (h37 : c ≠ 37) (h43 : c ≠ 43) (s : Bytes) :
    decodeUrl plus (c :: s) = c :: decodeUrl plus s := by
  rw [decodeUrl, if_neg fun h => h37 h.1, if_neg fun h => h43 h.2]

theorem escape_shorter {s text : Bytes} {k : Nat} (h : escape s = some (text, k)) :
    text.length ≤ k ∧ k ≤ s.length := by
  have hutf8 : ∀ code, (toUtf8 code).length ≤ 4 := by
    intro code
    unfold toUtf8
    dsimp only
    split
    · exact Nat.le_of_ble_eq_true rfl
    · repeat' split
      all_goals exact Nat.le_of_ble_eq_true rfl
  unfold escape at h
  split at h
  · obtain ⟨val, hval, heq⟩ := Option.map_eq_some_iff.mp h
    cases heq
    have := length_ge_of_fromHexToI hval
    rw [List.length_drop] at this
    exact ⟨(hutf8 val).trans (by decide), by omega⟩
  · obtain ⟨val, hval, heq⟩ := Option.map_eq_some_iff.mp h
    cases heq
    exact ⟨Nat.le_succ 1, length_ge_of_fromHexToI hval⟩

/-- Encoding neither makes escapes nor removes them. -/
theorem escape_encoded (s : Bytes) :
    escape (encoded s) = escape s ∧
      ∀ text k, escape s = some (text, k) → (encoded s).drop k = encoded (s.drop k) := by
  cases s with
  | nil => exact ⟨rfl, fun text k h => by cases h⟩
  | cons c s =>
    by_cases hu : c = 117
    · have hc : encodeByte c = [c] := by
        rw [hu]
        decide
      rw [hu] at hc ⊢
      rw [encoded_cons, hc, List.singleton_append]
      unfold escape
      rw [if_pos (List.head?_cons ..), if_pos (List.head?_cons ..)]
      refine ⟨congrArg _ (fromHexToI_encoded 4 s 0), fun text k h => ?_⟩
      obtain ⟨val, hval, heq⟩ := Option.map_eq_some_iff.mp h
      cases heq
      rw [List.drop_succ_cons, List.drop_succ_cons]
      exact drop_encoded hval
    · have hhead : (encoded (c :: s)).head? ≠ some 117 := by
        rw [encoded_cons]
        rcases encodeByte_cases c with ⟨hc, -, -⟩ | hc
        · rw [hc]
          exact fun h => hu (Option.some.inj h)
        · obtain ⟨h, l, henc, -⟩ := hc.escape
          rw [henc]
          exact fun hhead => absurd (Option.some.inj hhead) (by decide)
      have hhead' : (c :: s).head? ≠ some 117 := fun h => hu (Option.some.inj h)
      unfold escape
      rw [if_neg hhead, if_neg hhead', fromHexToI_encoded]
      refine ⟨rfl, fun text k h => ?_⟩
      obtain ⟨val, hval, heq⟩ := Option.map_eq_some_iff.mp h
      cases heq
      exact drop_encoded hval

theorem decodeUrl_encodeByte {plus : Bool} {c : UInt8} (hc : c ≠ 37) (s : Bytes) :
    decodeUrl plus (encodeByte c ++ s) = c :: decodeUrl plus s := by
  rcases encodeByte_cases c with ⟨henc, -, h43⟩ | henc
  · rw [henc, List.singleton_append, decodeUrl_other hc h43]
  · obtain ⟨h, l, henc, hread⟩ := henc.escape
    have hescape : escape (h :: l :: s) = some ([c], 2) := by
      have hu : (h :: l :: s).head? ≠ some 117 := by
        intro hu
        have hh : h = 117 := Option.some.inj hu
        rw [hh] at hread
        cases hread
      have hlong : fromHexToI 2 (h :: l :: s) 0 = fromHexToI 2 [h, l] 0 := rfl
      unfold escape
      rw [if_neg hu, hlong, hread]
      simp
    rw [henc]
    show decodeUrl plus (37 :: h :: l :: s) = _
    rw [decodeUrl_percent, hescape]
    rfl

/-- Reading never makes a text longer, and a text with an escape in it gets shorter. -/
theorem decodeUrl_encoded (plus : Bool) (s : Bytes) :
    (decodeUrl plus (encoded s)).length ≤ s.length ∧
      (decodeUrl plus (encoded s) = s ↔
        ∀ front rest, s = front ++ 37 :: rest → escape rest = none) := by
  -- The induction is on the length: behind an escape the text goes on after the digits.
  induction hn : s.length using Nat.strong_induction_on generalizing s with
  | _ n ih =>
    cases s with
    | nil =>
      have hnil : decodeUrl plus (encoded []) = [] := by rw [encoded, List.flatMap_nil, decodeUrl]
      rw [hnil]
      exact ⟨Nat.zero_le _, fun _ front rest h => by simp at h, fun _ => rfl⟩
    | cons c s =>
      rw [List.length_cons] at hn
      obtain ⟨hlen, hiff⟩ := ih s.length (by omega) s rfl
      by_cases hc : c = 37
      · have henc : encoded (c :: s) = 37 :: encoded s := by
          rw [hc]
          rfl
        obtain ⟨hescape, hdrop⟩ := escape_encoded s
        rw [henc, decodeUrl_percent, hescape, hc]
        cases hs : escape s with
        | none =>
          refine ⟨by rw [List.length_cons]; omega, ?_⟩
          dsimp only
          rw [List.cons.injEq, eq_self, true_and, hiff]
          constructor
          · intro h front rest heq
            cases front with
            | nil =>
              rw [List.nil_append, List.cons.injEq] at heq
              rw [← heq.2, hs]
            | cons d front => exact h front rest (List.cons.inj heq).2
          · exact fun h front rest heq => h (37 :: front) rest (by rw [heq]; rfl)
        | some read =>
          obtain ⟨text, k⟩ := read
          obtain ⟨htext, hk⟩ := escape_shorter hs
          obtain ⟨hrest, -⟩ := ih (s.drop k).length (by rw [List.length_drop]; omega) _ rfl
          rw [List.length_drop] at hrest
          dsimp only
          rw [hdrop text k hs]
          have hshort : (text ++ decodeUrl plus (encoded (s.drop k))).length < n := by
            rw [List.length_append]
            omega
          refine ⟨hshort.le, fun heq => ?_, fun h => ?_⟩
          · rw [heq, List.length_cons] at hshort
            omega
          · have := h [] s rfl
            rw [hs] at this
            cases this
      · rw [encoded_cons, decodeUrl_encodeByte hc, List.length_cons]
        refine ⟨by omega, ?_⟩
        rw [List.cons.injEq, eq_self, true_and, hiff]
        constructor
        · intro h front rest heq
          cases front with
          | nil => exact absurd (List.cons.inj heq).1 hc
          | cons d front => exact h front rest (List.cons.inj heq).2
        · exact fun h front rest heq => h (c :: front) rest (by rw [heq]; rfl)

/-- A path is read as it was before it was encoded exactly if it has no NUL and
no percent sign of it is followed by what reads as an escape: percent signs
are sent as they are. -/
theorem decode_url_encode_url_iff (plus : Bool) (path : Bytes) :
    decodeUrl plus (encodeUrl path) = path ↔
      0 ∉ path ∧ ∀ front rest, path = front ++ 37 :: rest → escape rest = none := by
  by_cases h0 : 0 ∈ path
  · refine ⟨fun h => ?_, fun h => absurd h0 h.1⟩
    have hlen := (decodeUrl_encoded plus (cStr path)).1
    have hread : decodeUrl plus (encoded (cStr path)) = path := h
    have hcut : (cStr path).length < path.length := by
      refine lt_of_le_of_ne (List.takeWhile_prefix _).length_le fun heq => ?_
      rw [← (List.takeWhile_prefix _).eq_of_length heq] at h0
      exact zero_notMem_cStr path h0
    rw [hread] at hlen
    omega
  · rw [encodeUrl_eq h0, (decodeUrl_encoded plus path).2]
    exact ⟨fun h => ⟨h0, h⟩, fun h => h.2⟩

end EzRemote.Http

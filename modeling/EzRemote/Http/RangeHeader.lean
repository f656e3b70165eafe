import EzRemote.Http.Text
import EzRemote.Lib.Decimal
import EzRemote.Lib.Regex

/-!
# The Range header

What `BaseClient` and httplib write into a Range header, and what the server
makes of one.
-/

namespace EzRemote.Http

open RegularExpression Regex

/-- `Range`; -1 stands for a bound that is left out. -/
abbrev Range := Int × Int

/-- A bound in the header. -/
def boundText (n : Int) : Bytes := if n ≠ -1 then toDecimal n else []

def rangeText (r : Range) : Bytes := boundText r.1 ++ 45 :: boundText r.2

/-- The loop of `make_range_header`. -/
def rangesText : Nat → List Range → Bytes
  | _, [] => []
  | i, r :: ranges => (if i ≠ 0 then bytes ", " else []) ++ (rangeText r ++ rangesText (i + 1) ranges)

def makeRangeHeader (ranges : List Range) : Bytes := bytes "bytes=" ++ rangesText 0 ranges

/-- The header of `BaseClient::Get` that resumes at an offset. -/
def resumeHeader (offset : UInt64) : Bytes :=
  bytes "bytes=" ++ toDecimal offset.toNat ++ bytes "-"

/-- The header of `BaseClient::GetRange`. -/
def getRangeHeader (offset size : UInt64) : Bytes :=
  bytes "bytes=" ++ toDecimal offset.toNat ++ bytes "-" ++ toDecimal (offset + size - 1).toNat

def digits : Bytes := [48, 49, 50, 51, 52, 53, 54, 55, 56, 57]

def spaces : Bytes := [32, 9, 10, 11, 12, 13]

/-- `\d*-\d*`. -/
def reBounds : RegularExpression UInt8 :=
  star (oneOf digits) * (char 45 * star (oneOf digits))

/-- `,\s*\d*-\d*`. -/
def reMoreBounds : RegularExpression UInt8 := char 44 * (star (oneOf spaces) * reBounds)

def reFirstRange : RegularExpression UInt8 :=
  literal (bytes "bytes=") * (reBounds * star reMoreBounds)

/-- `re_another_range`, `\s*(\d*)-(\d*)`: the two groups. -/
def reAnotherRange (text : Bytes) : Option (Bytes × Bytes) :=
  let rest := text.dropWhile (· ∈ spaces)
  match rest.dropWhile Decimal.isDigit with
  | [] => none
  | b :: last =>
    if b = 45 ∧ last.all Decimal.isDigit then some (rest.takeWhile Decimal.isDigit, last) else none

/-- `std::stoll` of digits. -/
def stoll (text : Bytes) : Option Int :=
  if Decimal.value text ≤ 9223372036854775807 then some (Decimal.value text) else none

/-- The bound in a group. -/
def bound (group : Bytes) : Option Int := if group ≠ [] then stoll group else some (-1)

/-- What `parse_range_header` makes of one piece; without a result it fails. -/
def anotherRange (text : Bytes) : Option (List Range) :=
  match reAnotherRange text with
  | none => some []
  | some (first, last) =>
    (bound first).bind fun first => (bound last).bind fun last =>
      if first ≠ -1 ∧ last ≠ -1 ∧ first > last then none else some [(first, last)]

/-- The pieces one after another. -/
def anotherRanges : List Bytes → Option (List Range)
  | [] => some []
  | text :: texts =>
    (anotherRange text).bind fun ranges => (anotherRanges texts).map (ranges ++ ·)

def parseRangeHeader (s : Bytes) : Option (List Range) :=
  if reFirstRange.rmatch s then
    anotherRanges (split (s.drop 6) 44 none)
  else none

/-- Bounds that a header can carry. -/
structure Valid (r : Range) : Prop where
  first : -1 ≤ r.1 ∧ r.1 ≤ 9223372036854775807
  last : -1 ≤ r.2 ∧ r.2 ≤ 9223372036854775807
  order : r.1 = -1 ∨ r.2 = -1 ∨ r.1 ≤ r.2

theorem bound_range {group : Bytes} {n : Int} (h : bound group = some n) :
    -1 ≤ n ∧ n ≤ 9223372036854775807 := by
  unfold bound at h
  split at h
  · unfold stoll at h
    split at h
    · rename_i hle
      cases h
      omega
    · cases h
  · cases h
    omega

theorem valid_of_anotherRange {text : Bytes} {ranges : List Range}
    (h : anotherRange text = some ranges) : ∀ r ∈ ranges, Valid r := by
  unfold anotherRange at h
  split at h
  · cases h
    exact fun r hr => absurd hr List.not_mem_nil
  · obtain ⟨first, hfirst, h⟩ := Option.bind_eq_some_iff.mp h
    obtain ⟨last, hlast, h⟩ := Option.bind_eq_some_iff.mp h
    split at h
    · cases h
    · rename_i horder
      cases h
      intro r hr
      rw [List.mem_singleton.mp hr]
      refine ⟨bound_range hfirst, bound_range hlast, ?_⟩
      show first = -1 ∨ last = -1 ∨ first ≤ last
      omega

theorem valid_of_anotherRanges {texts : List Bytes} {ranges : List Range}
    (h : anotherRanges texts = some ranges) : ∀ r ∈ ranges, Valid r := by
  induction texts generalizing ranges with
  | nil =>
    cases h
    exact fun r hr => absurd hr List.not_mem_nil
  | cons text texts ih =>
    obtain ⟨first, hfirst, h⟩ := Option.bind_eq_some_iff.mp h
    obtain ⟨rest, hrest, rfl⟩ := Option.map_eq_some_iff.mp h
    intro r hr
    rcases List.mem_append.mp hr with hr | hr
    · exact valid_of_anotherRange hfirst r hr
    · exact ih hrest r hr

theorem valid_of_parse {s : Bytes} {ranges : List Range}
    (h : parseRangeHeader s = some ranges) : ∀ r ∈ ranges, Valid r := by
  unfold parseRangeHeader at h
  split at h
  · exact valid_of_anotherRanges h
  · cases h

theorem toDecimal_natCast (n : Nat) : toDecimal n = Decimal.ofNat n := by
  unfold toDecimal bytes Decimal.ofNat
  rw [show toString (n : Int) = Nat.repr n from rfl, Nat.toList_repr]

theorem mem_digits_iff {b : UInt8} : b ∈ digits ↔ Decimal.isDigit b = true := by
  simp only [digits, Decimal.isDigit_iff, List.mem_cons, List.not_mem_nil, or_false,
    ← UInt8.toNat_inj, UInt8.reduceToNat]
  omega

theorem boundText_spec {n : Int} (h : -1 ≤ n ∧ n ≤ 9223372036854775807) :
    (∀ b ∈ boundText n, Decimal.isDigit b = true) ∧ bound (boundText n) = some n := by
  unfold boundText
  by_cases hn : n = -1
  · rw [if_neg (by omega), hn]
    exact ⟨fun b hb => absurd hb List.not_mem_nil, rfl⟩
  · obtain ⟨m, rfl⟩ := Int.eq_ofNat_of_zero_le (show 0 ≤ n by omega)
    rw [if_pos hn, toDecimal_natCast]
    refine ⟨fun b hb => Decimal.isDigit_of_mem_ofNat hb, ?_⟩
    unfold bound stoll
    rw [if_pos (Decimal.ofNat_ne_nil m), Decimal.value_ofNat, if_pos (by omega)]

structure IsBounds (first last text : Bytes) : Prop where
  digits_first : ∀ b ∈ first, Decimal.isDigit b = true
  digits_last : ∀ b ∈ last, Decimal.isDigit b = true
  text_eq : text = first ++ 45 :: last

theorem isBounds_rangeText {r : Range} (h : Valid r) :
    IsBounds (boundText r.1) (boundText r.2) (rangeText r) :=
  ⟨(boundText_spec h.first).1, (boundText_spec h.last).1, rfl⟩

theorem rmatch_reBounds_iff {text : Bytes} :
    reBounds.rmatch text = true ↔ ∃ first last, IsBounds first last text := by
  have hdigits : ∀ group : Bytes, (star (oneOf digits)).rmatch group = true ↔
      ∀ b ∈ group, Decimal.isDigit b = true := by
    intro group
    rw [rmatch_star_oneOf]
    exact forall₂_congr fun b _ => mem_digits_iff
  unfold reBounds
  rw [mul_rmatch_iff]
  constructor
  · rintro ⟨first, rest, rfl, hfirst, hrest⟩
    obtain ⟨hyphen, last, rfl, hhyphen, hlast⟩ := (mul_rmatch_iff _ _ _).mp hrest
    rw [(char_rmatch_iff 45 hyphen).mp hhyphen]
    exact ⟨first, last, (hdigits first).mp hfirst, (hdigits last).mp hlast, rfl⟩
  · rintro ⟨first, last, hfirst, hlast, rfl⟩
    refine ⟨first, 45 :: last, rfl, (hdigits first).mpr hfirst, (mul_rmatch_iff _ _ _).mpr ?_⟩
    exact ⟨[45], last, rfl, (char_rmatch_iff 45 [45]).mpr rfl, (hdigits last).mpr hlast⟩

section
variable {first last text : Bytes}

theorem IsBounds.mem (h : IsBounds first last text) {b : UInt8} (hb : b ∈ text) :
    isSpaceOrTab b = false ∧ b ≠ 44 ∧ b ∉ spaces := by
  have hrange : 45 ≤ b.toNat ∧ b.toNat ≤ 57 := by
    have hdigit : Decimal.isDigit b = true → 45 ≤ b.toNat ∧ b.toNat ≤ 57 := by
      intro hb
      have := Decimal.isDigit_iff.mp hb
      omega
    rw [h.text_eq] at hb
    rcases List.mem_append.mp hb with hb | hb
    · exact hdigit (h.digits_first b hb)
    · rcases List.mem_cons.mp hb with rfl | hb
      · decide
      · exact hdigit (h.digits_last b hb)
  simp only [isSpaceOrTab, spaces, List.mem_cons, List.not_mem_nil, or_false, Bool.or_eq_false_iff,
    beq_eq_false_iff_ne, ne_eq, ← UInt8.toNat_inj, UInt8.reduceToNat]
  omega

theorem IsBounds.ne_nil (h : IsBounds first last text) : text ≠ [] := by
  rw [h.text_eq]
  simp

theorem IsBounds.trimmed (h : IsBounds first last text) {a : Bytes} (ha : Blank a) :
    trimmed (a ++ text) = text := by
  have hbare : Bare text := by
    obtain ⟨x, xs, hx⟩ := List.exists_cons_of_ne_nil h.ne_nil
    refine ⟨⟨x, xs, hx, ?_⟩, ⟨_, _, (List.dropLast_append_getLast h.ne_nil).symm, ?_⟩⟩
    · exact (h.mem (hx ▸ List.mem_cons_self)).1
    · exact (h.mem (List.getLast_mem h.ne_nil)).1
  have := trimmed_of_bare (c := []) hbare ha fun b hb => absurd hb List.not_mem_nil
  rwa [List.append_nil] at this

theorem IsBounds.reAnotherRange (h : IsBounds first last text) :
    reAnotherRange text = some (first, last) := by
  have hspace : text.dropWhile (fun b => decide (b ∈ spaces)) = text := by
    obtain ⟨x, xs, hx⟩ := List.exists_cons_of_ne_nil h.ne_nil
    rw [hx, List.dropWhile_cons_of_neg]
    simpa using (h.mem (hx ▸ List.mem_cons_self)).2.2
  have hend : ∀ b ∈ (45 :: last).head?, Decimal.isDigit b = false := by
    rintro b ⟨⟩
    decide
  have hspan := Decimal.span_digits h.digits_first hend
  unfold Http.reAnotherRange
  dsimp only
  rw [hspace, h.text_eq, hspan.1, hspan.2]
  dsimp only
  rw [if_pos ⟨rfl, List.all_eq_true.mpr h.digits_last⟩]

end

theorem anotherRange_rangeText {r : Range} (h : Valid r) :
    anotherRange (rangeText r) = some [r] := by
  unfold anotherRange
  rw [(isBounds_rangeText h).reAnotherRange]
  dsimp only
  rw [(boundText_spec h.first).2, (boundText_spec h.last).2, Option.bind_some, Option.bind_some,
    if_neg]
  rcases h.order with h | h | h <;> omega

/-- What follows the first range. -/
def moreRanges (ranges : List Range) : Bytes := (ranges.map fun r => 44 :: 32 :: rangeText r).flatten

theorem rangesText_succ (i : Nat) (ranges : List Range) :
    rangesText (i + 1) ranges = moreRanges ranges := by
  induction ranges generalizing i with
  | nil => rfl
  | cons r ranges ih =>
    unfold rangesText
    rw [if_pos (Nat.succ_ne_zero i), ih]
    rfl

theorem makeRangeHeader_cons (r : Range) (ranges : List Range) :
    makeRangeHeader (r :: ranges) = bytes "bytes=" ++ (rangeText r ++ moreRanges ranges) := by
  unfold makeRangeHeader rangesText
  rw [if_neg (by decide), rangesText_succ, List.nil_append]

theorem not_rmatch_reMoreBounds_nil : ¬ reMoreBounds.rmatch [] = true := by
  intro hmatch
  unfold reMoreBounds at hmatch
  obtain ⟨t, u, heq, ht, -⟩ := (mul_rmatch_iff _ _ _).mp hmatch
  rw [(char_rmatch_iff 44 t).mp ht] at heq
  cases heq

/-- A header is accepted if it starts with a range, and a comma follows that. -/
theorem exists_of_rmatch {s : Bytes} (h : reFirstRange.rmatch s = true) :
    ∃ first last text rest, IsBounds first last text ∧ s = bytes "bytes=" ++ (text ++ rest) ∧
      (rest = [] ∨ ∃ more, rest = 44 :: more) := by
  unfold reFirstRange at h
  obtain ⟨lit, u, rfl, hlit, hu⟩ := (mul_rmatch_iff _ _ _).mp h
  obtain ⟨text, rest, rfl, htext, hrest⟩ := (mul_rmatch_iff _ _ _).mp hu
  obtain ⟨first, last, hbounds⟩ := rmatch_reBounds_iff.mp htext
  refine ⟨first, last, text, rest, hbounds, by rw [rmatch_literal.mp hlit], ?_⟩
  obtain ⟨S, rfl, hS⟩ := (rmatch_star not_rmatch_reMoreBounds_nil).mp hrest
  cases S with
  | nil => exact .inl rfl
  | cons t S =>
    have ht := hS t List.mem_cons_self
    unfold reMoreBounds at ht
    obtain ⟨comma, more, rfl, hcomma, -⟩ := (mul_rmatch_iff _ _ _).mp ht
    rw [(char_rmatch_iff 44 comma).mp hcomma]
    exact .inr ⟨more ++ S.flatten, rfl⟩

theorem rmatch_reFirstRange {r : Range} {ranges : List Range} (hr : Valid r)
    (h : ∀ r ∈ ranges, Valid r) :
    reFirstRange.rmatch (makeRangeHeader (r :: ranges)) = true := by
  have hbounds : ∀ q, Valid q → reBounds.rmatch (rangeText q) = true :=
    fun q hq => rmatch_reBounds_iff.mpr ⟨_, _, isBounds_rangeText hq⟩
  have hmore : (star reMoreBounds).rmatch (moreRanges ranges) = true := by
    rw [rmatch_star not_rmatch_reMoreBounds_nil]
    refine ⟨_, rfl, ?_⟩
    intro t ht
    obtain ⟨q, hq, rfl⟩ := List.mem_map.mp ht
    unfold reMoreBounds
    rw [mul_rmatch_iff]
    refine ⟨[44], 32 :: rangeText q, rfl, (char_rmatch_iff 44 [44]).mpr rfl, ?_⟩
    rw [mul_rmatch_iff]
    refine ⟨[32], rangeText q, rfl, ?_, hbounds q (h q hq)⟩
    rw [rmatch_star_oneOf]
    intro b hb
    rw [List.mem_singleton.mp hb]
    exact List.mem_cons_self
  rw [makeRangeHeader_cons]
  unfold reFirstRange
  rw [mul_rmatch_iff]
  refine ⟨_, _, rfl, rmatch_literal.mpr rfl, ?_⟩
  rw [mul_rmatch_iff]
  exact ⟨_, _, rfl, hbounds r hr, hmore⟩

theorem splitOn_moreRanges {text : Bytes} (htext : 44 ∉ text) {ranges : List Range}
    (h : ∀ r ∈ ranges, Valid r) :
    (text ++ moreRanges ranges).splitOn 44 = text :: ranges.map fun r => 32 :: rangeText r := by
  induction ranges generalizing text with
  | nil =>
    rw [moreRanges, List.map_nil, List.flatten_nil, List.append_nil, List.splitOn_eq_singleton htext]
    rfl
  | cons r ranges ih =>
    have hcomma : (44 : UInt8) ∉ 32 :: rangeText r := by
      rw [List.mem_cons, not_or]
      refine ⟨by decide, fun hb => ?_⟩
      exact ((isBounds_rangeText (h r List.mem_cons_self)).mem hb).2.1 rfl
    have hmore : moreRanges (r :: ranges) = 44 :: (32 :: rangeText r ++ moreRanges ranges) := rfl
    rw [hmore, List.splitOn_append_cons_self, List.splitOn_eq_singleton htext,
      ih hcomma fun q hq => h q (List.mem_cons_of_mem _ hq)]
    rfl

theorem split_ranges {r : Range} {ranges : List Range} (hr : Valid r) (h : ∀ r ∈ ranges, Valid r) :
    split (rangeText r ++ moreRanges ranges) 44 none = (r :: ranges).map rangeText := by
  have hcomma : (44 : UInt8) ∉ rangeText r := fun hb => ((isBounds_rangeText hr).mem hb).2.1 rfl
  have htrim : trimmed (rangeText r) = rangeText r :=
    (isBounds_rangeText hr).trimmed (a := []) fun b hb => absurd hb List.not_mem_nil
  have hmap : ranges.map (trimmed ∘ fun q => 32 :: rangeText q) = ranges.map rangeText := by
    refine List.map_congr_left fun q hq => ?_
    exact (isBounds_rangeText (h q hq)).trimmed (a := [32]) (by simp [Blank, isSpaceOrTab])
  rw [split_none, splitOn_moreRanges hcomma h, List.map_cons, List.map_map, htrim, hmap,
    ← List.map_cons, List.filter_eq_self.mpr]
  intro text htext
  obtain ⟨q, hq, rfl⟩ := List.mem_map.mp htext
  have hq : Valid q := (List.forall_mem_cons.mpr ⟨hr, h⟩) q hq
  simpa using (isBounds_rangeText hq).ne_nil

theorem anotherRanges_map {ranges : List Range} (h : ∀ r ∈ ranges, Valid r) :
    anotherRanges (ranges.map rangeText) = some ranges := by
  induction ranges with
  | nil => rfl
  | cons r ranges ih =>
    rw [List.map_cons, anotherRanges, anotherRange_rangeText (h r List.mem_cons_self),
      ih fun q hq => h q (List.mem_cons_of_mem _ hq)]
    rfl

theorem ne_nil_of_parse {s : Bytes} {ranges : List Range} (h : parseRangeHeader s = some ranges) :
    ranges ≠ [] := by
  unfold parseRangeHeader at h
  split at h
  · rename_i hmatch
    obtain ⟨first, last, text, rest, hbounds, rfl, hrest⟩ := exists_of_rmatch hmatch
    have hcomma : 44 ∉ text := fun hb => (hbounds.mem hb).2.1 rfl
    have htrim : trimmed text = text :=
      hbounds.trimmed (a := []) fun b hb => absurd hb List.not_mem_nil
    obtain ⟨texts, htexts⟩ : ∃ texts, split (text ++ rest) 44 none = text :: texts := by
      have hsplit : ∃ parts, (text ++ rest).splitOn 44 = text :: parts := by
        rcases hrest with rfl | ⟨more, rfl⟩
        · exact ⟨[], by rw [List.append_nil, List.splitOn_eq_singleton hcomma]⟩
        · exact ⟨_, by rw [List.splitOn_append_cons_self, List.splitOn_eq_singleton hcomma,
            List.singleton_append]⟩
      obtain ⟨parts, hparts⟩ := hsplit
      refine ⟨(parts.map trimmed).filter (· ≠ []), ?_⟩
      rw [split_none, hparts, List.map_cons, htrim,
        List.filter_cons_of_pos (by simpa using hbounds.ne_nil)]
    rw [List.drop_left' (by decide), htexts, anotherRanges] at h
    obtain ⟨one, hone, h⟩ := Option.bind_eq_some_iff.mp h
    obtain ⟨others, -, rfl⟩ := Option.map_eq_some_iff.mp h
    unfold anotherRange at hone
    rw [hbounds.reAnotherRange] at hone
    obtain ⟨n, -, hone⟩ := Option.bind_eq_some_iff.mp hone
    obtain ⟨m, -, hone⟩ := Option.bind_eq_some_iff.mp hone
    split at hone
    · cases hone
    · cases hone
      exact List.cons_ne_nil _ _
  · cases h

theorem parse_makeRangeHeader_iff {ranges : List Range} :
    parseRangeHeader (makeRangeHeader ranges) = some ranges ↔
      ranges ≠ [] ∧ ∀ r ∈ ranges, Valid r := by
  constructor
  · exact fun h => ⟨ne_nil_of_parse h, valid_of_parse h⟩
  · rintro ⟨hne, hvalid⟩
    cases ranges with
    | nil => exact absurd rfl hne
    | cons r ranges =>
      obtain ⟨hr, hrest⟩ := List.forall_mem_cons.mp hvalid
      unfold parseRangeHeader
      rw [if_pos (rmatch_reFirstRange hr hrest), makeRangeHeader_cons,
        List.drop_left' (by decide), split_ranges hr hrest, anotherRanges_map hvalid]

theorem resumeHeader_eq (offset : UInt64) :
    resumeHeader offset = makeRangeHeader [(offset.toNat, -1)] := by
  have hfirst : boundText (offset.toNat : Int) = toDecimal offset.toNat := if_pos (by omega)
  rw [makeRangeHeader_cons, moreRanges, List.map_nil, List.flatten_nil, List.append_nil, rangeText,
    hfirst, resumeHeader, List.append_assoc]
  rfl

theorem parse_bounds {first last text : Bytes} (h : IsBounds first last text) :
    parseRangeHeader (bytes "bytes=" ++ text) = anotherRange text := by
  have hmatch : reFirstRange.rmatch (bytes "bytes=" ++ text) = true := by
    unfold reFirstRange
    rw [mul_rmatch_iff]
    refine ⟨_, _, rfl, rmatch_literal.mpr rfl, ?_⟩
    rw [mul_rmatch_iff]
    exact ⟨text, [], (List.append_nil text).symm, rmatch_reBounds_iff.mpr ⟨_, _, h⟩, rfl⟩
  have hsplit : split text 44 none = [text] := by
    have htrim := h.trimmed (a := []) fun b hb => absurd hb List.not_mem_nil
    rw [split_none, List.splitOn_eq_singleton fun hb => (h.mem hb).2.1 rfl, List.map_singleton]
    rw [List.nil_append] at htrim
    rw [htrim, List.filter_cons_of_pos (by simpa using h.ne_nil), List.filter_nil]
  unfold parseRangeHeader
  rw [if_pos hmatch, List.drop_left' (by decide), hsplit, anotherRanges, anotherRanges]
  cases anotherRange text with
  | none => rfl
  | some ranges => exact congrArg some (List.append_nil ranges)

theorem bound_ofNat (n : Nat) :
    bound (Decimal.ofNat n) = if n ≤ 9223372036854775807 then some (n : Int) else none := by
  unfold bound stoll
  rw [if_pos (Decimal.ofNat_ne_nil n), Decimal.value_ofNat]

theorem parse_getRangeHeader (offset size : UInt64) :
    parseRangeHeader (getRangeHeader offset size) =
      if offset.toNat ≤ (offset + size - 1).toNat ∧
          (offset + size - 1).toNat ≤ 9223372036854775807 then
        some [((offset.toNat : Int), ((offset + size - 1).toNat : Int))]
      else none := by
  have hdigits : ∀ n, ∀ b ∈ Decimal.ofNat n, Decimal.isDigit b = true :=
    fun n b hb => Decimal.isDigit_of_mem_ofNat hb
  have hbounds : IsBounds (Decimal.ofNat offset.toNat) (Decimal.ofNat (offset + size - 1).toNat) _ :=
    ⟨hdigits _, hdigits _, rfl⟩
  have htext : getRangeHeader offset size = bytes "bytes=" ++
      (Decimal.ofNat offset.toNat ++ 45 :: Decimal.ofNat (offset + size - 1).toNat) := by
    rw [getRangeHeader, toDecimal_natCast, toDecimal_natCast, List.append_assoc, List.append_assoc]
    rfl
  rw [htext, parse_bounds hbounds, anotherRange, hbounds.reAnotherRange]
  dsimp only
  rw [bound_ofNat, bound_ofNat]
  generalize offset.toNat = n
  generalize (offset + size - 1).toNat = m
  by_cases hm : m ≤ 9223372036854775807
  · by_cases hn : n ≤ 9223372036854775807
    · rw [if_pos hm, if_pos hn, Option.bind_some, Option.bind_some]
      by_cases hle : n ≤ m
      · rw [if_neg (by omega), if_pos ⟨hle, hm⟩]
      · rw [if_pos (by omega), if_neg (by omega)]
    · rw [if_neg hn, Option.bind_none, if_neg (by omega)]
  · have hnone : ∀ o : Option Int, (o.bind fun _ => (none : Option (List Range))) = none := by
      intro o
      cases o <;> rfl
    have hneg : ¬ (n ≤ m ∧ m ≤ 9223372036854775807) := fun h => hm h.2
    rw [if_neg hm, if_neg hneg]
    exact hnone _

/-- The server reads the ranges that were written, unless there is none, a bound
is no position or two bounds stand the wrong way round; what it accepts from
anyone reads the same when it is written again; and it reads what `BaseClient`
asks for up to the last position that `ssize_t` has. -/
theorem range_header_round_trip (ranges : List Range) (s : Bytes) (offset size : UInt64) :
    (parseRangeHeader (makeRangeHeader ranges) = some ranges ↔
      ranges ≠ [] ∧ ∀ r ∈ ranges, Valid r) ∧
    (parseRangeHeader s = some ranges → parseRangeHeader (makeRangeHeader ranges) = some ranges) ∧
    (parseRangeHeader (resumeHeader offset) = some [((offset.toNat : Int), -1)] ↔
      offset.toNat < 9223372036854775808) ∧
    (parseRangeHeader (getRangeHeader offset size) =
        some [((offset.toNat : Int), (offset.toNat : Int) + size.toNat - 1)] ↔
      0 < size.toNat ∧ offset.toNat + size.toNat ≤ 9223372036854775808) := by
  refine ⟨parse_makeRangeHeader_iff, ?_, ?_, ?_⟩
  · exact fun h => parse_makeRangeHeader_iff.mpr ⟨ne_nil_of_parse h, valid_of_parse h⟩
  · rw [resumeHeader_eq, parse_makeRangeHeader_iff, List.forall_mem_singleton]
    constructor
    · rintro ⟨-, hvalid⟩
      have : (offset.toNat : Int) ≤ 9223372036854775807 := hvalid.first.2
      omega
    · intro h
      refine ⟨List.cons_ne_nil _ _, ⟨?_, ?_, .inr (.inl rfl)⟩⟩ <;> dsimp only <;> omega
  · have hoffset := offset.toNat_lt
    have hsize := size.toNat_lt
    have hlast : (offset + size - 1).toNat =
        (offset.toNat + size.toNat + 18446744073709551615) % 18446744073709551616 := by
      rw [UInt64.toNat_sub, UInt64.toNat_add]
      show (18446744073709551616 - 1 + (offset.toNat + size.toNat) % 18446744073709551616) %
        18446744073709551616 = _
      omega
    rw [parse_getRangeHeader, hlast]
    constructor
    · intro h
      split at h
      · simp only [Option.some.injEq, List.cons.injEq, Prod.mk.injEq, and_true, true_and] at h
        omega
      · cases h
    · rintro ⟨hs, hle⟩
      rw [if_pos (by omega)]
      simp only [Option.some.injEq, List.cons.injEq, Prod.mk.injEq, and_true, true_and]
      omega

end EzRemote.Http

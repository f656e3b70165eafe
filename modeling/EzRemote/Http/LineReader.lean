import EzRemote.Http.Text
import EzRemote.Http.Url
import EzRemote.Lib.Reader

/-!
# Lines from a connection

`detail::stream_line_reader`, and the numbers that the lines hold: `strtoul` and
`detail::from_i_to_hex`.
-/

namespace EzRemote.Http

def ulongMax : Nat := 18446744073709551615

/-- A digit of a base up to 16. -/
def digitOf (base : Nat) (c : UInt8) : Option Nat := (isHex c).filter (· < base)

def digitsOf (base : Nat) (text : Bytes) : Bytes :=
  text.takeWhile fun c => (digitOf base c).isSome

def valueOf (base : Nat) (digits : Bytes) (n : Nat) : Nat :=
  digits.foldl (fun n c => n * base + (digitOf base c).getD 0) n

/-- The number of the digits with a sign in front of them; nothing where there are no digits. -/
def ulongOf (base : Nat) (negative : Bool) (digits : Bytes) : Option Nat :=
  let n := valueOf base digits 0
  if digits = [] then none
  else if n ≤ ulongMax then some (if negative then (ulongMax + 1 - n) % (ulongMax + 1) else n)
  else some ulongMax

/-- `std::strtoul` and `std::strtoull`; nothing where no number was read. -/
def strtoul (base : Nat) (text : Bytes) : Option Nat :=
  let text := (cStr text).dropWhile isSpace
  let negative : Bool := text.head? = some 45
  let text := if text.head? = some 45 ∨ text.head? = some 43 then text.tail else text
  let text :=
    if base = 16 ∧ (text.take 2 = bytes "0x" ∨ text.take 2 = bytes "0X") ∧
      digitsOf base (text.drop 2) ≠ [] then text.drop 2 else text
  ulongOf base negative (digitsOf base text)

/-- A character of the `charset` of `from_i_to_hex`. -/
def lowerHex (n : Nat) : UInt8 := UInt8.ofNat (if n < 10 then 48 + n else 87 + n)

def fromIToHexLoop (n : Nat) (ret : Bytes) : Bytes :=
  if 0 < n / 16 then fromIToHexLoop (n / 16) (lowerHex (n % 16) :: ret)
  else lowerHex (n % 16) :: ret
termination_by n
decreasing_by omega

def fromIToHex (n : Nat) : Bytes := fromIToHexLoop n []

theorem digitOf_lowerHex : ∀ n < 16, digitOf 16 (lowerHex n) = some n := by decide

theorem valueOf_fromIToHexLoop (n : Nat) (ret : Bytes) :
    valueOf 16 (fromIToHexLoop n ret) 0 = valueOf 16 ret n := by
  induction n using Nat.strongRecOn generalizing ret with
  | _ n ih =>
    have hdigit := digitOf_lowerHex (n % 16) (Nat.mod_lt _ (by decide))
    rw [fromIToHexLoop]
    by_cases h : 0 < n / 16
    · rw [if_pos h, ih (n / 16) (by omega), valueOf, List.foldl_cons, hdigit, Option.getD_some]
      rw [show n / 16 * 16 + n % 16 = n by omega]
      rfl
    · rw [if_neg h, valueOf, List.foldl_cons, hdigit, Option.getD_some]
      rw [show 0 * 16 + n % 16 = n by omega]
      rfl

theorem mem_fromIToHexLoop {n : Nat} {ret : Bytes} {c : UInt8} (h : c ∈ fromIToHexLoop n ret) :
    c ∈ ret ∨ ∃ m < 16, c = lowerHex m := by
  induction n using Nat.strongRecOn generalizing ret with
  | _ n ih =>
    have hlast : n % 16 < 16 := Nat.mod_lt _ (by decide)
    rw [fromIToHexLoop] at h
    by_cases hn : 0 < n / 16
    · rw [if_pos hn] at h
      obtain hmem | hdigit := ih (n / 16) (by omega) h
      · obtain rfl | hmem := List.mem_cons.mp hmem
        · exact .inr ⟨_, hlast, rfl⟩
        · exact .inl hmem
      · exact .inr hdigit
    · rw [if_neg hn] at h
      obtain rfl | hmem := List.mem_cons.mp h
      · exact .inr ⟨_, hlast, rfl⟩
      · exact .inl hmem

theorem fromIToHexLoop_ne_nil (n : Nat) (ret : Bytes) : fromIToHexLoop n ret ≠ [] := by
  induction n using Nat.strongRecOn generalizing ret with
  | _ n ih =>
    rw [fromIToHexLoop]
    by_cases hn : 0 < n / 16
    · rw [if_pos hn]
      exact ih (n / 16) (by omega) _
    · rw [if_neg hn]
      exact List.cons_ne_nil _ _

theorem of_mem_fromIToHex {n : Nat} {c : UInt8} (h : c ∈ fromIToHex n) :
    (digitOf 16 c).isSome = true ∧ isSpace c = false ∧ c ≠ 45 ∧ c ≠ 43 ∧ c ≠ 120 ∧ c ≠ 88 ∧
      c ≠ 0 ∧ c ≠ 10 ∧ c ≠ 13 := by
  have hall : ∀ m < 16, (digitOf 16 (lowerHex m)).isSome = true ∧ isSpace (lowerHex m) = false ∧
      lowerHex m ≠ 45 ∧ lowerHex m ≠ 43 ∧ lowerHex m ≠ 120 ∧ lowerHex m ≠ 88 ∧ lowerHex m ≠ 0 ∧
      lowerHex m ≠ 10 ∧ lowerHex m ≠ 13 := by decide
  obtain hmem | ⟨m, hm, rfl⟩ := mem_fromIToHexLoop h
  · cases hmem
  · exact hall m hm

theorem digitsOf_append {base : Nat} {digits rest : Bytes}
    (hdigits : ∀ c ∈ digits, (digitOf base c).isSome = true)
    (hrest : ∀ c ∈ rest.head?, (digitOf base c).isSome = false) :
    digitsOf base (digits ++ rest) = digits := by
  unfold digitsOf
  rw [List.takeWhile_append_of_pos hdigits]
  cases rest with
  | nil => rw [List.takeWhile_nil, List.append_nil]
  | cons c rest =>
    have hc : ¬ (digitOf base c).isSome = true := by
      rw [hrest c rfl]
      decide
    rw [List.takeWhile_cons_of_neg (p := fun c => (digitOf base c).isSome) hc, List.append_nil]

/-- A size as it is sent in front of a chunk is read as that size. -/
theorem strtoul_fromIToHex {n : Nat} (hn : n ≤ ulongMax) :
    strtoul 16 (fromIToHex n ++ crlf) = some n := by
  obtain ⟨c, text, htext⟩ : ∃ c text, fromIToHex n = c :: text :=
    List.exists_cons_of_ne_nil (fromIToHexLoop_ne_nil n [])
  obtain ⟨-, hspace, h45, h43, -⟩ :=
    of_mem_fromIToHex (n := n) (c := c) (htext ▸ List.mem_cons_self)
  have hcstr : cStr (fromIToHex n ++ crlf) = fromIToHex n ++ crlf := by
    refine cStr_of_notMem fun h0 => ?_
    obtain h0 | h0 := List.mem_append.mp h0
    · exact (of_mem_fromIToHex h0).2.2.2.2.2.2.1 rfl
    · exact absurd h0 (by decide)
  have hdrop : (fromIToHex n ++ crlf).dropWhile isSpace = fromIToHex n ++ crlf := by
    rw [htext, List.cons_append, List.dropWhile_cons_of_neg (by rw [hspace]; decide)]
  have hhead : (fromIToHex n ++ crlf).head? = some c := by rw [htext]; rfl
  have hx : ¬ ((fromIToHex n ++ crlf).take 2 = bytes "0x" ∨
      (fromIToHex n ++ crlf).take 2 = bytes "0X") := by
    -- the second character is a digit or the carriage return
    have hsecond : ∀ d, (fromIToHex n ++ crlf)[1]? = some d → d ≠ 120 ∧ d ≠ 88 := by
      intro d hd
      have hmem := List.mem_of_getElem? hd
      obtain hmem | hmem := List.mem_append.mp hmem
      · exact ⟨(of_mem_fromIToHex hmem).2.2.2.2.1, (of_mem_fromIToHex hmem).2.2.2.2.2.1⟩
      · constructor <;> (rintro rfl; revert hmem; decide)
    have hget : ∀ x : UInt8, (fromIToHex n ++ crlf).take 2 = [48, x] →
        (fromIToHex n ++ crlf)[1]? = some x := by
      intro x hx
      rw [← List.getElem?_take_of_lt (show 1 < 2 by decide), hx]
      rfl
    rintro (h | h)
    · exact (hsecond 120 (hget 120 h)).1 rfl
    · exact (hsecond 88 (hget 88 h)).2 rfl
  have hcr : ∀ c ∈ crlf.head?, (digitOf 16 c).isSome = false := by
    rintro c ⟨⟩
    decide
  have hdigits : digitsOf 16 (fromIToHex n ++ crlf) = fromIToHex n :=
    digitsOf_append (fun c hc => (of_mem_fromIToHex hc).1) hcr
  have hvalue : valueOf 16 (fromIToHex n) 0 = n := valueOf_fromIToHexLoop n []
  unfold strtoul
  simp only [hcstr, hdrop, hhead, Option.some.injEq, h45, h43, or_self, if_false, hx, false_and,
    and_false, hdigits, decide_false]
  unfold ulongOf
  dsimp only
  rw [if_neg (show ¬ fromIToHex n = [] from fromIToHexLoop_ne_nil n []), hvalue, if_pos hn]
  rfl

theorem strtoul_le {base : Nat} {text : Bytes} {n : Nat} (h : strtoul base text = some n) :
    n ≤ ulongMax := by
  obtain ⟨negative, digits, hn⟩ : ∃ negative digits, ulongOf base negative digits = some n :=
    ⟨_, _, h⟩
  unfold ulongOf at hn
  dsimp only at hn
  by_cases hdigits : digits = []
  · rw [if_pos hdigits] at hn
    cases hn
  rw [if_neg hdigits] at hn
  by_cases hv : valueOf base digits 0 ≤ ulongMax
  · rw [if_pos hv] at hn
    rw [← Option.some.inj hn]
    cases negative
    · exact hv
    · exact Nat.le_of_lt_succ (Nat.mod_lt _ (Nat.succ_pos _))
  · rw [if_neg hv] at hn
    exact (Option.some.inj hn).ge

/-- `stream_line_reader`: the fixed buffer without its NUL, and the buffer for
what does not fit. -/
structure StreamLineReader where
  fixedBufferSize : Nat
  fixedBuffer : Bytes
  glowableBuffer : Bytes
  full : glowableBuffer ≠ [] → fixedBufferSize ≤ fixedBuffer.length + 1

namespace StreamLineReader

def new (fixedBufferSize : Nat) : StreamLineReader :=
  ⟨fixedBufferSize, [], [], fun h => absurd rfl h⟩

def ptr (line : StreamLineReader) : Bytes :=
  if line.glowableBuffer = [] then line.fixedBuffer else line.glowableBuffer

def size (line : StreamLineReader) : Nat :=
  if line.glowableBuffer = [] then line.fixedBuffer.length else line.glowableBuffer.length

def append (line : StreamLineReader) (c : UInt8) : StreamLineReader :=
  if h : line.fixedBuffer.length < line.fixedBufferSize - 1 then
    { line with
      fixedBuffer := line.fixedBuffer ++ [c]
      full := fun hne => by
        have := line.full hne
        omega }
  else
    { line with
      glowableBuffer :=
        (if line.glowableBuffer = [] then line.fixedBuffer else line.glowableBuffer) ++ [c]
      full := fun _ => by omega }

theorem size_eq (line : StreamLineReader) : line.size = line.ptr.length := by
  unfold size ptr
  by_cases h : line.glowableBuffer = []
  · rw [if_pos h, if_pos h]
  · rw [if_neg h, if_neg h]

theorem ptr_append (line : StreamLineReader) (c : UInt8) :
    (line.append c).ptr = line.ptr ++ [c] := by
  unfold append
  by_cases h : line.fixedBuffer.length < line.fixedBufferSize - 1
  · have hglow : line.glowableBuffer = [] := by
      by_contra hne
      have := line.full hne
      omega
    rw [dif_pos h, ptr, ptr, if_pos hglow, if_pos hglow]
  · rw [dif_neg h]
    unfold ptr
    dsimp only
    exact if_neg (by simp)

end StreamLineReader

/-- What `getline` leaves: whether there is a line, the line and the connection. -/
structure Line (σ : Type*) where
  ok : Bool
  line : StreamLineReader
  strm : σ

variable {σ : Type*} (strm : Reader UInt8 σ)

/-- The loop of `getline`, from its round `i` on. -/
def getlineLoop (i : Nat) (line : StreamLineReader) (s : σ) : Line σ :=
  match h : strm.read 1 s with
  | (none, t) => ⟨false, line, t⟩
  | (some [], t) => ⟨i ≠ 0, line, t⟩
  | (some (byte :: _), t) =>
    if byte = 10 then ⟨true, line.append byte, t⟩
    else getlineLoop (i + 1) (line.append byte) t
termination_by (strm.content s).length
decreasing_by exact strm.read_shorter Nat.one_pos h

def getline (line : StreamLineReader) (s : σ) : Line σ :=
  getlineLoop strm 0 (.new line.fixedBufferSize) s

variable {strm}

theorem getlineLoop_nil (i : Nat) (line : StreamLineReader) {s : σ} (hs : strm.content s = []) :
    ((getlineLoop strm i line s).ok = true → i ≠ 0) ∧ (getlineLoop strm i line s).line = line ∧
      strm.content (getlineLoop strm i line s).strm = [] := by
  obtain ⟨t, hread, ht⟩ := strm.read_nil Nat.one_pos hs
  rw [getlineLoop]
  split
  · rename_i t' h
    obtain hread | hread := hread <;> cases hread.symm.trans h
    exact ⟨fun h => (nomatch h), rfl, ht⟩
  · rename_i t' h
    obtain hread | hread := hread <;> cases hread.symm.trans h
    exact ⟨of_decide_eq_true, rfl, ht⟩
  · rename_i t' h
    obtain hread | hread := hread <;> cases hread.symm.trans h

theorem getlineLoop_cons (i : Nat) (line : StreamLineReader) {s : σ} {byte : UInt8} {rest : Bytes}
    (hs : strm.content s = byte :: rest) : ∃ t, strm.content t = rest ∧
      getlineLoop strm i line s = if byte = 10 then ⟨true, line.append byte, t⟩
        else getlineLoop strm (i + 1) (line.append byte) t := by
  obtain ⟨t, hread, ht⟩ := strm.read_one hs
  refine ⟨t, ht, ?_⟩
  rw [getlineLoop]
  split
  · rename_i h
    cases hread.symm.trans h
  · rename_i h
    cases hread.symm.trans h
  · rename_i h
    cases hread.symm.trans h
    rfl

/-- The loop takes the content up to the end of its first line, or all of it. -/
theorem getlineLoop_spec {l : Bytes} (hl : 10 ∉ l) (i : Nat) (line : StreamLineReader) (s : σ) :
    (∀ rest, strm.content s = l ++ 10 :: rest → (getlineLoop strm i line s).ok = true ∧
      (getlineLoop strm i line s).line.ptr = line.ptr ++ l ++ [10] ∧
      strm.content (getlineLoop strm i line s).strm = rest) ∧
    (strm.content s = l → ((getlineLoop strm i line s).ok = true → 0 < i + l.length) ∧
      (getlineLoop strm i line s).line.ptr = line.ptr ++ l ∧
      strm.content (getlineLoop strm i line s).strm = []) := by
  induction l generalizing i line s with
  | nil =>
    refine ⟨fun rest hs => ?_, fun hs => ?_⟩
    · obtain ⟨t, ht, hloop⟩ := getlineLoop_cons i line hs
      rw [hloop, if_pos rfl, List.append_nil]
      exact ⟨rfl, line.ptr_append 10, ht⟩
    · obtain ⟨hok, hline, ht⟩ := getlineLoop_nil i line hs
      rw [hline, List.append_nil, List.length_nil, Nat.add_zero]
      exact ⟨fun h => Nat.pos_of_ne_zero (hok h), rfl, ht⟩
  | cons c l ih =>
    have hc : c ≠ 10 := fun h => hl (h ▸ List.mem_cons_self)
    have hl' : 10 ∉ l := fun h => hl (List.mem_cons_of_mem _ h)
    have hptr : (line.append c).ptr ++ l = line.ptr ++ c :: l := by
      rw [line.ptr_append, List.append_assoc, List.singleton_append]
    refine ⟨fun rest hs => ?_, fun hs => ?_⟩
    · obtain ⟨t, ht, hloop⟩ := getlineLoop_cons i line hs
      rw [hloop, if_neg hc, ← hptr]
      exact (ih hl' (i + 1) (line.append c) t).1 rest ht
    · obtain ⟨t, ht, hloop⟩ := getlineLoop_cons i line hs
      rw [hloop, if_neg hc, ← hptr]
      obtain ⟨-, hrest⟩ := (ih hl' (i + 1) (line.append c) t).2 ht
      refine ⟨fun _ => ?_, hrest⟩
      rw [List.length_cons]
      omega

theorem getline_line {l rest : Bytes} (hl : 10 ∉ l) (line : StreamLineReader) {s : σ}
    (hs : strm.content s = l ++ 10 :: rest) : (getline strm line s).ok = true ∧
      (getline strm line s).line.ptr = l ++ [10] ∧
      strm.content (getline strm line s).strm = rest :=
  (getlineLoop_spec hl 0 (.new line.fixedBufferSize) s).1 rest hs

theorem getline_cut (line : StreamLineReader) {s : σ} (hl : 10 ∉ strm.content s) :
    ((getline strm line s).ok = true → strm.content s ≠ []) ∧
      (getline strm line s).line.ptr = strm.content s ∧
      strm.content (getline strm line s).strm = [] := by
  obtain ⟨hok, hptr, hrest⟩ :=
    (getlineLoop_spec hl 0 (.new line.fixedBufferSize) s).2 rfl
  refine ⟨fun h hnil => ?_, hptr, hrest⟩
  have := hok h
  rw [hnil] at this
  exact absurd this (Nat.lt_irrefl _)

theorem getline_shorter {line : StreamLineReader} {s : σ} (h : (getline strm line s).ok = true) :
    (strm.content (getline strm line s).strm).length < (strm.content s).length := by
  by_cases hs : 10 ∈ strm.content s
  · obtain ⟨l, rest, hsplit, hl⟩ := List.eq_append_cons_of_mem hs
    obtain ⟨-, -, hrest⟩ := getline_line hl line hsplit
    rw [hrest, hsplit, List.length_append, List.length_cons]
    omega
  · obtain ⟨hne, -, hrest⟩ := getline_cut line hs
    rw [hrest, List.length_nil]
    exact List.length_pos_iff.mpr (hne h)

end EzRemote.Http

import Mathlib.Data.List.DropRight
import EzRemote.Util

/-!
# Text helpers of httplib

`detail::trim` and `detail::split`, which work on bounds into one text.
-/

namespace EzRemote.Http

def crlf : Bytes := [13, 10]

def isSpaceOrTab (c : UInt8) : Bool := c == 32 || c == 9

/-- `trim`.  The left bound may run on to the end of the text and the right one
back to its beginning. -/
def trim (text : Bytes) (left right : Nat) : Nat × Nat :=
  (left + ((text.drop left).takeWhile isSpaceOrTab).length,
    right - ((text.take right).reverse.takeWhile isSpaceOrTab).length)

/-- What `split` hands on for `text[beg, i)`. -/
def piece (text : Bytes) (beg i : Nat) : List Bytes :=
  let r := trim text beg i
  if r.1 < r.2 then [(text.take r.2).drop r.1] else []

/-- The loop of `split`, in front of what is left of the text; without `m` the
count has no limit. -/
def splitLoop (text : Bytes) (d : UInt8) (m : Option Nat) : Bytes → Nat → Nat → Nat → List Bytes
  | [], i, beg, _ => if i ≠ 0 then piece text beg i else []
  | b :: rest, i, beg, count =>
    if b = d ∧ ∀ n ∈ m, count < n then
      piece text beg i ++ splitLoop text d m rest (i + 1) (i + 1) (count + 1)
    else splitLoop text d m rest (i + 1) beg count

/-- `split`: the pieces that the function is called with. -/
def split (text : Bytes) (d : UInt8) (m : Option Nat) : List Bytes := splitLoop text d m text 0 0 1

def Blank (text : Bytes) : Prop := ∀ b ∈ text, isSpaceOrTab b = true

/-- A text that neither starts nor ends with a blank. -/
structure Bare (text : Bytes) : Prop where
  head : ∃ x xs, text = x :: xs ∧ isSpaceOrTab x = false
  last : ∃ ys y, text = ys ++ [y] ∧ isSpaceOrTab y = false

/-- The text without the blanks around it. -/
def trimmed (text : Bytes) : Bytes :=
  (text.dropWhile isSpaceOrTab).rdropWhile isSpaceOrTab

theorem trimmed_of_blank {p : Bytes} (h : Blank p) : trimmed p = [] := by
  unfold trimmed
  rw [List.dropWhile_eq_nil_iff.mpr h, List.rdropWhile_nil]

theorem Bare.ne_nil {q : Bytes} (h : Bare q) : q ≠ [] := by
  obtain ⟨x, xs, rfl, -⟩ := h.head
  exact List.cons_ne_nil _ _

theorem Bare.span {a q r : Bytes} (hq : Bare q) (ha : Blank a) :
    (a ++ (q ++ r)).takeWhile isSpaceOrTab = a ∧
      (a ++ (q ++ r)).dropWhile isSpaceOrTab = q ++ r := by
  obtain ⟨x, xs, rfl, hx⟩ := hq.head
  have hx' : ¬ isSpaceOrTab x = true := by
    rw [hx]
    decide
  rw [List.takeWhile_append_of_pos ha, List.dropWhile_append_of_pos ha, List.cons_append,
    List.takeWhile_cons_of_neg hx', List.dropWhile_cons_of_neg hx', List.append_nil]
  exact ⟨rfl, rfl⟩

theorem Bare.reverse {q : Bytes} (hq : Bare q) : Bare q.reverse := by
  obtain ⟨x, xs, hx, hxb⟩ := hq.head
  obtain ⟨ys, y, hy, hyb⟩ := hq.last
  refine ⟨⟨y, ys.reverse, ?_, hyb⟩, ⟨xs.reverse, x, ?_, hxb⟩⟩
  · rw [hy, List.reverse_append, List.reverse_singleton, List.singleton_append]
  · rw [hx, List.reverse_cons]

theorem Blank.reverse {a : Bytes} (ha : Blank a) : Blank a.reverse :=
  fun b hb => ha b (List.mem_reverse.mp hb)

theorem trimmed_of_bare {a q c : Bytes} (hq : Bare q) (ha : Blank a) (hc : Blank c) :
    trimmed (a ++ (q ++ c)) = q := by
  have hback : ((q ++ c).reverse).dropWhile isSpaceOrTab = q.reverse := by
    have h := (hq.reverse.span (r := []) hc.reverse).2
    rwa [List.append_nil, ← List.reverse_append] at h
  unfold trimmed
  rw [(hq.span ha).2, List.rdropWhile, hback, List.reverse_reverse]

theorem exists_bare {p : Bytes} (h : ¬ Blank p) :
    ∃ a q c, p = a ++ (q ++ c) ∧ Bare q ∧ Blank a ∧ Blank c := by
  have hne : p.dropWhile isSpaceOrTab ≠ [] := fun hnil => h (List.dropWhile_eq_nil_iff.mp hnil)
  have hhead := List.head_dropWhile_not isSpaceOrTab hne
  obtain ⟨x, xs, hx⟩ := List.exists_cons_of_ne_nil hne
  simp only [hx, List.head_cons] at hhead
  have hback : (x :: xs).rdropWhile isSpaceOrTab ≠ [] := by
    intro hnil
    have := List.rdropWhile_eq_nil_iff.mp hnil x List.mem_cons_self
    rw [hhead] at this
    cases this
  have hlast := List.rdropWhile_last_not isSpaceOrTab (x :: xs) hback
  obtain ⟨q, hq⟩ : ∃ q, (x :: xs).rdropWhile isSpaceOrTab = q := ⟨_, rfl⟩
  refine ⟨p.takeWhile isSpaceOrTab, q, (x :: xs).rtakeWhile isSpaceOrTab, ?_, ⟨?_, ?_⟩, ?_, ?_⟩
  · rw [← hq, List.rdropWhile_append_rtakeWhile, ← hx, List.takeWhile_append_dropWhile]
  · obtain ⟨t, ht⟩ := List.rdropWhile_prefix isSpaceOrTab (x :: xs)
    rw [hq] at ht
    cases q with
    | nil => exact absurd hq hback
    | cons y ys =>
      rw [List.cons_append, List.cons.injEq] at ht
      exact ⟨x, ys, by rw [ht.1], hhead⟩
  · refine ⟨q.dropLast, q.getLast (hq ▸ hback), ?_, ?_⟩
    · rw [List.dropLast_append_getLast]
    · simpa [hq] using hlast
  · exact fun b hb => List.mem_takeWhile_imp hb
  · exact fun b hb => List.mem_rtakeWhile_imp hb

/-- The bounds run over the blanks of a piece and over no more where the piece
has something else. -/
theorem piece_eq (pre p post : Bytes) :
    piece (pre ++ (p ++ post)) pre.length (pre.length + p.length) =
      [trimmed p].filter (· ≠ []) := by
  have hdrop : (pre ++ (p ++ post)).drop pre.length = p ++ post := List.drop_left
  have htake : ((pre ++ (p ++ post)).take (pre.length + p.length)).reverse =
      p.reverse ++ pre.reverse := by
    rw [← List.append_assoc, ← List.length_append, List.take_left, List.reverse_append]
  by_cases hp : Blank p
  · -- both bounds leave the piece
    have hl : ((p ++ post).takeWhile isSpaceOrTab).length ≥ p.length := by
      rw [List.takeWhile_append_of_pos hp, List.length_append]
      omega
    have hr : ((p.reverse ++ pre.reverse).takeWhile isSpaceOrTab).length ≥ p.length := by
      rw [List.takeWhile_append_of_pos hp.reverse, List.length_append, List.length_reverse]
      omega
    unfold piece trim
    rw [hdrop, htake, trimmed_of_blank hp]
    dsimp only
    rw [if_neg (by omega)]
    rfl
  · obtain ⟨a, q, c, rfl, hq, ha, hc⟩ := exists_bare hp
    have hl : (a ++ (q ++ c) ++ post).takeWhile isSpaceOrTab = a := by
      rw [List.append_assoc, List.append_assoc]
      exact (hq.span ha).1
    have hr : ((a ++ (q ++ c)).reverse ++ pre.reverse).takeWhile isSpaceOrTab = c.reverse := by
      rw [List.reverse_append, List.reverse_append, List.append_assoc, List.append_assoc]
      exact (hq.reverse.span hc.reverse).1
    have hlen : 0 < q.length := List.length_pos_iff.mpr hq.ne_nil
    unfold piece trim
    rw [hdrop, htake, hl, hr, trimmed_of_bare hq ha hc]
    dsimp only
    rw [if_pos (by simp only [List.length_append, List.length_reverse]; omega)]
    have hend : pre.length + (a ++ (q ++ c)).length - c.reverse.length =
        (pre ++ a ++ q).length := by
      simp only [List.length_append, List.length_reverse]
      omega
    have htext : pre ++ (a ++ (q ++ c) ++ post) = (pre ++ a ++ q) ++ (c ++ post) := by
      simp only [List.append_assoc]
    rw [hend, htext, List.take_left, ← List.length_append, List.drop_left]
    simp [hq.ne_nil]

/-- The text cut at the separators, at most `k` times; `acc` is what stands
before the text since the last cut. -/
def cut (d : UInt8) : Option Nat → Bytes → Bytes → List Bytes
  | _, acc, [] => [acc]
  | k, acc, b :: rest =>
    if b = d ∧ k ≠ some 0 then acc :: cut d (k.map (· - 1)) [] rest
    else cut d k (acc ++ [b]) rest

theorem splitLoop_eq (d : UInt8) (m : Option Nat) (pre acc rest : Bytes) (count : Nat)
    (hempty : pre ++ acc = [] → rest ≠ []) :
    splitLoop (pre ++ (acc ++ rest)) d m rest (pre.length + acc.length) pre.length count =
      ((cut d (m.map (· - count)) acc rest).map trimmed).filter (· ≠ []) := by
  induction rest generalizing pre acc count with
  | nil =>
    have hne : pre.length + acc.length ≠ 0 := by
      intro h0
      refine hempty ?_ rfl
      rw [← List.length_eq_zero_iff, List.length_append]
      exact h0
    unfold splitLoop cut
    rw [if_pos hne, piece_eq]
    rfl
  | cons b rest ih =>
    have hcut : (∀ n ∈ m, count < n) ↔ m.map (· - count) ≠ some 0 := by
      cases m with
      | none => simp
      | some n =>
        simp only [Option.mem_some_iff, forall_eq', Option.map_some, ne_eq, Option.some.injEq]
        omega
    have hstep : (m.map (· - count)).map (· - 1) = m.map (· - (count + 1)) := by
      cases m with
      | none => rfl
      | some n => exact congrArg some (Nat.sub_sub n count 1)
    unfold splitLoop cut
    by_cases h : b = d ∧ m.map (· - count) ≠ some 0
    · rw [if_pos ⟨h.1, hcut.mpr h.2⟩, if_pos h, piece_eq, hstep]
      have hih := ih (pre ++ acc ++ [b]) [] (count + 1) (by simp)
      have htext : pre ++ acc ++ [b] ++ ([] ++ rest) = pre ++ (acc ++ b :: rest) := by
        simp only [List.append_assoc, List.nil_append, List.singleton_append]
      have hlen : (pre ++ acc ++ [b]).length = pre.length + acc.length + 1 := by
        simp only [List.length_append, List.length_singleton]
      rw [htext, hlen, List.length_nil, Nat.add_zero] at hih
      rw [hih, ← List.filter_append, List.map_cons, List.singleton_append]
    · rw [if_neg fun hc => h ⟨hc.1, hcut.mp hc.2⟩, if_neg h]
      have hih := ih pre (acc ++ [b]) count (by simp)
      have htext : pre ++ (acc ++ [b] ++ rest) = pre ++ (acc ++ b :: rest) := by
        simp only [List.append_assoc, List.singleton_append]
      have hlen : pre.length + (acc ++ [b]).length = pre.length + acc.length + 1 := by
        simp only [List.length_append, List.length_singleton, Nat.add_assoc]
      rwa [htext, hlen] at hih

theorem split_eq (text : Bytes) (d : UInt8) (m : Option Nat) :
    split text d m = ((cut d (m.map (· - 1)) [] text).map trimmed).filter (· ≠ []) := by
  by_cases h : text = []
  · subst h
    rfl
  · exact splitLoop_eq d m [] [] text 1 fun _ => h

theorem cut_none {d : UInt8} {acc : Bytes} (hacc : d ∉ acc) (text : Bytes) :
    cut d none acc text = (acc ++ text).splitOn d := by
  induction text generalizing acc with
  | nil =>
    rw [List.append_nil, List.splitOn_eq_singleton hacc]
    rfl
  | cons b text ih =>
    unfold cut
    by_cases hb : b = d
    · subst hb
      rw [if_pos ⟨rfl, by simp⟩, List.splitOn_append_cons_self, List.splitOn_eq_singleton hacc]
      exact congrArg (acc :: ·) (ih List.not_mem_nil)
    · rw [if_neg fun h => hb h.1, ih]
      · rw [List.append_assoc, List.singleton_append]
      · simp only [List.mem_append, List.mem_singleton, not_or]
        exact ⟨hacc, fun h => hb h.symm⟩

theorem split_none (text : Bytes) (d : UInt8) :
    split text d none = ((text.splitOn d).map trimmed).filter (· ≠ []) := by
  rw [split_eq, Option.map_none, cut_none List.not_mem_nil, List.nil_append]

end EzRemote.Http

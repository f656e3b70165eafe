import Mathlib.Data.List.Basic
import Mathlib.Data.List.Infix

/-!
# Readers

A connection hands out what arrives in pieces that nobody chooses.  A reader is
such a connection with its content, the pieces joined; what the pieces say about
a read is said here about the content.
-/

namespace EzRemote

variable {α σ : Type*}

/-- A read of at most `n` returns a piece of the content that is not empty.  At
the end of the content it returns nothing: an empty piece or, after an error,
none. -/
structure Reader (α σ : Type*) where
  read : Nat → σ → Option (List α) × σ
  content : σ → List α
  read_end : ∀ n s, content s = [] → (read n s).1.getD [] = [] ∧ content (read n s).2 = []
  read_piece : ∀ n s, 0 < n → content s ≠ [] → ∃ piece t, read n s = (some piece, t) ∧
    piece ≠ [] ∧ piece.length ≤ n ∧ content s = piece ++ content t

namespace Reader

variable (strm : Reader α σ) {s t : σ}

theorem read_cases {n : Nat} (hn : 0 < n) (s : σ) :
    (strm.content s = [] ∧ (∃ t, strm.read n s = (none, t) ∧ strm.content t = [])) ∨
    (strm.content s = [] ∧ (∃ t, strm.read n s = (some [], t) ∧ strm.content t = [])) ∨
    (∃ a piece t, strm.read n s = (some (a :: piece), t) ∧ (a :: piece).length ≤ n ∧
      strm.content s = (a :: piece) ++ strm.content t) := by
  by_cases hs : strm.content s = []
  · obtain ⟨hpiece, hrest⟩ := strm.read_end n s hs
    obtain ⟨piece, t, hread⟩ : ∃ piece t, strm.read n s = (piece, t) := ⟨_, _, rfl⟩
    rw [hread] at hpiece hrest
    cases piece with
    | none => exact .inl ⟨hs, t, hread, hrest⟩
    | some piece =>
      rw [Option.getD_some] at hpiece
      subst hpiece
      exact .inr (.inl ⟨hs, t, hread, hrest⟩)
  · obtain ⟨piece, t, hread, hne, hlen, hcontent⟩ := strm.read_piece n s hn hs
    obtain ⟨a, piece, rfl⟩ := List.exists_cons_of_ne_nil hne
    exact .inr (.inr ⟨a, piece, t, hread, hlen, hcontent⟩)

theorem read_nil {n : Nat} (hn : 0 < n) (hs : strm.content s = []) :
    ∃ t, (strm.read n s = (none, t) ∨ strm.read n s = (some [], t)) ∧ strm.content t = [] := by
  obtain ⟨-, t, hread, ht⟩ | ⟨-, t, hread, ht⟩ | ⟨a, piece, t, -, -, hcontent⟩ :=
    strm.read_cases hn s
  · exact ⟨t, .inl hread, ht⟩
  · exact ⟨t, .inr hread, ht⟩
  · rw [hs] at hcontent
    cases hcontent

theorem read_some {n : Nat} (hn : 0 < n) {a : α} {piece : List α}
    (h : strm.read n s = (some (a :: piece), t)) :
    (a :: piece).length ≤ n ∧ strm.content s = (a :: piece) ++ strm.content t := by
  obtain ⟨-, t', hread, -⟩ | ⟨-, t', hread, -⟩ | ⟨a', piece', t', hread, hlen, hcontent⟩ :=
    strm.read_cases hn s
  · cases h.symm.trans hread
  · cases h.symm.trans hread
  · cases h.symm.trans hread
    exact ⟨hlen, hcontent⟩

theorem read_shorter {n : Nat} (hn : 0 < n) {a : α} {piece : List α}
    (h : strm.read n s = (some (a :: piece), t)) :
    (strm.content t).length < (strm.content s).length := by
  rw [(strm.read_some hn h).2, List.length_append, List.length_cons]
  omega

theorem read_one {a : α} {rest : List α} (hs : strm.content s = a :: rest) :
    ∃ t, strm.read 1 s = (some [a], t) ∧ strm.content t = rest := by
  obtain ⟨hnil, -⟩ | ⟨hnil, -⟩ | ⟨b, piece, t, hread, hlen, hcontent⟩ :=
    strm.read_cases Nat.one_pos s
  · rw [hs] at hnil
    cases hnil
  · rw [hs] at hnil
    cases hnil
  · have hpiece : piece = [] := by
      rw [List.length_cons] at hlen
      exact List.eq_nil_of_length_eq_zero (by omega)
    subst hpiece
    rw [hs, List.singleton_append, List.cons.injEq] at hcontent
    obtain ⟨rfl, hrest⟩ := hcontent
    exact ⟨t, hread, hrest.symm⟩

/-- What every read keeps. -/
def Kept (strm : Reader α σ) (J : σ → Prop) : Prop := ∀ n s, 0 < n → J s → J (strm.read n s).2

variable {strm} {J : σ → Prop}

end Reader

/-- What arrives of a message when the connection is lost inside it. -/
def CutOff (c m : List α) : Prop := c <+: m ∧ c ≠ m

variable {a b c m : List α}

theorem CutOff.append (h : CutOff c (a ++ b)) :
    CutOff c a ∨ ∃ d, c = a ++ d ∧ CutOff d b := by
  by_cases hlen : c.length < a.length
  · refine .inl ⟨List.prefix_of_prefix_length_le h.1 (List.prefix_append a b) hlen.le, ?_⟩
    rintro rfl
    exact absurd hlen (Nat.lt_irrefl _)
  · obtain ⟨d, rfl⟩ :=
      List.prefix_of_prefix_length_le (List.prefix_append a b) h.1 (Nat.le_of_not_lt hlen)
    refine .inr ⟨d, rfl, (List.prefix_append_right_inj a).mp h.1, ?_⟩
    rintro rfl
    exact h.2 rfl

theorem CutOff.length_lt (h : CutOff c m) : c.length < m.length := by
  obtain ⟨⟨d, rfl⟩, hne⟩ := h
  have hd : d ≠ [] := by
    rintro rfl
    exact hne (List.append_nil c).symm
  have := List.length_pos_iff.mpr hd
  rw [List.length_append]
  omega

/-- What the length of a message says about a part of it, or about the message with more
behind it. -/
theorem take_of_comparable (h : c <+: m ∨ m <+: c) :
    (m.length ≤ c.length ↔ m <+: c) ∧ c.take m.length <+: m ∧ (m <+: c → c.take m.length = m) := by
  have hall : m <+: c → c.take m.length = m := fun hm => (List.prefix_iff_eq_take.mp hm).symm
  obtain hc | hm := h
  · refine ⟨⟨fun hlen => ?_, List.IsPrefix.length_le⟩, ?_, hall⟩
    · rw [hc.eq_of_length_le hlen]
    · exact (List.take_prefix _ _).trans hc
  · refine ⟨iff_of_true hm.length_le hm, ?_, hall⟩
    rw [hall hm]

end EzRemote

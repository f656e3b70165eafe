import Mathlib.Data.List.TakeWhile

/-!
# Tokens

The parts of a text between separators that are not empty.
-/

namespace EzRemote

variable {α : Type*} [DecidableEq α]

/-- The parts of the text between the separators, without the empty ones. -/
def tokens (d : α) (text : List α) : List (List α) := (text.splitOn d).filter (· ≠ [])

variable {d : α} {text : List α}

@[simp] theorem tokens_nil : tokens d [] = [] := by simp [tokens]

/-- Everything else follows from what a separator does. -/
theorem tokens_append_cons (x y : List α) : tokens d (x ++ d :: y) = tokens d x ++ tokens d y := by
  unfold tokens
  rw [List.splitOn_append_cons_self, List.filter_append]

@[simp] theorem tokens_cons_self (y : List α) : tokens d (d :: y) = tokens d y := by
  have h := tokens_append_cons (d := d) [] y
  rwa [tokens_nil, List.nil_append, List.nil_append] at h

theorem tokens_of_notMem (hne : text ≠ []) (h : d ∉ text) : tokens d text = [text] := by
  unfold tokens
  rw [List.splitOn_eq_singleton h]
  simp [hne]

theorem tokens_of_ne {a : α} (h : a ≠ d) (text : List α) :
    tokens d (a :: text) = (a :: text).takeWhile (· ≠ d) ::
      tokens d ((a :: text).dropWhile (· ≠ d)) := by
  have hfirst : (a :: text).takeWhile (· ≠ d) ≠ [] := by simp [h]
  have hfree : d ∉ (a :: text).takeWhile (· ≠ d) := by
    intro hd
    have := List.mem_takeWhile_imp hd
    simp at this
  have hone := tokens_of_notMem hfirst hfree
  have hjoin := List.takeWhile_append_dropWhile (p := (· ≠ d)) (l := a :: text)
  cases hrest : (a :: text).dropWhile (· ≠ d) with
  | nil =>
    rw [hrest, List.append_nil] at hjoin
    rw [tokens_nil, ← hone, hjoin]
  | cons b rest =>
    have hb : b = d := by
      have hne : (a :: text).dropWhile (· ≠ d) ≠ [] := by rw [hrest]; exact List.cons_ne_nil b rest
      have hhead := List.head_dropWhile_not (· ≠ d) hne
      simp only [hrest, List.head_cons] at hhead
      simpa using hhead
    subst hb
    rw [hrest] at hjoin
    have hsplit := tokens_append_cons (d := b) ((a :: text).takeWhile (· ≠ b)) rest
    rw [hjoin, hone] at hsplit
    rw [hsplit, tokens_cons_self]
    rfl

theorem tokens_dropWhile (text : List α) : tokens d (text.dropWhile (· = d)) = tokens d text := by
  induction text with
  | nil => rfl
  | cons a text ih =>
    by_cases h : a = d
    · subst h
      rw [List.dropWhile_cons_of_pos (by simp), ih, tokens_cons_self]
    · rw [List.dropWhile_cons_of_neg (by simp [h])]

theorem tokens_eq_nil_iff : tokens d text = [] ↔ ∀ a ∈ text, a = d := by
  induction text with
  | nil => simp
  | cons a text ih =>
    by_cases h : a = d
    · subst h
      rw [tokens_cons_self, ih]
      simp
    · rw [tokens_of_ne h]
      simp [h]

/-- The first token, or nothing. -/
def firstToken (d : α) (text : List α) : List α := (text.dropWhile (· = d)).takeWhile (· ≠ d)

/-- The text behind its first token. -/
def behindFirst (d : α) (text : List α) : List α := (text.dropWhile (· = d)).dropWhile (· ≠ d)

theorem tokens_eq_cons (h : ∃ a ∈ text, a ≠ d) :
    tokens d text = firstToken d text :: tokens d (behindFirst d text) := by
  unfold firstToken behindFirst
  rw [← tokens_dropWhile text]
  cases htext : text.dropWhile (· = d) with
  | nil =>
    obtain ⟨a, ha, hne⟩ := h
    have hall := List.dropWhile_eq_nil_iff.mp htext a ha
    exact absurd (by simpa using hall) hne
  | cons a rest =>
    have hne : text.dropWhile (· = d) ≠ [] := by rw [htext]; exact List.cons_ne_nil a rest
    have hhead := List.head_dropWhile_not (· = d) hne
    simp only [htext, List.head_cons] at hhead
    exact tokens_of_ne (by simpa using hhead) rest

theorem firstToken_of_tokens_nil (h : tokens d text = []) : firstToken d text = [] := by
  have hall := tokens_eq_nil_iff.mp h
  have hnil : text.dropWhile (· = d) = [] :=
    List.dropWhile_eq_nil_iff.mpr fun a ha => by simpa using hall a ha
  unfold firstToken
  rw [hnil]
  rfl

end EzRemote

import Mathlib.Computability.RegularExpressions

/-!
# Pieces of regular expressions

Literals, character classes and their repetitions, as a matcher sees them.
-/

namespace EzRemote.Regex

open RegularExpression

variable {α : Type*} [DecidableEq α]

/-- These symbols one after another. -/
def literal (text : List α) : RegularExpression α := text.foldr (fun b r => char b * r) 1

/-- One of these symbols. -/
def oneOf (symbols : List α) : RegularExpression α := symbols.foldr (fun b r => char b + r) 0

theorem rmatch_literal {text x : List α} : (literal text).rmatch x = true ↔ x = text := by
  induction text generalizing x with
  | nil => exact one_rmatch_iff x
  | cons b text ih =>
    show (char b * literal text).rmatch x = true ↔ _
    rw [mul_rmatch_iff]
    constructor
    · rintro ⟨t, u, rfl, ht, hu⟩
      rw [char_rmatch_iff] at ht
      rw [ht, ih.mp hu, List.singleton_append]
    · rintro rfl
      exact ⟨[b], text, rfl, (char_rmatch_iff b [b]).mpr rfl, ih.mpr rfl⟩

theorem rmatch_oneOf {symbols x : List α} :
    (oneOf symbols).rmatch x = true ↔ ∃ b ∈ symbols, x = [b] := by
  induction symbols with
  | nil =>
    show rmatch 0 x = true ↔ _
    simp
  | cons b symbols ih =>
    show (char b + oneOf symbols).rmatch x = true ↔ _
    rw [add_rmatch_iff, char_rmatch_iff, ih, List.exists_mem_cons_iff]

theorem rmatch_star_oneOf {symbols x : List α} :
    (star (oneOf symbols)).rmatch x = true ↔ ∀ b ∈ x, b ∈ symbols := by
  rw [star_rmatch_iff]
  constructor
  · rintro ⟨S, rfl, hS⟩ b hb
    obtain ⟨t, ht, hbt⟩ := List.mem_flatten.mp hb
    obtain ⟨c, hc, rfl⟩ := rmatch_oneOf.mp (hS t ht).2
    rwa [List.mem_singleton.mp hbt]
  · intro h
    refine ⟨x.map fun b => [b], ?_, ?_⟩
    · rw [← List.flatMap_def, List.flatMap_singleton' x]
    · intro t ht
      obtain ⟨b, hb, rfl⟩ := List.mem_map.mp ht
      exact ⟨List.cons_ne_nil _ _, rmatch_oneOf.mpr ⟨b, h b hb, rfl⟩⟩

/-- A repetition of something that is never empty. -/
theorem rmatch_star {r : RegularExpression α} (hr : ¬ r.rmatch [] = true) {x : List α} :
    (star r).rmatch x = true ↔ ∃ S : List (List α), x = S.flatten ∧ ∀ t ∈ S, r.rmatch t = true := by
  rw [star_rmatch_iff]
  constructor
  · rintro ⟨S, hx, hS⟩
    exact ⟨S, hx, fun t ht => (hS t ht).2⟩
  · rintro ⟨S, hx, hS⟩
    refine ⟨S, hx, fun t ht => ⟨?_, hS t ht⟩⟩
    rintro rfl
    exact hr (hS [] ht)

end EzRemote.Regex

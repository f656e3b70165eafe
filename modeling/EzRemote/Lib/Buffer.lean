import Mathlib.Data.List.Basic

/-!
# Writes to a buffer

A C array is the list of its elements; a write that does not fit into it has no
result.
-/

namespace EzRemote.Buffer

variable {α : Type*}

/-- Copy `xs` into the buffer from `pos` on; `none` is a write outside of it. -/
def write (buf : List α) (pos : Nat) (xs : List α) : Option (List α) :=
  if pos + xs.length ≤ buf.length then some (buf.take pos ++ xs ++ buf.drop (pos + xs.length))
  else none

theorem write_of_le {buf xs : List α} {pos : Nat} (h : pos + xs.length ≤ buf.length) :
    write buf pos xs = some (buf.take pos ++ xs ++ buf.drop (pos + xs.length)) := if_pos h

theorem write_isSome_iff {buf xs : List α} {pos : Nat} :
    (write buf pos xs).isSome = true ↔ pos + xs.length ≤ buf.length := by
  unfold write
  by_cases h : pos + xs.length ≤ buf.length
  · simp [h]
  · simp [h]

theorem write_eq_some {buf buf' xs : List α} {pos : Nat} (h : write buf pos xs = some buf') :
    pos + xs.length ≤ buf.length ∧ buf' = buf.take pos ++ xs ++ buf.drop (pos + xs.length) := by
  have hle : pos + xs.length ≤ buf.length := write_isSome_iff.mp (by rw [h]; rfl)
  rw [write_of_le hle] at h
  exact ⟨hle, (Option.some.inj h).symm⟩

theorem length_write {buf buf' xs : List α} {pos : Nat} (h : write buf pos xs = some buf') :
    buf'.length = buf.length := by
  obtain ⟨hle, rfl⟩ := write_eq_some h
  simp only [List.length_append, List.length_take, List.length_drop]
  omega

theorem take_write {buf buf' xs : List α} {pos : Nat} (h : write buf pos xs = some buf') :
    buf'.take (pos + xs.length) = buf.take pos ++ xs := by
  obtain ⟨hle, rfl⟩ := write_eq_some h
  apply List.take_left'
  rw [List.length_append, List.length_take]
  omega

theorem write_nil {buf : List α} {pos : Nat} (h : pos ≤ buf.length) :
    write buf pos [] = some buf := by
  rw [write_of_le (by simpa using h)]
  simp

theorem write_append {buf xs ys : List α} {pos : Nat} :
    write buf pos (xs ++ ys) = (write buf pos xs).bind fun buf => write buf (pos + xs.length) ys := by
  by_cases hx : pos + xs.length ≤ buf.length
  · rw [write_of_le hx, Option.bind_some]
    have hfront : (buf.take pos ++ xs).length = pos + xs.length := by
      rw [List.length_append, List.length_take]
      omega
    have hlen : (buf.take pos ++ xs ++ buf.drop (pos + xs.length)).length = buf.length := by
      rw [List.length_append, hfront, List.length_drop]
      omega
    unfold write
    rw [hlen, List.length_append, ← Nat.add_assoc]
    by_cases hy : pos + xs.length + ys.length ≤ buf.length
    · rw [if_pos hy, if_pos hy, List.take_left' hfront, ← hfront, List.drop_length_add_append,
        List.drop_drop, hfront, List.append_assoc (buf.take pos) xs ys]
    · rw [if_neg hy, if_neg hy]
  · have hboth : ¬ pos + (xs ++ ys).length ≤ buf.length := by
      rw [List.length_append]
      omega
    unfold write
    rw [if_neg hx, if_neg hboth]
    rfl

end EzRemote.Buffer

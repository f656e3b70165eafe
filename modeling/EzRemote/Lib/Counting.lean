import Mathlib.Algebra.Ring.Nat
import Mathlib.Data.List.AList
import Mathlib.Data.List.Perm.Basic

/-!
# Counting occurrences across an indexed family

An element that several holders may own is counted over all of them: over a
list of holders of which one is replaced, and over the values of a finite map
of which one is replaced.  A conservation law is then linear arithmetic.
-/

namespace EzRemote.Counting

variable {α β κ : Type*} [DecidableEq β]

/-- Replacing one holder changes the total by what that holder gains and loses. -/
theorem count_flatMap_set (f : α → List β) (l : List α) (i : ℕ) (a b : α) (x : β)
    (h : l[i]? = some a) :
    ((l.set i b).flatMap f).count x + (f a).count x =
      (l.flatMap f).count x + (f b).count x := by
  induction l generalizing i with
  | nil => simp at h
  | cons c l ih =>
    cases i with
    | zero =>
      simp only [List.getElem?_cons_zero, Option.some.injEq] at h
      subst h
      simp only [List.set_cons_zero, List.flatMap_cons, List.count_append]
      omega
    | succ i =>
      have := ih i (by simpa using h)
      simp only [List.set_cons_succ, List.flatMap_cons, List.count_append]
      omega

theorem count_set {l : List β} {i : ℕ} {a : β} (h : l[i]? = some a) (b x : β) :
    (l.set i b).count x + [a].count x = l.count x + [b].count x := by
  have := count_flatMap_set (fun b => [b]) l i a b x h
  rwa [List.flatMap_singleton', List.flatMap_singleton'] at this

omit [DecidableEq β] in
theorem sum_map_set (f : α → ℕ) {l : List α} {i : ℕ} {a : α} (h : l[i]? = some a) (b : α) :
    ((l.set i b).map f).sum + f a = (l.map f).sum + f b := by
  induction l generalizing i with
  | nil => simp at h
  | cons c l ih =>
    cases i with
    | zero =>
      simp only [List.getElem?_cons_zero, Option.some.injEq] at h
      subst h
      simp only [List.set_cons_zero, List.map_cons, List.sum_cons]
      omega
    | succ i =>
      have := ih (by simpa using h)
      simp only [List.set_cons_succ, List.map_cons, List.sum_cons]
      omega

theorem count_le_flatMap (f : α → List β) (l : List α) (i : ℕ) (a : α) (x : β)
    (h : l[i]? = some a) : (f a).count x ≤ (l.flatMap f).count x := by
  have hm : a ∈ l := List.mem_of_getElem? h
  obtain ⟨s, t, rfl⟩ := List.append_of_mem hm
  simp only [List.flatMap_append, List.flatMap_cons, List.count_append]
  omega

theorem count_add_le_flatMap (f : α → List β) (l : List α) (i j : ℕ) (a b : α) (x : β)
    (hij : i ≠ j) (ha : l[i]? = some a) (hb : l[j]? = some b) :
    (f a).count x + (f b).count x ≤ (l.flatMap f).count x := by
  induction l generalizing i j with
  | nil => simp at ha
  | cons c l ih =>
    simp only [List.flatMap_cons, List.count_append]
    cases i with
    | zero =>
      cases j with
      | zero => exact absurd rfl hij
      | succ j =>
        simp only [List.getElem?_cons_zero, Option.some.injEq] at ha
        subst ha
        have := count_le_flatMap f l j b x (by simpa using hb)
        omega
    | succ i =>
      cases j with
      | zero =>
        simp only [List.getElem?_cons_zero, Option.some.injEq] at hb
        subst hb
        have := count_le_flatMap f l i a x (by simpa using ha)
        omega
      | succ j =>
        have := ih i j (by omega) (by simpa using ha) (by simpa using hb)
        omega

/-- All elements of all values of a finite map. -/
def values (m : AList fun _ : κ => List β) : List β := m.entries.flatMap Sigma.snd

variable [DecidableEq κ]

omit [DecidableEq β] in
theorem mem_values (m : AList fun _ : κ => List β) (x : β) :
    x ∈ values m ↔ ∃ k v, m.lookup k = some v ∧ x ∈ v := by
  simp only [values, List.mem_flatMap]
  constructor
  · rintro ⟨⟨k, v⟩, he, hx⟩
    exact ⟨k, v, AList.mem_lookup_iff.mpr he, hx⟩
  · rintro ⟨k, v, hk, hx⟩
    exact ⟨⟨k, v⟩, AList.mem_lookup_iff.mp hk, hx⟩

/-- Storing `v` under `k` changes the total by `v` and by what `k` held. -/
theorem count_values_insert (m : AList fun _ : κ => List β) (k : κ) (v : List β) (x : β) :
    (values (m.insert k v)).count x + ((m.lookup k).getD []).count x =
      (values m).count x + v.count x := by
  by_cases hk : k ∈ m
  · obtain ⟨w, l₁, l₂, -, he, hr⟩ := List.exists_of_kerase (AList.mem_keys.mp hk)
    have hw : m.lookup k = some w := AList.mem_lookup_iff.mpr (by rw [he]; simp)
    have hv : values m = (l₁ ++ ⟨k, w⟩ :: l₂).flatMap Sigma.snd := by rw [values, he]
    have hi : values (m.insert k v) = v ++ (l₁ ++ l₂).flatMap Sigma.snd := by
      simp only [values, AList.entries_insert, hr, List.flatMap_cons]
    rw [hv, hi, hw, Option.getD_some]
    simp only [List.flatMap_cons, List.flatMap_append, List.count_append]
    omega
  · have hn : m.lookup k = none := AList.lookup_eq_none.mpr hk
    have hkeys : k ∉ m.entries.keys := hk
    simp only [values, AList.entries_insert, List.kerase_of_notMem_keys hkeys, hn,
      Option.getD_none, List.flatMap_cons, List.count_append, List.count_nil]
    omega

end EzRemote.Counting

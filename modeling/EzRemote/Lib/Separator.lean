import Mathlib.Algebra.Ring.Nat
import Mathlib.Data.List.Basic

/-!
# Fields joined by a separator

Joining determines the fields as soon as the fields of one side are free of the
separator: the other side, of the same length, has no room for another one.
-/

namespace EzRemote.Separator

variable {α : Type*} [DecidableEq α]

theorem count_join (x : α) (l : List α) (ls : List (List α)) :
    ([x].intercalate (l :: ls)).count x = l.count x + (ls.map (·.count x)).sum + ls.length := by
  induction ls generalizing l with
  | nil => simp
  | cons m ls ih =>
    rw [List.intercalate_cons_of_ne_nil (by simp), List.count_append, List.count_append, ih]
    simp only [List.map_cons, List.sum_cons, List.length_cons, List.count_singleton_self]
    omega

theorem notMem_of_join_eq {x : α} {ls ms : List (List α)} (hlen : ls.length = ms.length)
    (hfree : ∀ l ∈ ls, x ∉ l) (h : [x].intercalate ls = [x].intercalate ms) :
    ∀ m ∈ ms, x ∉ m := by
  cases ls with
  | nil =>
    have hms : ms = [] := List.eq_nil_of_length_eq_zero hlen.symm
    simp [hms]
  | cons l ls =>
    cases ms with
    | nil => simp at hlen
    | cons m ms =>
      have hc := congrArg (List.count x) h
      rw [count_join, count_join] at hc
      have hl : l.count x = 0 := List.count_eq_zero.mpr (hfree l List.mem_cons_self)
      have hls : (ls.map (·.count x)).sum = 0 := by
        rw [List.sum_eq_zero_iff_forall_eq_nat]
        intro n hn
        obtain ⟨k, hk, rfl⟩ := List.mem_map.mp hn
        exact List.count_eq_zero.mpr (hfree k (List.mem_cons_of_mem l hk))
      simp only [List.length_cons] at hlen
      have hm : m.count x = 0 := by omega
      have hms : (ms.map (·.count x)).sum = 0 := by omega
      rw [List.sum_eq_zero_iff_forall_eq_nat] at hms
      intro k hk
      rcases List.mem_cons.mp hk with rfl | hk
      · exact List.count_eq_zero.mp hm
      · exact List.count_eq_zero.mp (hms _ (List.mem_map_of_mem hk))

/-- Joining is injective at every list of separator-free fields. -/
theorem eq_of_join_eq {x : α} {ls ms : List (List α)} (hlen : ls.length = ms.length)
    (hne : ls ≠ []) (hfree : ∀ l ∈ ls, x ∉ l)
    (h : [x].intercalate ls = [x].intercalate ms) : ls = ms := by
  have hne' : ms ≠ [] := by
    rintro rfl
    exact hne (List.eq_nil_of_length_eq_zero hlen)
  rw [← List.splitOn_intercalate x hfree hne, h,
    List.splitOn_intercalate x (notMem_of_join_eq hlen hfree h) hne']

end EzRemote.Separator

import Mathlib.Data.List.Basic

/-!
# Maps as strictly sorted lists

A finite map is the list of its entries in strictly increasing key order, so two
maps with the same entries are equal and iterating over one is iterating over a
list.
-/

namespace EzRemote

universe u v

structure SortedMap (κ : Type u) (ν : Type v) [LT κ] where
  entries : List (κ × ν)
  sorted : entries.Pairwise fun a b => a.1 < b.1

namespace SortedMap

section LastValue

variable {κ : Type u} {ν : Type v} [DecidableEq κ]

/-- The value of the last entry with a key. -/
def lastValue (es : List (κ × ν)) (k : κ) : Option ν :=
  (es.reverse.find? fun e => e.1 = k).map Prod.snd

theorem lastValue_cons (e : κ × ν) (es : List (κ × ν)) (k : κ) :
    lastValue (e :: es) k = (lastValue es k).or (if e.1 = k then some e.2 else none) := by
  unfold lastValue
  rw [List.reverse_cons, List.find?_append]
  cases es.reverse.find? fun e => e.1 = k with
  | some f => rfl
  | none =>
    by_cases h : e.1 = k
    · simp [h]
    · simp [h]

theorem mem_of_lastValue {es : List (κ × ν)} {k : κ} {x : ν} (h : lastValue es k = some x) :
    (k, x) ∈ es := by
  obtain ⟨e, he, rfl⟩ := Option.map_eq_some_iff.mp h
  have hk : e.1 = k := by simpa using List.find?_some he
  have hmem : e ∈ es := List.mem_reverse.mp (List.mem_of_find?_eq_some he)
  rwa [← hk]

theorem lastValue_of_mem {es : List (κ × ν)} {e : κ × ν} (h : e ∈ es) :
    ∃ x, lastValue es e.1 = some x := by
  have hfind : (es.reverse.find? fun f => f.1 = e.1).isSome = true :=
    List.find?_isSome.mpr ⟨e, List.mem_reverse.mpr h, by simp⟩
  obtain ⟨f, hf⟩ := Option.isSome_iff_exists.mp hfind
  exact ⟨f.2, congrArg (Option.map Prod.snd) hf⟩

end LastValue

variable {κ : Type u} {ν : Type v} [LT κ]

@[ext] theorem ext {m n : SortedMap κ ν} (h : m.entries = n.entries) : m = n := by
  cases m
  cases n
  cases h
  rfl

instance [DecidableEq κ] [DecidableEq ν] : DecidableEq (SortedMap κ ν) := fun m n =>
  decidable_of_iff (m.entries = n.entries) ⟨ext, congrArg entries⟩

def empty : SortedMap κ ν := ⟨[], .nil⟩

/-- The entries that satisfy `p`. -/
def filter (m : SortedMap κ ν) (p : κ × ν → Bool) : SortedMap κ ν :=
  ⟨m.entries.filter p, m.sorted.filter p⟩

@[simp] theorem entries_filter (m : SortedMap κ ν) (p : κ × ν → Bool) :
    (m.filter p).entries = m.entries.filter p := rfl

theorem eq_of_mem [Std.Irrefl fun a b : κ => a < b] {m : SortedMap κ ν} {k : κ} {x y : ν}
    (hx : (k, x) ∈ m.entries)
    (hy : (k, y) ∈ m.entries) : x = y := by
  have hpair : m.entries.Pairwise fun a b => a.1 = b.1 → a = b :=
    m.sorted.imp fun hab h => absurd (h ▸ hab) Std.lt_irrefl
  have hflip : m.entries.Pairwise (flip fun a b => a.1 = b.1 → a = b) :=
    m.sorted.imp fun hab h => absurd (h ▸ hab) Std.lt_irrefl
  exact congrArg Prod.snd (hpair.forall_of_forall_of_flip (fun _ _ _ => rfl) hflip hx hy rfl)

section Insert

variable [DecidableLT κ] [DecidableEq κ]

/-- Put an entry at its place, over an older one of the same key. -/
def insertEntry (k : κ) (x : ν) : List (κ × ν) → List (κ × ν)
  | [] => [(k, x)]
  | e :: es =>
    if k < e.1 then (k, x) :: e :: es
    else if k = e.1 then (k, x) :: es
    else e :: insertEntry k x es

theorem mem_insertEntry_self (k : κ) (x : ν) (es : List (κ × ν)) :
    (k, x) ∈ insertEntry k x es := by
  induction es with
  | nil => exact List.mem_singleton_self _
  | cons e es ih =>
    unfold insertEntry
    split
    · exact List.mem_cons_self
    · split
      · exact List.mem_cons_self
      · exact List.mem_cons_of_mem _ ih

theorem mem_insertEntry_of_ne {k : κ} (x : ν) {e : κ × ν} (hne : e.1 ≠ k) (es : List (κ × ν)) :
    e ∈ insertEntry k x es ↔ e ∈ es := by
  have hnew : e ≠ (k, x) := fun h => hne (congrArg Prod.fst h)
  induction es with
  | nil => simp [insertEntry, hnew]
  | cons f es ih =>
    unfold insertEntry
    split
    · simp [hnew]
    · split
      · rename_i hk
        -- the entry of the same key makes room for the new one
        have hf : e ≠ f := fun h => hne (h ▸ hk.symm)
        simp [hnew, hf]
      · rw [List.mem_cons, List.mem_cons]
        exact or_congr Iff.rfl ih

variable [LE κ] [Std.IsLinearOrder κ] [Std.LawfulOrderLT κ]

theorem insertEntry_sorted (k : κ) (x : ν) {es : List (κ × ν)}
    (h : es.Pairwise fun a b => a.1 < b.1) :
    (insertEntry k x es).Pairwise fun a b => a.1 < b.1 := by
  induction es with
  | nil => exact List.pairwise_singleton _ _
  | cons e es ih =>
    obtain ⟨he, hes⟩ := List.pairwise_cons.mp h
    unfold insertEntry
    split
    · rename_i hlt
      refine List.pairwise_cons.mpr ⟨?_, h⟩
      intro f hf
      rcases List.mem_cons.mp hf with rfl | hf
      · exact hlt
      · exact Std.lt_trans hlt (he f hf)
    · rename_i hlt
      split
      · rename_i hk
        exact List.pairwise_cons.mpr ⟨fun f hf => hk ▸ he f hf, hes⟩
      · rename_i hk
        refine List.pairwise_cons.mpr ⟨?_, ih hes⟩
        intro f hf
        by_cases hfk : f.1 = k
        · rw [hfk]
          exact ((Std.lt_trichotomy k e.1).resolve_left hlt).resolve_left hk
        · exact he f ((mem_insertEntry_of_ne x hfk es).mp hf)

def insert (m : SortedMap κ ν) (k : κ) (x : ν) : SortedMap κ ν :=
  ⟨insertEntry k x m.entries, insertEntry_sorted k x m.sorted⟩

theorem mem_insert {m : SortedMap κ ν} {k : κ} {x : ν} {e : κ × ν} :
    e ∈ (m.insert k x).entries ↔ e = (k, x) ∨ e ∈ m.entries ∧ e.1 ≠ k := by
  by_cases hk : e.1 = k
  · constructor
    · intro he
      obtain ⟨k', y⟩ := e
      change k' = k at hk
      subst hk
      have hxy : y = x := eq_of_mem he (mem_insertEntry_self _ x m.entries)
      exact .inl (by rw [hxy])
    · intro he
      rcases he with rfl | ⟨-, hne⟩
      · exact mem_insertEntry_self k x m.entries
      · exact absurd hk hne
  · show e ∈ insertEntry k x m.entries ↔ _
    rw [mem_insertEntry_of_ne x hk]
    have hnew : e ≠ (k, x) := fun h => hk (congrArg Prod.fst h)
    simp [hnew, hk]

theorem insertEntry_last {k : κ} (x : ν) {es : List (κ × ν)} (h : ∀ e ∈ es, e.1 < k) :
    insertEntry k x es = es ++ [(k, x)] := by
  induction es with
  | nil => rfl
  | cons e es ih =>
    have hek := h e List.mem_cons_self
    unfold insertEntry
    rw [if_neg (fun hlt => Std.lt_irrefl (Std.lt_trans hek hlt)),
      if_neg (fun heq => Std.lt_irrefl (heq ▸ hek)),
      ih fun f hf => h f (List.mem_cons_of_mem _ hf), List.cons_append]

theorem foldl_insert (es : List (κ × ν)) (m : SortedMap κ ν)
    (h : (m.entries ++ es).Pairwise fun a b => a.1 < b.1) :
    (es.foldl (fun m e => m.insert e.1 e.2) m).entries = m.entries ++ es := by
  induction es generalizing m with
  | nil => exact (List.append_nil _).symm
  | cons e es ih =>
    have hlast : (m.insert e.1 e.2).entries = m.entries ++ [e] := by
      apply insertEntry_last
      intro f hf
      exact (List.pairwise_append.mp h).2.2 f hf e List.mem_cons_self
    rw [List.foldl_cons, ih]
    · rw [hlast, List.append_assoc, List.singleton_append]
    · rwa [hlast, List.append_assoc, List.singleton_append]

theorem mem_foldl_insert {es : List (κ × ν)} {m : SortedMap κ ν} {e : κ × ν} :
    e ∈ (es.foldl (fun m e => m.insert e.1 e.2) m).entries ↔
      lastValue es e.1 = some e.2 ∨ lastValue es e.1 = none ∧ e ∈ m.entries := by
  induction es generalizing m with
  | nil => simp [lastValue]
  | cons f es ih =>
    rw [List.foldl_cons, ih, lastValue_cons, mem_insert]
    cases hlast : lastValue es e.1 with
    | some x => simp
    | none =>
      by_cases h : f.1 = e.1
      · have hnew : e = (f.1, f.2) ↔ f.2 = e.2 := by
          constructor
          · rintro rfl
            rfl
          · intro hx
            rw [h, hx]
        have hkey : ¬ e.1 ≠ f.1 := fun hne => hne h.symm
        simp only [hnew, hkey, if_pos h, Option.none_or, Option.some.injEq, reduceCtorEq, false_or,
          true_and, and_false, false_and, or_false]
      · have hnew : e ≠ (f.1, f.2) := fun he => h (congrArg Prod.fst he).symm
        have hkey : e.1 ≠ f.1 := fun he => h he.symm
        simp [h, hnew, hkey]

end Insert

theorem ext_mem [LE κ] [Std.IsLinearOrder κ] [Std.LawfulOrderLT κ] {m n : SortedMap κ ν}
    (h : ∀ e, e ∈ m.entries ↔ e ∈ n.entries) : m = n := by
  have hnodup : ∀ m : SortedMap κ ν, m.entries.Nodup := by
    intro m
    refine List.Pairwise.imp ?_ m.sorted
    rintro a b hab rfl
    exact Std.lt_irrefl hab
  refine ext (List.Perm.eq_of_pairwise ?_ m.sorted n.sorted
    ((List.perm_ext_iff_of_nodup (hnodup m) (hnodup n)).mpr h))
  intro a b _ _ hab hba
  exact absurd (Std.lt_trans hab hba) Std.lt_irrefl

/-- Strings of bytes are keys. -/
instance : Std.LawfulOrderLT (List UInt8) := inferInstance

end SortedMap

end EzRemote

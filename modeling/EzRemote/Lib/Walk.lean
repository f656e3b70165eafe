import Mathlib.Data.List.Induction

/-!
# Walking a directory tree

A directory is the list of the names that lead to it from the root.  One name
stands for the directory itself and one for its parent; the parent of the root
is the root.
-/

namespace EzRemote.Walk

variable {N : Type*} [DecidableEq N] (self parent : N)

/-- The directory, or the file, that a name leads to. -/
def enter (dir : List N) (name : N) : List N :=
  if name = self then dir else if name = parent then dir.dropLast else dir ++ [name]

def walk (dir : List N) (names : List N) : List N := names.foldl (enter self parent) dir

/-- The walk never leaves the directory, at none of its steps. -/
def Stays (dir : List N) (names : List N) : Prop :=
  ∀ front, front <+: names → dir <+: walk self parent dir front

/-- Whether a walk `level` names below a directory stays below it. -/
def admits : Nat → List N → Bool
  | _, [] => true
  | level, name :: names =>
    if name = self then admits level names
    else if name = parent then
      match level with
      | 0 => false
      | level + 1 => admits level names
    else admits (level + 1) names

variable {self parent} {dir names : List N}

theorem admits_cons (level : Nat) (name : N) (names : List N) :
    admits self parent level (name :: names) =
      if name = self then admits self parent level names
      else if name = parent then 0 < level && admits self parent (level - 1) names
      else admits self parent (level + 1) names := by
  rw [admits.eq_def]
  cases level <;> rfl

theorem walk_append (dir front back : List N) :
    walk self parent dir (front ++ back) = walk self parent (walk self parent dir front) back :=
  List.foldl_append ..

theorem Stays.isPrefix (h : Stays self parent dir names) : dir <+: walk self parent dir names :=
  h names (List.prefix_refl names)

/-- The levels count the names by which the walk is below the directory. -/
theorem admits_iff_below (hdir : dir ≠ []) (below : List N) :
    admits self parent below.length names = true ↔
      ∀ front, front <+: names → dir <+: walk self parent (dir ++ below) front := by
  induction names generalizing below with
  | nil =>
    refine iff_of_true rfl fun front hfront => ?_
    rw [List.prefix_nil.mp hfront]
    exact List.prefix_append dir below
  | cons name names ih =>
    have hstep : ∀ below', enter self parent (dir ++ below) name = dir ++ below' →
        ((∀ front, front <+: name :: names →
            dir <+: walk self parent (dir ++ below) front) ↔
          ∀ front, front <+: names → dir <+: walk self parent (dir ++ below') front) := by
      intro below' henter
      constructor
      · intro h front hfront
        have := h (name :: front) (List.cons_prefix_cons.mpr ⟨rfl, hfront⟩)
        rwa [walk, List.foldl_cons, henter] at this
      · intro h front hfront
        cases front with
        | nil => exact List.prefix_append dir below
        | cons a front =>
          obtain ⟨rfl, hrest⟩ := List.cons_prefix_cons.mp hfront
          rw [walk, List.foldl_cons, henter]
          exact h front hrest
    unfold admits
    by_cases hself : name = self
    · rw [if_pos hself, ih below, hstep below (by rw [enter, if_pos hself])]
    · rw [if_neg hself]
      by_cases hparent : name = parent
      · rw [if_pos hparent]
        cases below using List.reverseRecOn with
        | nil =>
          -- the walk is at the directory and leaves it
          refine iff_of_false (by simp) fun h => ?_
          have := h [name] (List.cons_prefix_cons.mpr ⟨rfl, List.nil_prefix⟩)
          rw [walk, List.foldl_cons, List.foldl_nil, enter, if_neg hself, if_pos hparent,
            List.append_nil] at this
          have hlen := this.length_le
          have hpos := List.length_pos_iff.mpr hdir
          rw [List.length_dropLast] at hlen
          omega
        | append_singleton below last =>
          have henter : enter self parent (dir ++ (below ++ [last])) name = dir ++ below := by
            rw [enter, if_neg hself, if_pos hparent, ← List.append_assoc, List.dropLast_concat]
          rw [List.length_append, List.length_singleton, hstep below henter]
          exact ih below
      · have henter : enter self parent (dir ++ below) name = dir ++ (below ++ [name]) := by
          rw [enter, if_neg hself, if_neg hparent, List.append_assoc]
        rw [if_neg hparent, hstep _ henter, ← ih (below ++ [name]), List.length_append,
          List.length_singleton]

theorem admits_iff (hdir : dir ≠ []) :
    admits self parent 0 names = true ↔ Stays self parent dir names := by
  have h : admits self parent 0 names = true ↔
      ∀ front, front <+: names → dir <+: walk self parent (dir ++ []) front :=
    admits_iff_below hdir []
  rwa [List.append_nil] at h

theorem Stays.concat (h : Stays self parent dir names) {name : N} (hname : name ≠ parent) :
    Stays self parent dir (names ++ [name]) := by
  intro front hfront
  rcases List.prefix_concat_iff.mp hfront with rfl | hfront
  · rw [walk_append]
    show dir <+: enter self parent (walk self parent dir names) name
    unfold enter
    rw [if_neg hname]
    split
    · exact h.isPrefix
    · exact h.isPrefix.trans (List.prefix_append _ _)
  · exact h front hfront

end EzRemote.Walk

import Mathlib.Data.Set.Basic
import Mathlib.Logic.Function.Basic

/-!
# Stores that write their memory to a file

A caller adds a record to memory and saves later, in a step of its own; then it
returns.  Other callers add and save in between.  Records leave the memory or
the file only once they are released, and nothing takes a release back.
-/

namespace EzRemote

/-- The records in memory and in the file, the released ones, those whose caller
has returned, and the one that caller `k` has added but not yet saved. -/
structure Durable (ι : Type*) where
  memory : Set ι
  file : Set ι
  released : Set ι
  returned : Set ι
  pending : Nat → Option ι

namespace Durable

variable {ι : Type*} {d d' : Durable ι}

/-- `d'` has in `y` what `d` had in `x`, but for what is released. -/
def Covers (d' : Durable ι) (x y : Set ι) : Prop := x ⊆ y ∪ d'.released

/-- What a step may do. -/
inductive Step (d d' : Durable ι) : Prop
  | keep (hm : d'.Covers d.memory d'.memory) (hf : d'.Covers d.file d'.file)
      (hr : d.released ⊆ d'.released) (hret : d'.returned = d.returned)
      (hp : d'.pending = d.pending)
  | add (k : Nat) (i : ι) (hm : d'.Covers (insert i d.memory) d'.memory)
      (hf : d'.Covers d.file d'.file) (hr : d.released ⊆ d'.released)
      (hret : d'.returned = d.returned)
      (hp : d'.pending = Function.update d.pending k (some i))
  | save (hm : d'.Covers d.memory d'.memory) (hf : d'.Covers d.memory d'.file)
      (hr : d.released ⊆ d'.released) (hret : d'.returned = d.returned)
      (hp : d'.pending = d.pending)
  | saveReturn (k : Nat) (hm : d'.Covers d.memory d'.memory)
      (hf : d'.Covers d.memory d'.file) (hr : d.released ⊆ d'.released)
      (hret : d'.returned = {i | d.pending k = some i} ∪ d.returned)
      (hp : d'.pending = Function.update d.pending k none)
  | restart (hm : d'.Covers d.file d'.memory) (hf : d'.Covers d.file d'.file)
      (hr : d.released ⊆ d'.released) (hret : d'.returned = d.returned)
      (hp : d'.pending = fun _ => none)

/-- No record is lost before it is released. -/
structure Safe (d : Durable ι) : Prop where
  file : d.Covers d.returned d.file
  memory : d.Covers d.returned d.memory
  pending : ∀ k i, d.pending k = some i → i ∈ d.memory ∪ d.released

theorem Covers.trans {x y z : Set ι} (h : d.Covers x y) (h' : d'.Covers y z)
    (hr : d.released ⊆ d'.released) : d'.Covers x z := by
  intro i hi
  rcases h hi with hi | hi
  · exact h' hi
  · exact .inr (hr hi)

theorem Safe.step (h : d.Safe) (st : Step d d') : d'.Safe := by
  cases st with
  | keep hm hf hr hret hp =>
    refine ⟨?_, ?_, ?_⟩
    · rw [hret]
      exact h.file.trans hf hr
    · rw [hret]
      exact h.memory.trans hm hr
    · intro k i hi
      rw [hp] at hi
      exact (h.pending k i hi).elim (fun hi => hm hi) fun hi => .inr (hr hi)
  | add k i hm hf hr hret hp =>
    have hm' : d'.Covers d.memory d'.memory := fun j hj => hm (.inr hj)
    refine ⟨?_, ?_, ?_⟩
    · rw [hret]
      exact h.file.trans hf hr
    · rw [hret]
      exact h.memory.trans hm' hr
    · intro j i' hi'
      rw [hp] at hi'
      by_cases hj : j = k
      · subst hj
        rw [Function.update_self] at hi'
        cases hi'
        exact hm (.inl rfl)
      · rw [Function.update_of_ne hj] at hi'
        exact (h.pending j i' hi').elim (fun hi => hm' hi) fun hi => .inr (hr hi)
  | save hm hf hr hret hp =>
    refine ⟨?_, ?_, ?_⟩
    · rw [hret]
      exact h.memory.trans hf hr
    · rw [hret]
      exact h.memory.trans hm hr
    · intro k i hi
      rw [hp] at hi
      exact (h.pending k i hi).elim (fun hi => hm hi) fun hi => .inr (hr hi)
  | saveReturn k hm hf hr hret hp =>
    -- the returning caller's record is in memory, and so in the file
    have hret' : d.Covers d'.returned d.memory := by
      rw [hret]
      intro i hi
      rcases hi with hi | hi
      · exact h.pending k i hi
      · exact h.memory hi
    refine ⟨hret'.trans hf hr, hret'.trans hm hr, ?_⟩
    intro j i hi
    rw [hp] at hi
    by_cases hj : j = k
    · rw [hj, Function.update_self] at hi
      cases hi
    · rw [Function.update_of_ne hj] at hi
      exact (h.pending j i hi).elim (fun hi => hm hi) fun hi => .inr (hr hi)
  | restart hm hf hr hret hp =>
    refine ⟨?_, ?_, ?_⟩
    · rw [hret]
      exact h.file.trans hf hr
    · rw [hret]
      exact h.file.trans hm hr
    · intro k i hi
      rw [hp] at hi
      cases hi

theorem safe_empty (hret : d.returned = ∅) (hp : d.pending = fun _ => none) : d.Safe := by
  refine ⟨?_, ?_, ?_⟩
  · rw [hret]
    exact Set.empty_subset _
  · rw [hret]
    exact Set.empty_subset _
  · intro k i hi
    rw [hp] at hi
    cases hi

end Durable

end EzRemote

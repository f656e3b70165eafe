import Mathlib.Logic.Basic

/-!
# Total runs

A program over `StateT _ Option` that is defined from every state of a kind:
the conditions before and after it are those of a Hoare triple for total
correctness.
-/

namespace EzRemote

universe u

variable {σ α β : Type u} {P P' : σ → Prop} {Q R : α → σ → Prop} {m : StateT σ Option α}

/-- From a state that `P` admits the run returns a value, and ends in a state
that `Q` admits under it. -/
def Total (P : σ → Prop) (m : StateT σ Option α) (Q : α → σ → Prop) : Prop :=
  ∀ s, P s → ∃ a s', m s = some (a, s') ∧ Q a s'

namespace Total

theorem pure {a : α} (h : ∀ s, P s → Q a s) : Total P (Pure.pure a) Q :=
  fun s hP => ⟨a, s, rfl, h s hP⟩

theorem bind {S : β → σ → Prop} {f : α → StateT σ Option β} (hm : Total P m Q)
    (hf : ∀ a, Total (Q a) (f a) S) : Total P (m >>= f) S := by
  intro s hP
  obtain ⟨a, t, hs, hQ⟩ := hm s hP
  obtain ⟨b, s', ht, hS⟩ := hf a t hQ
  refine ⟨b, s', ?_, hS⟩
  show (m s).bind (fun x => f x.1 x.2) = _
  rw [hs]
  exact ht

/-- The rule for a first part whose value is known. -/
theorem bind_eq {a : α} {P₁ : σ → Prop} {S : β → σ → Prop} {f : α → StateT σ Option β}
    (hm : Total P m fun x s => x = a ∧ P₁ s) (hf : Total P₁ (f a) S) : Total P (m >>= f) S := by
  apply hm.bind
  rintro b s ⟨rfl, hs⟩
  exact hf s hs

theorem get_bind {f : σ → StateT σ Option α} (h : ∀ s, P s → Total (· = s) (f s) Q) :
    Total P (MonadState.get >>= f) Q :=
  fun s hP => h s hP s rfl

theorem of_state {s : σ} (h : Total P m Q) (hs : P s) : Total (· = s) m Q := by
  rintro t rfl
  exact h t hs

theorem modify {f : σ → σ} {Q : PUnit → σ → Prop} (h : ∀ s, P s → Q .unit (f s)) :
    Total P (modify f) Q :=
  fun s hP => ⟨.unit, f s, rfl, h s hP⟩

theorem mono (h : Total P m Q) (hP : ∀ s, P' s → P s) (hQ : ∀ a s, Q a s → R a s) :
    Total P' m R := by
  intro s hs
  obtain ⟨a, s', hm, ha⟩ := h s (hP s hs)
  exact ⟨a, s', hm, hQ a s' ha⟩

end Total

end EzRemote

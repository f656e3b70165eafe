import Mathlib.Logic.Basic

/-!
# Lockstep runs

Two programs over `StateT _ Option` that run side by side: both are undefined,
or both return the same value in related states.  The relation before a run
and the one after it compose like the two conditions of a Hoare triple.
-/

namespace EzRemote

universe u

variable {σ τ α β : Type u} {P P' : σ → τ → Prop} {Q R : α → σ → τ → Prop}
  {m : StateT σ Option α} {m' : StateT τ Option α}

/-- From states related by `P` the two runs agree, and end in states that `Q`
relates under the value returned. -/
def Lockstep (P : σ → τ → Prop) (m : StateT σ Option α) (m' : StateT τ Option α)
    (Q : α → σ → τ → Prop) : Prop :=
  ∀ s t, P s t → Option.Rel (fun x y => x.1 = y.1 ∧ Q x.1 x.2 y.2) (m s) (m' t)

namespace Lockstep

theorem pure {a : α} (h : ∀ s t, P s t → Q a s t) :
    Lockstep P (Pure.pure a) (Pure.pure a) Q :=
  fun s t hP => .some ⟨rfl, h s t hP⟩

theorem failure : Lockstep P (failure : StateT σ Option α) (failure : StateT τ Option α) Q :=
  fun _ _ _ => .none

theorem bind {S : β → σ → τ → Prop} {f : α → StateT σ Option β} {f' : α → StateT τ Option β}
    (hm : Lockstep P m m' Q) (hf : ∀ a, Lockstep (Q a) (f a) (f' a) S) :
    Lockstep P (m >>= f) (m' >>= f') S := by
  intro s t hP
  show Option.Rel _ ((m s).bind fun x => f x.1 x.2) ((m' t).bind fun y => f' y.1 y.2)
  cases hs : m s <;> cases ht : m' t <;>
    have h := hm s t hP <;> rw [hs, ht] at h <;> cases h
  · exact .none
  · rename_i x y hxy
    rw [Option.bind_some, Option.bind_some, ← hxy.1]
    exact hf x.1 _ _ hxy.2

/-- A program that reads its state is run from each pair of related states. -/
theorem get_bind {f : σ → StateT σ Option α} {f' : τ → StateT τ Option α}
    (h : ∀ s t, P s t → Lockstep P (f s) (f' t) Q) :
    Lockstep P (MonadState.get >>= f) (MonadState.get >>= f') Q :=
  fun s t hP => h s t hP s t hP

theorem modify {f : σ → σ} {f' : τ → τ} {Q : PUnit → σ → τ → Prop}
    (h : ∀ s t, P s t → Q .unit (f s) (f' t)) :
    Lockstep P (modify f) (modify f') Q :=
  fun s t hP => .some ⟨rfl, h s t hP⟩

theorem ite {c : Prop} [Decidable c] {n : StateT σ Option α} {n' : StateT τ Option α}
    (ht : c → Lockstep P m m' Q) (he : ¬ c → Lockstep P n n' Q) :
    Lockstep P (if c then m else n) (if c then m' else n') Q := by
  by_cases hc : c
  · rw [if_pos hc, if_pos hc]
    exact ht hc
  · rw [if_neg hc, if_neg hc]
    exact he hc

theorem mono (h : Lockstep P m m' Q) (hP : ∀ s t, P' s t → P s t)
    (hQ : ∀ a s t, Q a s t → R a s t) : Lockstep P' m m' R := by
  intro s t hs
  have hr := h s t (hP s t hs)
  cases hm : m s <;> cases hm' : m' t <;> rw [hm, hm'] at hr <;> cases hr
  · exact .none
  · rename_i x y hxy
    exact .some ⟨hxy.1, hQ _ _ _ hxy.2⟩

theorem of_exists {ι : Type*} {P : ι → σ → τ → Prop} (h : ∀ i, Lockstep (P i) m m' Q) :
    Lockstep (fun s t => ∃ i, P i s t) m m' Q :=
  fun s t ⟨i, hi⟩ => h i s t hi

theorem of_and {p : Prop} (h : p → Lockstep P m m' Q) :
    Lockstep (fun s t => p ∧ P s t) m m' Q :=
  fun s t hP => h hP.1 s t hP.2

/-- Both runs look the same to whoever sees the value and what `Q` makes equal
of the states. -/
theorem observe {f : σ → β} {g : τ → β} (h : Lockstep P m m' Q)
    (hfg : ∀ a s t, Q a s t → f s = g t) {s : σ} {t : τ} (hP : P s t) :
    (m s).map (fun r => (r.1, f r.2)) = (m' t).map fun r => (r.1, g r.2) := by
  have hr := h s t hP
  cases hm : m s <;> cases hm' : m' t <;> rw [hm, hm'] at hr <;> cases hr
  · rfl
  · rename_i x y hxy
    exact congrArg some (Prod.ext hxy.1 (hfg _ _ _ hxy.2))

theorem ends (h : Lockstep P m m' Q) {s s' : σ} {t : τ} {a : α} (hP : P s t)
    (hm : m s = some (a, s')) : ∃ t', m' t = some (a, t') ∧ Q a s' t' := by
  have hr := h s t hP
  cases hm' : m' t <;> rw [hm, hm'] at hr <;> cases hr
  rename_i y hxy
  obtain ⟨b, t'⟩ := y
  cases hxy.1
  exact ⟨t', rfl, hxy.2⟩

theorem self {P : σ → σ → Prop} {Q : α → σ → σ → Prop} (h : Lockstep P m m Q) {s s' : σ} {a : α}
    (hP : P s s) (hm : m s = some (a, s')) : Q a s' s' := by
  obtain ⟨t', ht, hQ⟩ := h.ends hP hm
  rw [hm, Option.some.injEq, Prod.mk.injEq] at ht
  rwa [← ht.2] at hQ

end Lockstep

/-- What holds before a run that ends holds after it. -/
def Keeps (I : σ → Prop) (m : StateT σ Option α) : Prop :=
  ∀ s a s', I s → m s = some (a, s') → I s'

namespace Keeps

variable {I : σ → Prop}

theorem pure (a : α) : Keeps I (Pure.pure a) := by
  intro s b s' hI h
  cases h
  exact hI

theorem failure : Keeps I (failure : StateT σ Option α) :=
  fun _ _ _ _ h => nomatch h

theorem bind {f : α → StateT σ Option β} (hm : Keeps I m) (hf : ∀ a, Keeps I (f a)) :
    Keeps I (m >>= f) := by
  intro s b s' hI h
  obtain ⟨⟨a, t⟩, hs, ht⟩ := Option.bind_eq_some_iff.mp h
  exact hf a _ _ _ (hm _ _ _ hI hs) ht

theorem get_bind {f : σ → StateT σ Option α} (h : ∀ s, Keeps I (f s)) :
    Keeps I (MonadState.get >>= f) :=
  fun s a s' hI hs => h s s a s' hI hs

theorem modify {f : σ → σ} (h : ∀ s, I s → I (f s)) : Keeps I (modify f) := by
  intro s a s' hI hs
  cases hs
  exact h s hI

theorem ite {c : Prop} [Decidable c] {n : StateT σ Option α} (hm : Keeps I m)
    (hn : Keeps I n) : Keeps I (if c then m else n) := by
  split
  · exact hm
  · exact hn

end Keeps

theorem bind_eq_some {f : α → StateT σ Option β} {s : σ} {r : β × σ}
    (h : (m >>= f) s = some r) : ∃ a s', m s = some (a, s') ∧ f a s' = some r := by
  obtain ⟨⟨a, s'⟩, hm, hf⟩ := Option.bind_eq_some_iff.mp h
  exact ⟨a, s', hm, hf⟩

theorem bind_of_some {f : α → StateT σ Option β} {s s' : σ} {a : α} (h : m s = some (a, s')) :
    (m >>= f) s = f a s' := by
  show (m s).bind (fun r => f r.1 r.2) = f a s'
  rw [h, Option.bind_some]

theorem bind_of_none {f : α → StateT σ Option β} {s : σ} (h : m s = none) : (m >>= f) s = none := by
  show (m s).bind (fun r => f r.1 r.2) = none
  rw [h, Option.bind_none]

theorem get_bind_eq (f : σ → StateT σ Option α) (s : σ) : (MonadState.get >>= f) s = f s s := rfl

end EzRemote

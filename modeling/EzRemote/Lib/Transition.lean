import Mathlib.Logic.Basic

/-!
# Guarded transition systems

A system is a predicate on initial states and a partial step function that an
action resolves.  `Reachable` restricts a run to actions that satisfy a guard,
so one theorem can speak of all runs or of the runs whose steps meet a
condition.
-/

namespace EzRemote.Transition

variable {σ α : Type*}

/-- States reached from an initial one by steps that all satisfy `ok`. -/
inductive Reachable (init : σ → Prop) (step : σ → α → Option σ) (ok : σ → α → Prop) : σ → Prop
  | start {s : σ} : init s → Reachable init step ok s
  | next {s t : σ} {a : α} : Reachable init step ok s → ok s a → step s a = some t →
      Reachable init step ok t

/-- The guard that admits every step. -/
def anyStep : σ → α → Prop := fun _ _ => True

instance (s : σ) (a : α) : Decidable (anyStep s a) := inferInstanceAs (Decidable True)

variable {init : σ → Prop} {step : σ → α → Option σ} {ok ok' : σ → α → Prop}

/-- What holds initially and is kept by every admitted step holds of every
reachable state. -/
theorem Reachable.invariant {Inv : σ → Prop} {s : σ} (h : Reachable init step ok s)
    (hinit : ∀ s, init s → Inv s)
    (hstep : ∀ s a t, Inv s → ok s a → step s a = some t → Inv t) : Inv s := by
  induction h with
  | start h0 => exact hinit _ h0
  | next _ hok hs ih => exact hstep _ _ _ ih hok hs

theorem Reachable.mono {s : σ} (h : Reachable init step ok s)
    (hok : ∀ s a, ok s a → ok' s a) : Reachable init step ok' s := by
  induction h with
  | start h0 => exact .start h0
  | next _ ha hs ih => exact .next ih (hok _ _ ha) hs

/-- Run a list of actions, all of which the guard must admit. -/
def run (step : σ → α → Option σ) (ok : σ → α → Prop) [∀ s a, Decidable (ok s a)] :
    σ → List α → Option σ
  | s, [] => some s
  | s, a :: as => if ok s a then (step s a).bind fun t => run step ok t as else none

variable [∀ s a, Decidable (ok s a)]

theorem Reachable.run {s t : σ} (h : Reachable init step ok s) (as : List α)
    (hr : run step ok s as = some t) : Reachable init step ok t := by
  induction as generalizing s with
  | nil =>
    simp only [Transition.run, Option.some.injEq] at hr
    exact hr ▸ h
  | cons a as ih =>
    unfold Transition.run at hr
    split at hr
    · rename_i hok
      obtain ⟨u, hu, ht⟩ := Option.bind_eq_some_iff.mp hr
      exact ih (.next h hok hu) ht
    · cases hr

theorem Reachable.run_mono {s t : σ} (h : Reachable init step ok' s) (hok : ∀ s a, ok s a → ok' s a)
    (as : List α) (hr : Transition.run step ok s as = some t) : Reachable init step ok' t := by
  induction as generalizing s with
  | nil =>
    simp only [Transition.run, Option.some.injEq] at hr
    exact hr ▸ h
  | cons a as ih =>
    unfold Transition.run at hr
    split at hr
    · rename_i ha
      obtain ⟨u, hu, ht⟩ := Option.bind_eq_some_iff.mp hr
      exact ih (.next h (hok s a ha) hu) ht
    · cases hr

/-- Where every admitted step uses up some of a measure, no run is longer than
what there is of it. -/
theorem run_length_le {μ : σ → Nat} (hdec : ∀ s a t, ok s a → step s a = some t → μ t < μ s)
    {s t : σ} {as : List α} (hr : run step ok s as = some t) : as.length + μ t ≤ μ s := by
  induction as generalizing s with
  | nil =>
    simp only [Transition.run, Option.some.injEq] at hr
    exact Nat.le_of_eq (by rw [hr, List.length_nil, Nat.zero_add])
  | cons a as ih =>
    unfold Transition.run at hr
    split at hr
    · rename_i hok
      obtain ⟨u, hu, ht⟩ := Option.bind_eq_some_iff.mp hr
      have hlt : μ u < μ s := hdec s a u hok hu
      have hle : as.length + μ t ≤ μ u := ih ht
      rw [List.length_cons]
      omega
    · cases hr

/-- A run from an initial state whose result is observed through `f`. -/
theorem exists_reachable_of_run {β : Type*} {s : σ} (h0 : init s) (as : List α)
    (f : σ → β) (b : β) (hr : (Transition.run step ok s as).map f = some b) :
    ∃ t, Reachable init step ok t ∧ f t = b := by
  simp only [Option.map_eq_some_iff] at hr
  obtain ⟨t, ht, hb⟩ := hr
  exact ⟨t, (Reachable.start h0).run as ht, hb⟩

end EzRemote.Transition

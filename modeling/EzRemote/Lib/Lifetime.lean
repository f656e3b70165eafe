import Mathlib.Data.List.Basic

/-!
# Lifetimes of resources

A log of what a program did to some resources, and which of them are alive
after it.  A resource may be opened again once it is closed.
-/

namespace EzRemote.Lifetime

/-- What one call does to a resource. -/
inductive Event (ρ : Type*)
  | opened (r : ρ)
  | used (r : ρ)
  | closed (r : ρ)
  deriving DecidableEq, Repr

variable {ρ : Type*} [DecidableEq ρ]

/-- The resources that are alive after a log; `none` where a call was made on a
resource that was not. -/
def after : List ρ → List (Event ρ) → Option (List ρ)
  | alive, [] => some alive
  | alive, .opened r :: log => after (r :: alive) log
  | alive, .used r :: log => if r ∈ alive then after alive log else none
  | alive, .closed r :: log => if r ∈ alive then after (alive.erase r) log else none

/-- Nothing dead is touched, and everything opened is closed exactly once. -/
def Clean (log : List (Event ρ)) : Prop := after [] log = some []

instance (log : List (Event ρ)) : Decidable (Clean log) := inferInstanceAs (Decidable (_ = _))

@[simp] theorem after_nil (alive : List ρ) : after alive [] = some alive := rfl

@[simp] theorem after_opened (alive : List ρ) (r : ρ) (log : List (Event ρ)) :
    after alive (.opened r :: log) = after (r :: alive) log := rfl

theorem after_used {alive : List ρ} {r : ρ} (h : r ∈ alive) (log : List (Event ρ)) :
    after alive (.used r :: log) = after alive log := if_pos h

theorem after_closed {alive : List ρ} {r : ρ} (h : r ∈ alive) (log : List (Event ρ)) :
    after alive (.closed r :: log) = after (alive.erase r) log := if_pos h

theorem after_used_dead {alive : List ρ} {r : ρ} (h : r ∉ alive) (log : List (Event ρ)) :
    after alive (.used r :: log) = none := if_neg h

theorem after_closed_dead {alive : List ρ} {r : ρ} (h : r ∉ alive) (log : List (Event ρ)) :
    after alive (.closed r :: log) = none := if_neg h

theorem after_append (alive : List ρ) (log log' : List (Event ρ)) :
    after alive (log ++ log') = (after alive log).bind fun alive' => after alive' log' := by
  induction log generalizing alive with
  | nil => rfl
  | cons e log ih =>
    cases e with
    | opened r => exact ih (r :: alive)
    | used r =>
      by_cases h : r ∈ alive
      · rw [List.cons_append, after_used h, after_used h, ih]
      · rw [List.cons_append, after_used_dead h, after_used_dead h, Option.bind_none]
    | closed r =>
      by_cases h : r ∈ alive
      · rw [List.cons_append, after_closed h, after_closed h, ih]
      · rw [List.cons_append, after_closed_dead h, after_closed_dead h, Option.bind_none]

theorem after_append_of {alive alive' : List ρ} {log : List (Event ρ)}
    (h : after alive log = some alive') (log' : List (Event ρ)) :
    after alive (log ++ log') = after alive' log' := by
  rw [after_append, h, Option.bind_some]

theorem after_uses {alive : List ρ} {r : ρ} (h : r ∈ alive) {log : List (Event ρ)}
    (hlog : ∀ e ∈ log, e = .used r) : after alive log = some alive := by
  induction log with
  | nil => rfl
  | cons e log ih =>
    rw [hlog e List.mem_cons_self, after_used h]
    exact ih fun e he => hlog e (List.mem_cons_of_mem _ he)

theorem after_flatten {alive : List ρ} {logs : List (List (Event ρ))}
    (h : ∀ log ∈ logs, after alive log = some alive) : after alive logs.flatten = some alive := by
  induction logs with
  | nil => rfl
  | cons log logs ih =>
    rw [List.flatten_cons, after_append_of (h log List.mem_cons_self)]
    exact ih fun log hlog => h log (List.mem_cons_of_mem _ hlog)

end EzRemote.Lifetime

import Mathlib.Logic.Basic

/-!
# Templates that emit

A function that is written once and run on different sinks: a counter, a
buffer, a connection.  What it emits is a list of items; a sink takes tokens
always and content unless it fails.
-/

namespace EzRemote.Emit

variable {τ κ σ σ' : Type*}

inductive Item (τ κ : Type*)
  | token (t : τ)
  | content (c : κ)

structure Sink (τ κ σ : Type*) where
  token : τ → σ → σ
  content : κ → σ → Bool × σ

/-- The items one after another; content that fails ends the run. -/
def run (sink : Sink τ κ σ) : List (Item τ κ) → σ → Bool × σ
  | [], s => (true, s)
  | .token t :: items, s => run sink items (sink.token t s)
  | .content c :: items, s =>
    if (sink.content c s).1 then run sink items (sink.content c s).2 else sink.content c s

theorem run_keeps (sink : Sink τ κ σ) (good : σ → Prop) {items : List (Item τ κ)}
    (htoken : ∀ t s, good s → good (sink.token t s))
    (hcontent : ∀ c, .content c ∈ items → ∀ s, good s → good (sink.content c s).2)
    {s : σ} (h : good s) : good (run sink items s).2 := by
  induction items generalizing s with
  | nil => exact h
  | cons item items ih =>
    have hrest : ∀ c, .content c ∈ items → ∀ s, good s → good (sink.content c s).2 :=
      fun c hc => hcontent c (List.mem_cons_of_mem _ hc)
    cases item with
    | token t => exact ih hrest (htoken t s h)
    | content c =>
      have hc := hcontent c List.mem_cons_self s h
      unfold run
      split
      · exact ih hrest hc
      · exact hc

theorem run_keeps_iff (sink : Sink τ κ σ) (good : σ → Prop) (ok : κ → Prop)
    {items : List (Item τ κ)} (htoken : ∀ t s, good (sink.token t s) ↔ good s)
    (hcontent : ∀ c s, (sink.content c s).1 = true ∧
      (good (sink.content c s).2 ↔ good s ∧ ok c)) (s : σ) :
    good (run sink items s).2 ↔ good s ∧ ∀ c, .content c ∈ items → ok c := by
  induction items generalizing s with
  | nil =>
    refine ⟨fun h => ⟨h, fun c hc => absurd hc List.not_mem_nil⟩, fun h => h.1⟩
  | cons item items ih =>
    cases item with
    | token t =>
      have hmem : ∀ c, (.content c : Item τ κ) ∈ .token t :: items ↔ .content c ∈ items := by
        intro c
        simp only [List.mem_cons, reduceCtorEq, false_or]
      simp only [hmem]
      rw [run, ih, htoken]
    | content c =>
      obtain ⟨hs, hgood⟩ := hcontent c s
      have hmem : (∀ c', (.content c' : Item τ κ) ∈ .content c :: items → ok c') ↔
          ok c ∧ ∀ c', .content c' ∈ items → ok c' := by
        constructor
        · exact fun h => ⟨h c List.mem_cons_self, fun c' hc' => h c' (List.mem_cons_of_mem _ hc')⟩
        · rintro ⟨hc, hrest⟩ c' hc'
          rcases List.mem_cons.mp hc' with heq | hc'
          · cases heq
            exact hc
          · exact hrest c' hc'
      rw [run, if_pos hs, ih, hgood, hmem, and_assoc]

def Item.text {α : Type*} (f : κ → List α) : Item (List α) κ → List α
  | .token t => t
  | .content c => f c

end EzRemote.Emit

import EzRemote.Lib.Lockstep

/-!
# Runs that record what they attempt

A program over `StateT _ Option` leaves nothing behind where it is undefined.  A
`Logged` program lists what it attempts up to there as well; `erase` forgets the
list.
-/

namespace EzRemote

universe u v

structure Logged (ω : Type v) (σ α : Type u) where
  run : σ → List ω × Option (α × σ)

namespace Logged

variable {ω : Type v} {σ α β : Type u}

/-- The list of a run. -/
def log (m : Logged ω σ α) (s : σ) : List ω := (m.run s).1

/-- The run without its list. -/
def erase (m : Logged ω σ α) : StateT σ Option α := fun s => (m.run s).2

/-- A program that records nothing. -/
def lift (m : StateT σ Option α) : Logged ω σ α := ⟨fun s => ([], m s)⟩

def record (x : ω) : Logged ω σ PUnit := ⟨fun s => ([x], some (⟨⟩, s))⟩

/-- What comes behind a program, from where it ends. -/
def behind (m : Logged ω σ α) (f : α → Logged ω σ β) (s : σ) : List ω × Option (β × σ) :=
  (m.erase s).elim ([], none) fun r => (f r.1).run r.2

instance : Monad (Logged ω σ) where
  pure a := lift (Pure.pure a)
  bind m f := ⟨fun s => (m.log s ++ (m.behind f s).1, (m.behind f s).2)⟩

@[simp] theorem erase_lift (m : StateT σ Option α) : (lift m : Logged ω σ α).erase = m := rfl

@[simp] theorem erase_pure (a : α) : (pure a : Logged ω σ α).erase = pure a := rfl

@[simp] theorem erase_bind (m : Logged ω σ α) (f : α → Logged ω σ β) :
    (m >>= f).erase = m.erase >>= fun a => (f a).erase := by
  funext s
  show (m.behind f s).2 = (m.erase s).bind fun r => (f r.1).erase r.2
  unfold behind
  cases m.erase s with
  | none => rfl
  | some r => rfl

@[simp] theorem erase_ite (c : Prop) [Decidable c] (m n : Logged ω σ α) :
    (if c then m else n).erase = if c then m.erase else n.erase := by
  split
  · rfl
  · rfl

theorem mem_bind_left {m : Logged ω σ α} {x : ω} {s : σ} (h : x ∈ m.log s)
    (f : α → Logged ω σ β) : x ∈ (m >>= f).log s :=
  List.mem_append_left _ h

theorem log_bind {m : Logged ω σ α} {s s' : σ} {a : α} (hm : m.erase s = some (a, s'))
    (f : α → Logged ω σ β) : (m >>= f).log s = m.log s ++ (f a).log s' := by
  show m.log s ++ (m.behind f s).1 = _
  rw [behind, hm]
  rfl

theorem log_lift_bind {m : StateT σ Option α} {s s' : σ} {a : α} (hm : m s = some (a, s'))
    (f : α → Logged ω σ β) : (lift m >>= f).log s = (f a).log s' := by
  have hlift : (lift m : Logged ω σ α).erase s = some (a, s') := hm
  exact (log_bind hlift f).trans (List.nil_append _)

/-- From a state that `I` admits everything recorded is `P`, and a run that ends
does so in a state that `J` admits. -/
def Records (I : σ → Prop) (P : ω → Prop) (m : Logged ω σ α) (J : σ → Prop) : Prop :=
  ∀ s, I s → (∀ x ∈ m.log s, P x) ∧ ∀ a s', m.erase s = some (a, s') → J s'

namespace Records

variable {I J K : σ → Prop} {P : ω → Prop} {m n : Logged ω σ α}

theorem lift {m : StateT σ Option α} (h : ∀ s a s', I s → m s = some (a, s') → J s') :
    Records I P (Logged.lift m) J :=
  fun s hs => ⟨fun _ hx => absurd hx List.not_mem_nil, fun a s' hm => h s a s' hs hm⟩

theorem pure (a : α) (h : ∀ s, I s → J s) : Records I P (Pure.pure a) J := by
  apply lift
  intro s b s' hs hm
  cases hm
  exact h s hs

theorem record {x : ω} (hx : P x) : Records I P (Logged.record x : Logged ω σ PUnit) I := by
  intro s hs
  constructor
  · intro y hy
    rw [List.mem_singleton.mp hy]
    exact hx
  · intro a s' hm
    cases hm
    exact hs

theorem bind {f : α → Logged ω σ β} (hm : Records I P m J) (hf : ∀ a, Records J P (f a) K) :
    Records I P (m >>= f) K := by
  intro s hs
  obtain ⟨hlog, hend⟩ := hm s hs
  constructor
  · intro x hx
    rcases List.mem_append.mp hx with hx | hx
    · exact hlog x hx
    · unfold behind at hx
      cases hr : m.erase s with
      | none =>
        rw [hr] at hx
        cases hx
      | some r =>
        rw [hr] at hx
        exact (hf r.1 r.2 (hend r.1 r.2 hr)).1 x hx
  · intro b s' hb
    rw [erase_bind] at hb
    obtain ⟨a, s₁, ha, hb⟩ := bind_eq_some hb
    exact (hf a s₁ (hend a s₁ ha)).2 b s' hb

theorem ite {c : Prop} [Decidable c] (hm : Records I P m J) (hn : Records I P n J) :
    Records I P (if c then m else n) J := by
  split
  · exact hm
  · exact hn

theorem get_bind {f : σ → Logged ω σ α} (h : ∀ s, I s → Records I P (f s) J) :
    Records I P (Logged.lift MonadState.get >>= f) J :=
  fun s hs => h s hs s hs

end Records

end Logged

end EzRemote

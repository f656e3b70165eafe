import Mathlib.Data.List.Infix
import Mathlib.Data.List.Nodup

/-!
# Files that are rewritten in place

A save truncates the file and writes the text of its content in pieces, so at
any moment the file holds the text of a content or, during a save, a part of
one.  What a reader makes of a part decides whether the end of the process loses
anything.
-/

namespace EzRemote

/-- The bytes of the file, the content of the last completed save, and the
content of the last save that has begun and not completed, with the bytes that
it has not written yet. -/
structure Rewrite (κ β : Type*) where
  disk : Option (List β)
  completed : Option κ
  saving : Option (κ × List β)

/-- How contents are written and read; the parser refuses what is no text. -/
structure TextFormat (κ β : Type*) where
  text : κ → List β
  parse : List β → Option κ

namespace Rewrite

variable {κ β δ : Type*}

/-- The file before anything was saved. -/
def absent : Rewrite κ β := ⟨none, none, none⟩

section Steps

variable (fmt : TextFormat κ β) (f : Rewrite κ β)

def truncate (k : κ) : Rewrite κ β :=
  { f with disk := some [], saving := some (k, fmt.text k) }

/-- The next `n` bytes. -/
def write (n : Nat) : Option (Rewrite κ β) :=
  f.saving.bind fun s => f.disk.map fun w =>
    { f with disk := some (w ++ s.2.take n), saving := some (s.1, s.2.drop n) }

/-- The end of the save, once everything is written. -/
def finish : Option (Rewrite κ β) :=
  f.saving.bind fun s =>
    if s.2.isEmpty then some { f with completed := some s.1, saving := none } else none

end Steps

variable {fmt : TextFormat κ β} {f f' : Rewrite κ β}

/-- What is written and what is not make up a text. -/
structure Consistent (fmt : TextFormat κ β) (f : Rewrite κ β) : Prop where
  idle : f.saving = none → f.disk = f.completed.map fmt.text
  torn : ∀ k rest, f.saving = some (k, rest) → ∃ w, f.disk = some w ∧ w ++ rest = fmt.text k

theorem consistent_absent : Consistent fmt (absent : Rewrite κ β) :=
  ⟨fun _ => rfl, fun _ _ h => (by cases h)⟩

theorem consistent_truncate (k : κ) : Consistent fmt (f.truncate fmt k) := by
  refine ⟨fun h => (by cases h), ?_⟩
  intro k' rest h
  cases h
  exact ⟨[], rfl, List.nil_append _⟩

theorem consistent_write {n : Nat} (h : Consistent fmt f) (hw : f.write n = some f') :
    Consistent fmt f' := by
  obtain ⟨⟨k, rest⟩, hs, hw⟩ := Option.bind_eq_some_iff.mp hw
  obtain ⟨w, hd, rfl⟩ := Option.map_eq_some_iff.mp hw
  refine ⟨fun h => (by cases h), ?_⟩
  intro k' rest' h'
  cases h'
  obtain ⟨w', hd', heq⟩ := h.torn k rest hs
  rw [hd] at hd'
  cases hd'
  refine ⟨_, rfl, ?_⟩
  rw [List.append_assoc, List.take_append_drop, heq]

theorem finish_cases (hf : f.finish = some f') :
    ∃ k, f.saving = some (k, []) ∧ f' = { f with completed := some k, saving := none } := by
  obtain ⟨⟨k, rest⟩, hs, hf⟩ := Option.bind_eq_some_iff.mp hf
  split at hf
  · rename_i hrest
    cases hf
    cases List.isEmpty_iff.mp hrest
    exact ⟨k, hs, rfl⟩
  · cases hf

theorem consistent_finish (h : Consistent fmt f) (hf : f.finish = some f') :
    Consistent fmt f' := by
  obtain ⟨k, hs, rfl⟩ := finish_cases hf
  refine ⟨fun _ => ?_, fun _ _ h' => (by cases h')⟩
  obtain ⟨w, hd, heq⟩ := h.torn k [] hs
  rw [List.append_nil] at heq
  rw [hd, heq]
  rfl

/-- A file that is read: what does not parse, or is not there, counts as
`nothing`. -/
def loaded (fmt : TextFormat κ β) (load : κ → δ) (nothing : δ) (disk : Option (List β)) : δ :=
  ((disk.bind fmt.parse).map load).getD nothing

/-- The content of the last completed save. -/
def lastSaved (load : κ → δ) (nothing : δ) (f : Rewrite κ β) : δ :=
  (f.completed.map load).getD nothing

/-- A reader finds the last completed content or the one being saved. -/
def Survives (fmt : TextFormat κ β) (load : κ → δ) (nothing : δ) (f : Rewrite κ β) : Prop :=
  loaded fmt load nothing f.disk = lastSaved load nothing f ∨
    ∃ k rest, f.saving = some (k, rest) ∧ loaded fmt load nothing f.disk = load k

/-- Texts are read as what they were, and no part of a text is read. -/
structure Reads (fmt : TextFormat κ β) (load : κ → δ) : Prop where
  text : ∀ k, ∃ k', fmt.parse (fmt.text k) = some k' ∧ load k' = load k
  torn : ∀ k w, w <+: fmt.text k → w ≠ fmt.text k → fmt.parse w = none

variable {load : κ → δ} {nothing : δ}

theorem loaded_text (hr : Reads fmt load) (k : κ) :
    loaded fmt load nothing (some (fmt.text k)) = load k := by
  obtain ⟨k', hp, hl⟩ := hr.text k
  unfold loaded
  rw [Option.bind_some, hp, Option.map_some, Option.getD_some, hl]

/-- A reader finds one of the two contents exactly when the save in progress, if
there is one, has written everything or one of the two is nothing. -/
theorem survives_iff (hr : Reads fmt load) (h : Consistent fmt f) :
    Survives fmt load nothing f ↔ ∀ k rest, f.saving = some (k, rest) →
      rest = [] ∨ lastSaved load nothing f = nothing ∨ load k = nothing := by
  cases hs : f.saving with
  | none =>
    refine iff_of_true (.inl ?_) fun _ _ h' => by cases h'
    rw [h.idle hs]
    unfold lastSaved
    cases f.completed with
    | none => rfl
    | some k => exact loaded_text hr k
  | some s =>
    obtain ⟨k, rest⟩ := s
    obtain ⟨w, hd, heq⟩ := h.torn k rest hs
    by_cases hrest : rest = []
    · -- the text is complete
      refine iff_of_true (.inr ⟨k, rest, hs, ?_⟩) fun k' rest' h' => ?_
      · rw [hrest, List.append_nil] at heq
        rw [hd, heq]
        exact loaded_text hr k
      · cases h'
        exact .inl hrest
    · -- a part of the text counts as nothing
      have hpart : loaded fmt load nothing f.disk = nothing := by
        have hne : w ≠ fmt.text k := by
          intro hw
          rw [← hw] at heq
          exact hrest (List.append_right_eq_self.mp heq)
        unfold loaded
        rw [hd, Option.bind_some, hr.torn k w ⟨rest, heq⟩ hne]
        rfl
      unfold Survives
      rw [hpart]
      constructor
      · intro hsurv k' rest' h'
        cases h'
        rcases hsurv with hlast | ⟨k', rest', hs', hk⟩
        · exact .inr (.inl hlast.symm)
        · rw [hs] at hs'
          cases hs'
          exact .inr (.inr hk.symm)
      · intro hall
        rcases (hall k rest rfl).resolve_left hrest with hlast | hk
        · exact .inl hlast.symm
        · exact .inr ⟨k, rest, hs, hk.symm⟩

open Classical in
/-- A format whose texts are the words of a code. -/
noncomputable def codeFormat (text : κ → List β) : TextFormat κ β :=
  ⟨text, fun w => if h : ∃ k, text k = w then some h.choose else none⟩

/-- No word of a prefix code is a part of another one. -/
theorem reads_codeFormat {text : κ → List β} (hp : ∀ k k', text k <+: text k' → k = k')
    (load : κ → δ) : Reads (codeFormat text) load := by
  constructor
  · intro k
    have hex : ∃ k', text k' = text k := ⟨k, rfl⟩
    refine ⟨k, ?_, rfl⟩
    have hchoose : hex.choose = k := by
      apply hp
      rw [hex.choose_spec]
    exact (dif_pos hex).trans (congrArg some hchoose)
  · intro k w hw hne
    apply dif_neg
    rintro ⟨k', rfl⟩
    exact hne (congrArg text (hp k' k hw))

section Code

variable [DecidableEq κ] (special : List (κ × List β)) (u : List β) (z e : β) (code : κ → Nat)

/-- Given words for some contents, and for the others one `u z … z e`. -/
def codeWord (k : κ) : List β :=
  (special.lookup k).getD (u ++ (List.replicate (code k) z ++ [e]))

theorem mem_of_lookup {k : κ} {w : List β} (h : special.lookup k = some w) : (k, w) ∈ special := by
  obtain ⟨l₁, l₂, rfl, -⟩ := List.lookup_eq_some_iff.mp h
  exact List.mem_append_right _ List.mem_cons_self

theorem codeWord_of_mem (hd : (special.map Prod.fst).Nodup) {p : κ × List β}
    (hp : p ∈ special) : codeWord special u z e code p.1 = p.2 := by
  unfold codeWord
  cases hk : special.lookup p.1 with
  | some w =>
    rw [Option.getD_some]
    exact congrArg Prod.snd (List.inj_on_of_nodup_map hd (mem_of_lookup special hk) hp rfl)
  | none => exact absurd (List.lookup_eq_none_iff.mp hk p hp) (by simp)

theorem replicate_isPrefix {z e : β} (hze : z ≠ e) {n m : Nat}
    (h : List.replicate n z ++ [e] <+: List.replicate m z ++ [e]) : n = m := by
  induction n generalizing m with
  | zero =>
    cases m with
    | zero => rfl
    | succ m => exact absurd (List.cons_prefix_cons.mp h).1.symm hze
  | succ n ih =>
    cases m with
    | zero => exact absurd (List.cons_prefix_cons.mp h).1 hze
    | succ m => rw [ih (List.cons_prefix_cons.mp h).2]

theorem codeWord_prefix (hcode : Function.Injective code) (hze : z ≠ e)
    (hfree : ∀ p ∈ special, ∀ q ∈ special, p.2 <+: q.2 → p.1 = q.1)
    (hother : ∀ p ∈ special, u.length ≤ p.2.length ∧ ¬ u <+: p.2) (k k' : κ)
    (h : codeWord special u z e code k <+: codeWord special u z e code k') : k = k' := by
  have hmem : ∀ k w, special.lookup k = some w → (k, w) ∈ special := fun k w hk =>
    mem_of_lookup special hk
  unfold codeWord at h
  cases hk : special.lookup k with
  | some w =>
    rw [hk, Option.getD_some] at h
    cases hk' : special.lookup k' with
    | some w' =>
      rw [hk', Option.getD_some] at h
      exact hfree _ (hmem k w hk) _ (hmem k' w' hk') h
    | none =>
      -- a given word would begin with `u`
      rw [hk', Option.getD_none] at h
      obtain ⟨hlen, hu⟩ := hother _ (hmem k w hk)
      exact absurd (List.prefix_of_prefix_length_le (List.prefix_append _ _) h hlen) hu
  | none =>
    rw [hk, Option.getD_none] at h
    cases hk' : special.lookup k' with
    | some w' =>
      rw [hk', Option.getD_some] at h
      exact absurd ((List.prefix_append _ _).trans h) (hother _ (hmem k' w' hk')).2
    | none =>
      rw [hk', Option.getD_none, List.prefix_append_right_inj] at h
      exact hcode (replicate_isPrefix hze h)

end Code

end Rewrite

end EzRemote

import EzRemote.Download.Progress

/-!
# Pausing for rest mode

The thread looks at `in_rest_mode` once in a pass, before its sweep, and a pass
starts a transfer for every row that it picks up.  So the check keeps later
passes from starting one, and the pass that goes on is left to its rows.
-/

namespace EzRemote.Download

/-- A run with the number of calls of `Get` that started since the pause that
holds now, and how many of them the pass that goes on has started. -/
structure Paused where
  base : State
  gets : Nat
  ofPass : Nat

def startsGet (s : State) (a : Action) : Bool :=
  match s.pc, a with
  | .startSave _, .thread (.save _) => true
  | .starting _ true, .thread .go => true
  | _, _ => false

/-- `Get` is the next thing that the thread does with its row. -/
def Pc.bound : Pc → Bool
  | .starting _ _ | .startSave _ => true
  | _ => false

/-- The thread has left the loop around the pause check and begins a pass. -/
def beginsPass (s s' : State) : Prop := s.pc = .pausing ∧ s'.pc = .sweeping

instance (s s' : State) : Decidable (beginsPass s s') := inferInstanceAs (Decidable (_ ∧ _))

variable (c : Cipher)

/-- A pause sets the counts back, unless one holds already. -/
def pausedStep (s : Paused) (a : Action) : Option Paused :=
  (step c s.base a).map fun t =>
    if a = .pause ∧ s.base.inRestMode = false then { base := t, gets := 0, ofPass := 0 }
    else if startsGet s.base a then { base := t, gets := s.gets + 1, ofPass := s.ofPass + 1 }
    else { base := t, gets := s.gets, ofPass := if beginsPass s.base t then 0 else s.ofPass }

/-- Runs that begin with any history file. -/
def PausedReachable (ok : Paused → Action → Prop) : Paused → Prop :=
  Transition.Reachable
    (fun s => ∃ file n, boot c file n = some s.base ∧ s.gets = 0 ∧ s.ofPass = 0) (pausedStep c) ok

/-- In rest mode a pass that has started a `Get` since the pause acquires no
client for another of its rows. -/
def acquiresNoMore (s : Paused) (a : Action) : Prop :=
  a = .thread (.acquired true) → s.base.inRestMode = true → s.ofPass = 0

instance (s : Paused) (a : Action) : Decidable (acquiresNoMore s a) :=
  inferInstanceAs (Decidable (_ → _ → _))

def AtMostOne (s : Paused) : Prop := s.base.inRestMode = true → s.gets ≤ 1

variable {c}

theorem startsGet_cases {s : State} {a : Action} (h : startsGet s a = true) :
    s.pc.bound = true ∧ ∃ a', a = .thread a' ∧ a' ≠ .acquired true := by
  unfold startsGet at h
  split at h
  · rename_i hpc
    exact ⟨by rw [hpc]; rfl, _, rfl, by simp⟩
  · rename_i hpc
    exact ⟨by rw [hpc]; rfl, _, rfl, by simp⟩
  · cases h

theorem startsGet_other {s : State} {a : Action} (h : ∀ a', a ≠ .thread a') :
    startsGet s a = false := by
  apply Bool.eq_false_iff.mpr
  intro hs
  obtain ⟨-, a', ha, -⟩ := startsGet_cases hs
  exact h a' ha

/-- The thread comes to a call of `Get` by acquiring a client only. -/
theorem bound_thread {s s' : State} {a : ThreadAction} (st : ThreadStep c s s.pc a s')
    (hb : s'.pc.bound = true) :
    s.pc.bound = true ∧ startsGet s (.thread a) = false ∨ a = .acquired true := by
  generalize hpc : s.pc = pc at st
  have hstarts : startsGet s (.thread a) = startsGet { s with pc := pc } (.thread a) := by
    rw [← hpc]
  rw [hstarts]
  cases st with
  | move m =>
    cases m with
    | scan i r hr =>
      have hscan : (scanRow r i).bound = false := by
        unfold scanRow
        split
        · rfl
        · split <;> rfl
      change (scanRow r i).bound = true at hb
      rw [hscan] at hb
      cases hb
    | acquired i resume => exact .inr rfl
    | _ => cases hb
  | sweep pc' h =>
    rcases h with rfl | rfl <;> cases hb
  | save now m => cases m <;> cases hb
  | edit e =>
    cases e with
    | start => exact .inl ⟨rfl, rfl⟩
    | fail resume => cases resume <;> cases hb
    | count r hr =>
      change Pc.bound (if _ then _ else _) = true at hb
      split at hb <;> cases hb
    | _ => cases hb

theorem bound_step {s s' : State} {a : Action} (st : step c s a = some s')
    (hb : s'.pc.bound = true) :
    s.pc.bound = true ∧ startsGet s a = false ∨ a = .thread (.acquired true) := by
  cases a with
  | thread a =>
    rcases bound_thread (thread_cases c rfl st) hb with h | rfl
    · exact .inl h
    · exact .inr rfl
  | handler k a =>
    obtain ⟨hd, -, hst⟩ := Option.bind_eq_some_iff.mp st
    have hpc : s'.pc = s.pc := by cases handler_cases c hst <;> rfl
    exact .inl ⟨hpc ▸ hb, startsGet_other fun _ h => by cases h⟩
  | restart =>
    rw [(boot_eq st).1] at hb
    cases hb
  | pause | resume | stop =>
    cases st
    exact .inl ⟨hb, startsGet_other fun _ h => by cases h⟩

theorem ThreadStep.inRestMode_eq {s s' : State} {pc : Pc} {a : ThreadAction}
    (st : ThreadStep c s pc a s') : s'.inRestMode = s.inRestMode := by
  cases st <;> rfl

theorem inRestMode_step {s s' : State} {a : Action} (st : step c s a = some s')
    (hr : s'.inRestMode = true) : s.inRestMode = true ∨ a = .pause := by
  cases a with
  | thread a =>
    have heq : s'.inRestMode = s.inRestMode := (thread_cases c rfl st).inRestMode_eq
    exact .inl (heq ▸ hr)
  | handler k a =>
    obtain ⟨hd, -, hst⟩ := Option.bind_eq_some_iff.mp st
    have heq : s'.inRestMode = s.inRestMode := by cases handler_cases c hst <;> rfl
    exact .inl (heq ▸ hr)
  | pause => exact .inr rfl
  | resume =>
    cases st
    cases hr
  | stop =>
    cases st
    exact .inl hr
  | restart =>
    obtain ⟨rows, -, rfl⟩ := Option.map_eq_some_iff.mp st
    cases hr

/-- The pause check: in rest mode the thread begins no pass. -/
theorem beginsPass_awake {s s' : State} {a : Action} (st : step c s a = some s')
    (h : beginsPass s s') : s.inRestMode = false := by
  obtain ⟨hpc, hpc'⟩ := h
  cases a with
  | thread a =>
    have hst : ThreadStep c s s.pc a s' := thread_cases c rfl st
    rw [hpc] at hst
    cases hst with
    | move m =>
      cases m with
      | unpaused hrest => exact hrest
      | exitPaused => cases hpc'
    | save now m => cases m
    | edit e => cases e
  | handler k a =>
    obtain ⟨hd, -, hst⟩ := Option.bind_eq_some_iff.mp st
    have heq : s'.pc = s.pc := by cases handler_cases c hst <;> rfl
    rw [heq, hpc] at hpc'
    cases hpc'
  | restart =>
    rw [(boot_eq st).1] at hpc'
    cases hpc'
  | pause | resume | stop =>
    cases st
    rw [hpc] at hpc'
    cases hpc'

/-- In rest mode every `Get` since the pause is one of the pass that goes on, and
the one `Get` has started or may still do so. -/
def Resting (s : Paused) : Prop :=
  s.base.inRestMode = true →
    s.ofPass = s.gets ∧ s.gets ≤ 1 ∧ (s.gets = 1 → s.base.pc.bound = false)

theorem resting_starts {s : Paused} {s' : State} {a : Action} (h : Resting s)
    (hrest : s.base.inRestMode = true) (hs : startsGet s.base a = true)
    (st : step c s.base a = some s') : s.gets = 0 ∧ s'.pc.bound = false := by
  obtain ⟨-, hle, hone⟩ := h hrest
  obtain ⟨hbound, a', rfl, hne⟩ := startsGet_cases hs
  constructor
  · rcases Nat.lt_or_ge s.gets 1 with hlt | hge
    · omega
    · rw [hone (by omega)] at hbound
      cases hbound
  · apply Bool.eq_false_iff.mpr
    intro hb
    rcases bound_step st hb with ⟨-, hfalse⟩ | heq
    · rw [hs] at hfalse
      cases hfalse
    · exact hne (Action.thread.inj heq)

/-- Behind the first `Get` of the pause the thread comes to no other: it gets no
client for a further row. -/
theorem resting_bound {s : Paused} {s' : State} {a : Action} (h : Resting s)
    (hok : acquiresNoMore s a) (hrest : s.base.inRestMode = true) (hgets : s.gets = 1)
    (st : step c s.base a = some s') : s'.pc.bound = false := by
  obtain ⟨hpass, -, hone⟩ := h hrest
  apply Bool.eq_false_iff.mpr
  intro hb
  rcases bound_step st hb with ⟨hbound, -⟩ | rfl
  · rw [hone hgets] at hbound
    cases hbound
  · have hzero : s.ofPass = 0 := hok rfl hrest
    omega

theorem resting_step {s s' : Paused} {a : Action} (h : Resting s) (hok : acquiresNoMore s a)
    (st : pausedStep c s a = some s') : Resting s' := by
  obtain ⟨t, ht, rfl⟩ := Option.map_eq_some_iff.mp st
  split
  · intro _
    exact ⟨rfl, Nat.zero_le 1, fun h0 => by cases h0⟩
  · rename_i hp
    have hrest' : t.inRestMode = true → s.base.inRestMode = true := by
      intro hrest
      rcases inRestMode_step ht hrest with hr | rfl
      · exact hr
      · simpa using fun hr => hp ⟨rfl, hr⟩
    split
    · rename_i hs
      intro hrest
      obtain ⟨hzero, hbound⟩ := resting_starts h (hrest' hrest) hs ht
      obtain ⟨hpass, -, -⟩ := h (hrest' hrest)
      exact ⟨congrArg (· + 1) hpass, by simp only [hzero]; omega, fun _ => hbound⟩
    · intro hrest
      obtain ⟨hpass, hle, -⟩ := h (hrest' hrest)
      have hgoes : ¬ beginsPass s.base t := by
        intro hb
        have hawake := beginsPass_awake ht hb
        rw [hrest' hrest] at hawake
        cases hawake
      refine ⟨?_, hle, fun hone => resting_bound h hok (hrest' hrest) hone ht⟩
      rw [if_neg hgoes]
      exact hpass

theorem resting_reachable {s : Paused} (h : PausedReachable c acquiresNoMore s) : Resting s := by
  apply Transition.Reachable.invariant h
  · rintro s ⟨file, n, hb, -, -⟩ hrest
    obtain ⟨rows, -, heq⟩ := Option.map_eq_some_iff.mp hb
    rw [← heq] at hrest
    cases hrest
  · intro s a s' hs hok st
    exact resting_step hs hok st

theorem acquired_cases {s s' : State} {pc : Pc} (st : ThreadStep c s pc (.acquired true) s') :
    ∃ i resume, s' = { s with pc := .starting i resume } := by
  cases st with
  | move m =>
    cases m with
    | acquired i resume => exact ⟨i, resume, rfl⟩
  | edit e => cases e

theorem pausedStep_thread {s : Paused} {a : ThreadAction} {t : State}
    (st : step c s.base (.thread a) = some t) :
    ∃ s', pausedStep c s (.thread a) = some s' ∧ s'.base = t ∧
      s'.gets = if startsGet s.base (.thread a) then s.gets + 1 else s.gets := by
  unfold pausedStep
  rw [st, Option.map_some, if_neg (by simp)]
  split
  · exact ⟨_, rfl, rfl, rfl⟩
  · exact ⟨_, rfl, rfl, rfl⟩

/-- A client that is acquired in rest mode for another row leads to its `Get`. -/
theorem second_get {s s' : Paused} (hrest : s.base.inRestMode = true) (hgets : s.gets ≠ 0)
    (st : pausedStep c s (.thread (.acquired true)) = some s') :
    ∃ t, Transition.Reachable (· = s') (pausedStep c) Transition.anyStep t ∧ ¬ AtMostOne t := by
  obtain ⟨base, hb, -⟩ := Option.map_eq_some_iff.mp st
  obtain ⟨u, hu, hbase, hcount⟩ := pausedStep_thread hb
  obtain rfl : u = s' := Option.some.inj (hu.symm.trans st)
  obtain ⟨i, resume, rfl⟩ := acquired_cases (thread_cases c rfl hb)
  have hcount' : u.gets = s.gets := by simpa [startsGet] using hcount
  cases resume with
  | true =>
    have hgo : step c u.base (.thread .go) =
        some { u.base.setRow i (fun r => { r with state := .resumed }) with
          pc := .getting i true } := by rw [hbase]; rfl
    obtain ⟨v, hv, hvbase, hvcount⟩ := pausedStep_thread hgo
    refine ⟨v, .next (.start rfl) trivial hv, fun h => ?_⟩
    have hle : v.gets ≤ 1 := h (by rw [hvbase, hbase]; exact hrest)
    have hone : v.gets = u.gets + 1 := by
      rw [hvcount, hbase]
      rfl
    omega
  | false =>
    -- the row is saved as started first
    have hgo : step c u.base (.thread .go) =
        some { u.base.setRow i (fun r => { r with state := .downloading }) with
          pc := .startSave i } := by rw [hbase]; rfl
    obtain ⟨v, hv, hvbase, hvcount⟩ := pausedStep_thread hgo
    have hsave : step c v.base (.thread (.save 0)) =
        some { v.base.save c 0 with pc := .getting i false } := by rw [hvbase]; rfl
    obtain ⟨w, hw, hwbase, hwcount⟩ := pausedStep_thread hsave
    refine ⟨w, .next (.next (.start rfl) trivial hv) trivial hw, fun h => ?_⟩
    have hle : w.gets ≤ 1 := h (by rw [hwbase, hvbase, hbase]; exact hrest)
    have hone : w.gets = u.gets + 1 := by
      rw [hwcount, hvcount, hvbase, hbase]
      rfl
    omega

/-- A pause lets at most one `Get` start in the runs in which the pass that has
started one acquires no client for another row, and a client that is acquired
all the same leads to a second one. -/
theorem pause_takes_effect (c : Cipher) :
    (∀ s, PausedReachable c acquiresNoMore s → AtMostOne s) ∧
    ∀ s s', PausedReachable c acquiresNoMore s →
      pausedStep c s (.thread (.acquired true)) = some s' →
      ¬ acquiresNoMore s (.thread (.acquired true)) →
      ∃ t, Transition.Reachable (· = s') (pausedStep c) Transition.anyStep t ∧ ¬ AtMostOne t := by
  constructor
  · intro s h hrest
    exact (resting_reachable h hrest).2.1
  · intro s s' h st hno
    unfold acquiresNoMore at hno
    push Not at hno
    obtain ⟨-, hrest, hpass⟩ := hno
    have heq : s.ofPass = s.gets := (resting_reachable h hrest).1
    exact second_get hrest (heq ▸ hpass) st

theorem exists_pausedReachable (c : Cipher) (ok : Paused → Action → Prop)
    [∀ s a, Decidable (ok s a)] (n : Nat) (as : List Action) {β : Type} (f : Paused → β) (b : β)
    (hr : ((boot c none n).bind fun base =>
      (Transition.run (pausedStep c) ok ⟨base, 0, 0⟩ as).map f) = some b) :
    ∃ s, PausedReachable c ok s ∧ f s = b := by
  obtain ⟨base, hb, hrun⟩ := Option.bind_eq_some_iff.mp hr
  exact Transition.exists_reachable_of_run ⟨none, n, hb, rfl, rfl⟩ as f b hrun

/-- Two rows are queued, the console goes to rest while the client of the first
is acquired, and its transfer starts. -/
def pausedRun : List Action :=
  [.handler 0 (.downloadUrl smallRequest 1000), .handler 0 .add, .handler 0 (.save 1000),
    .handler 0 (.downloadUrl smallRequest 1001), .handler 0 .add, .handler 0 (.save 1001),
    .thread .go, .thread .go, .thread .go, .thread .go, .pause, .thread (.acquired true),
    .thread .go, .thread (.save 1002)]

theorem pause_takes_effect_first : ∃ s, PausedReachable plainCipher acquiresNoMore s ∧
    (s.base.inRestMode, s.base.pc, s.gets) = (true, .getting 0 false, 1) ∧ AtMostOne s := by
  obtain ⟨s, hs, ho⟩ := exists_pausedReachable plainCipher acquiresNoMore 1 pausedRun
    (fun s => (s.base.inRestMode, s.base.pc, s.gets)) (true, .getting 0 false, 1) (by decide)
  exact ⟨s, hs, ho, (pause_takes_effect plainCipher).1 s hs⟩

/-- The first transfer succeeds and the pass goes on to the second row. -/
theorem pause_takes_effect_second : ¬ ∀ c s, PausedReachable c Transition.anyStep s →
    AtMostOne s := by
  intro hall
  obtain ⟨s, hs, ho⟩ := exists_pausedReachable plainCipher Transition.anyStep 1
    (pausedRun ++ [.thread (.returned 1), .thread .go, .thread (.save 1003), .thread .go,
      .thread (.acquired true), .thread .go, .thread (.save 1004)])
    (fun s => (s.base.inRestMode, s.gets)) (true, 2) (by decide)
  simp only [Prod.mk.injEq] at ho
  have hle := hall plainCipher s hs ho.1
  omega

end EzRemote.Download

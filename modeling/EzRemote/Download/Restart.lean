import EzRemote.Download.Progress

/-!
# What the next process recovers

Every save writes the states that the rows have at that moment, and a load
takes them over.  So a save is recoverable exactly when no retained row is in
`STATE_RESUMED`, which the thread's own saves ensure and a request's save does
not.
-/

namespace EzRemote.Download

/-- The clock reading of a step that runs `SaveBgDownloadData`. -/
def Action.saveTime : Action → Option UInt64
  | .thread (.save now) | .handler _ (.save now) => some now
  | _ => none

/-- A request saves while the thread is resuming a row. -/
def savesMidResume (s : State) (a : Action) : Bool :=
  match a with
  | .handler _ (.save _) => s.pc.resuming.isSome
  | _ => false

/-- The steps that neither forget a row nor save one in `STATE_RESUMED`. -/
def savesClean (s : State) (a : Action) : Prop :=
  strands s a = false ∧ savesMidResume s a = false

instance (s : State) (a : Action) : Decidable (savesClean s a) :=
  inferInstanceAs (Decidable (_ ∧ _))

variable {c : Cipher}

/-- No row that the next process would load is in `STATE_RESUMED`. -/
def FileClean (c : Cipher) (s : State) : Prop :=
  ∀ r ∈ loadedRows c s, r.state ≠ .resumed

theorem loadedRows_save {s s' : State} {now : UInt64}
    (hf : s'.file = some (saveBgDownloadData c now s.bgDownloadList)) :
    loadedRows c s' = (s.bgDownloadList.filter (retained now)).map (reloaded c) := by
  unfold loadedRows
  rw [hf, Option.map_some, load_save]
  rfl

theorem fileClean_save {s s' : State} {now : UInt64}
    (hf : s'.file = some (saveBgDownloadData c now s.bgDownloadList))
    (hrows : ∀ r ∈ s.bgDownloadList, r.state ≠ .resumed) : FileClean c s' := by
  intro r hr
  rw [loadedRows_save hf] at hr
  obtain ⟨r₀, hr₀, rfl⟩ := List.mem_map.mp hr
  exact hrows r₀ (List.mem_of_mem_filter hr₀)

theorem fileClean_of_file {s s' : State} (h : FileClean c s) (hf : s'.file = s.file) :
    FileClean c s' := by
  unfold FileClean loadedRows at h ⊢
  rwa [hf]

/-- The thread writes the file only where it saves, and resumes nothing there. -/
theorem ThreadStep.file_eq {s s' : State} {pc : Pc} {a : ThreadAction}
    (st : ThreadStep c s pc a s') : (s'.file = s.file ∧ ∀ now, a ≠ .save now) ∨
      ∃ now, a = .save now ∧ pc.resuming = none ∧
        s'.file = some (saveBgDownloadData c now s.bgDownloadList) := by
  cases st with
  | move m =>
    refine .inl ⟨rfl, ?_⟩
    rintro now rfl
    cases m
  | sweep pc' hpc => exact .inl ⟨rfl, by rintro now ⟨⟩⟩
  | save now m => exact .inr ⟨now, rfl, by cases m <;> rfl, rfl⟩
  | edit e =>
    refine .inl ⟨rfl, ?_⟩
    rintro now rfl
    cases e

/-- A clean save finds no row in `STATE_RESUMED`. -/
theorem not_resumed_of_save {s s' : State} {a : Action} {now : UInt64} (h : Steady s)
    (hok : savesClean s a) (st : step c s a = some s') (hn : a.saveTime = some now) :
    ∀ r ∈ s.bgDownloadList, r.state ≠ .resumed := by
  apply h.noStray.not_resumed
  cases a with
  | thread a =>
    rcases (thread_cases c rfl st).file_eq with ⟨-, hne⟩ | ⟨_, -, hpc, -⟩
    · cases a with
      | save now => exact absurd rfl (hne now)
      | _ => cases hn
    · exact hpc
  | handler k a =>
    cases a with
    | save now =>
      have hmid := hok.2
      simp only [savesMidResume] at hmid
      exact Option.isNone_iff_eq_none.mp (by simpa using hmid)
    | _ => cases hn
  | _ => cases hn

theorem file_step {s s' : State} {a : Action} (st : step c s a = some s') :
    s'.file = s.file ∨ ∃ now, a.saveTime = some now ∧
      s'.file = some (saveBgDownloadData c now s.bgDownloadList) := by
  cases a with
  | thread a =>
    rcases (thread_cases c rfl st).file_eq with ⟨hf, -⟩ | ⟨now, rfl, -, hf⟩
    · exact .inl hf
    · exact .inr ⟨now, rfl, hf⟩
  | handler k a =>
    obtain ⟨hd, -, hst⟩ := Option.bind_eq_some_iff.mp st
    have hh := handler_cases c hst
    cases hh with
    | save now => exact .inr ⟨now, rfl, rfl⟩
    | _ => exact .inl rfl
  | restart => exact .inl (boot_eq st).2.1
  | pause | resume | stop =>
    cases st
    exact .inl rfl

theorem file_of_saveTime {s s' : State} {a : Action} {now : UInt64} (hn : a.saveTime = some now)
    (st : step c s a = some s') : s'.file = some (saveBgDownloadData c now s.bgDownloadList) := by
  cases a with
  | thread a =>
    cases a with
    | save now' =>
      cases hn
      rcases (thread_cases c rfl st).file_eq with ⟨-, hne⟩ | ⟨_, heq, -, hf⟩
      · exact absurd rfl (hne now)
      · cases heq
        exact hf
    | _ => cases hn
  | handler k a =>
    cases a with
    | save now' =>
      cases hn
      obtain ⟨hd, -, hst⟩ := Option.bind_eq_some_iff.mp st
      cases hd with
      | saving =>
        cases hst
        rfl
      | _ => cases hst
    | _ => cases hn
  | _ => cases hn

/-- Every file that a process finds was written by a save. -/
theorem file_saved {s : State} (h : Reachable c Transition.anyStep s) :
    s.file = none ∨ ∃ now rows, s.file = some (saveBgDownloadData c now rows) := by
  apply Transition.Reachable.invariant h
  · rintro s ⟨n, hn⟩
    exact .inl (boot_eq hn).2.1
  · intro s a t hs _ st
    rcases file_step st with hf | ⟨now, -, hf⟩
    · rwa [hf]
    · exact .inr ⟨now, _, hf⟩

theorem loadedRows_plain {s : State} (h : Reachable c Transition.anyStep s) :
    ∀ r ∈ loadedRows c s, r.removeRequested = false := by
  intro r hr
  rcases file_saved h with hf | ⟨now, rows, hf⟩
  · unfold loadedRows at hr
    rw [hf] at hr
    cases hr
  · unfold loadedRows at hr
    rw [hf, Option.map_some, load_save] at hr
    obtain ⟨r₀, -, rfl⟩ := List.mem_map.mp hr
    rfl

theorem steady_clean {s : State} (h : Reachable c savesClean s) : Steady s ∧ FileClean c s := by
  apply @Transition.Reachable.invariant _ _ _ _ _ (fun s => Steady s ∧ FileClean c s) s h
  · rintro s ⟨n, hn⟩
    have hfile : s.file = none := (boot_eq hn).2.1
    refine ⟨steady_boot hn, ?_⟩
    intro r hr
    unfold loadedRows at hr
    rw [hfile] at hr
    cases hr
  · rintro s a t ⟨hs, hc⟩ hok st
    have hl : loadsResumed c s a = false := by
      cases a with
      | restart =>
        rw [loadsResumed, List.any_eq_false]
        intro r hr
        simpa using hc r hr
      | _ => rfl
    refine ⟨steady_step hs hok.1 hl st, ?_⟩
    rcases file_step st with hf | ⟨now, hn, hf⟩
    · exact fileClean_of_file hc hf
    · exact fileClean_save hf (not_resumed_of_save hs hok st hn)

/-- A save is recoverable exactly when no retained row is being resumed, and so
is every save of a run in which no request saves during a resumed transfer and
no resumed transfer fails in rest mode. -/
theorem save_recovery (c : Cipher) :
    (∀ now rows, Recoverable c now rows ↔
      ∀ r ∈ rows, retained now r = true → r.state ≠ .resumed) ∧
    ∀ s a s' now, Reachable c savesClean s → savesClean s a → step c s a = some s' →
      a.saveTime = some now → Recoverable c now s.bgDownloadList := by
  refine ⟨recoverable_iff c, ?_⟩
  intro s a s' now h hok st hn
  rw [recoverable_iff]
  intro r hr _
  exact not_resumed_of_save (steady_clean h).1 hok st hn r hr

/-- A second request saves after the resumed attempt of the first row failed. -/
theorem save_recovery_awake : ∃ s, Reachable plainCipher savesClean s ∧
    (s.handlers = [.saving] ∧ s.bgDownloadList.map (fun r => r.state) = [.failed, .pending]) ∧
    Recoverable plainCipher 2000 s.bgDownloadList := by
  obtain ⟨s, hs, ho⟩ := exists_reachable plainCipher savesClean 1
    (resumeRun ++ [.thread (.returned 0), .thread .go, .thread .go, .thread .go,
      .handler 0 (.downloadUrl smallRequest 2000), .handler 0 .add])
    (fun s => (s.handlers, s.bgDownloadList.map fun r => r.state, s.pc))
    ([.saving], [.failed, .pending], .sleeping) (by decide)
  simp only [Prod.mk.injEq] at ho
  have hmid : savesClean s (.handler 0 (.save 2000)) := by
    simp [savesClean, strands, savesMidResume, ho.2.2, Pc.resuming]
  exact ⟨s, hs, ⟨ho.1, ho.2.1⟩, (save_recovery plainCipher).2 s (.handler 0 (.save 2000)) _ 2000
    hs hmid (by simp only [step, ho.1]; rfl) rfl⟩

/-- A second request saves while the first row is being resumed. -/
theorem save_recovery_midResume : ¬ ∀ c s a s' now, Reachable c Transition.anyStep s →
    step c s a = some s' → a.saveTime = some now → Recoverable c now s.bgDownloadList := by
  intro hall
  obtain ⟨s, hs, ho⟩ := exists_reachable plainCipher Transition.anyStep 1
    (resumeRun ++ [.handler 0 (.downloadUrl smallRequest 2000), .handler 0 .add])
    (fun s => (s.handlers, s.bgDownloadList.map fun r => (r.state, r.timestamp)))
    ([.saving], [(.resumed, 1000), (.pending, 2000)]) (by decide)
  simp only [Prod.mk.injEq] at ho
  have hrec := hall plainCipher s (.handler 0 (.save 2000)) _ 2000 hs
    (by simp only [step, ho.1]; rfl) rfl
  rw [recoverable_iff] at hrec
  obtain ⟨r, hr, hres⟩ := List.exists_of_mem_map (show (DownloadState.resumed, (1000 : UInt64)) ∈
    s.bgDownloadList.map fun r => (r.state, r.timestamp) by rw [ho.2]; exact List.mem_cons_self)
  simp only [Prod.mk.injEq] at hres
  exact hrec r hr (by rw [retained, hres.2]; decide) hres.1

end EzRemote.Download

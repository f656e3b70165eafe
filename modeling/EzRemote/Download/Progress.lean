import EzRemote.Download.Steps

/-!
# No download is left behind

A row is in `STATE_RESUMED` only while the thread is inside the resume branch
for it, unless the transfer fails in rest mode: then the branch leaves the row
in that state, which no pass picks up and no request clears.  A save during the
branch writes that state for the next process to load.
-/

namespace EzRemote.Download

/-- The row that the thread is resuming. -/
def Pc.resuming : Pc → Option Nat
  | .getting i true | .failing i true | .markFailed i true | .completing i true => some i
  | _ => none

/-- After the row loop of one pass and before that of the next. -/
def Pc.betweenPasses : Pc → Bool
  | .sleeping | .checkStop | .pausing | .sweeping | .sweepSave | .exited => true
  | _ => false

/-- A row in `STATE_RESUMED` is the one being resumed. -/
def NoStray (s : State) : Prop :=
  ∀ j r, s.bgDownloadList[j]? = some r → r.state = .resumed → s.pc.resuming = some j

theorem NoStray.not_resumed {s : State} (h : NoStray s) (hpc : s.pc.resuming = none) :
    ∀ r ∈ s.bgDownloadList, r.state ≠ .resumed := by
  intro r hr hs
  obtain ⟨j, hj⟩ := List.mem_iff_getElem?.mp hr
  rw [h j r hj hs] at hpc
  cases hpc

theorem noStray_of_forall {s : State} (h : ∀ r ∈ s.bgDownloadList, r.state ≠ .resumed) :
    NoStray s :=
  fun _ r hj hs => absurd hs (h r (List.mem_of_getElem? hj))

/-- The exit of the resume branch that forgets the row: a failure in rest mode. -/
def strands (s : State) (a : Action) : Bool :=
  match s.pc, a with
  | .failing _ true, .thread .go => s.inRestMode
  | _, _ => false

theorem noStray_setRow {s : State} {i : Nat} {f : BgDownloadData → BgDownloadData} {pc' : Pc}
    (h : NoStray s)
    (hf : ∀ r, s.bgDownloadList[i]? = some r → (f r).state = .resumed → pc'.resuming = some i)
    (hpc : ∀ j, j ≠ i → s.pc.resuming = some j → pc'.resuming = some j) :
    NoStray { s.setRow i f with pc := pc' } := by
  intro j r hj hs
  change (s.bgDownloadList.modify i f)[j]? = some r at hj
  rw [List.getElem?_modify] at hj
  obtain ⟨r₀, hr₀, rfl⟩ := Option.map_eq_some_iff.mp hj
  by_cases hij : i = j
  · subst hij
    rw [if_pos rfl] at hs
    exact hf r₀ hr₀ hs
  · simp only [hij, if_false] at hs
    exact hpc j (Ne.symm hij) (h j r₀ hr₀ hs)

variable {c : Cipher}

theorem noStray_thread {s s' : State} {a : ThreadAction} (h : NoStray s)
    (hok : strands s (.thread a) = false) (st : ThreadStep c s s.pc a s') : NoStray s' := by
  generalize hpc : s.pc = pc at st
  cases st with
  | @move _ pc' _ m =>
    have hstay : s.pc.resuming = pc'.resuming := by
      rw [hpc]
      cases m with
      | scan i r hr =>
        unfold scanRow
        split
        · rfl
        · split <;> rfl
      -- a resumed row that fails in rest mode keeps its state: the step that is barred
      | resting i resume hrest =>
        cases resume
        · rfl
        · simp [strands, hpc, hrest] at hok
      | failed i resume => cases resume <;> rfl
      | done i resume ret hr => cases resume <;> rfl
      | awake i resume hrest => cases resume <;> rfl
      | _ => rfl
    intro j r hj hs
    exact hstay ▸ h j r hj hs
  | sweep pc' _ =>
    apply noStray_of_forall
    intro r hr
    exact h.not_resumed (by rw [hpc]; rfl) r (List.mem_of_mem_filter hr)
  | save now m =>
    apply noStray_of_forall
    exact h.not_resumed (by rw [hpc]; cases m <;> rfl)
  | edit e =>
    apply noStray_setRow h
    · intro r hr hs
      cases e with
      | resume => rfl
      | progress resume n => exact hpc ▸ h _ r hr hs
      | count r' hr' =>
        have := h _ r hr hs
        rw [hpc] at this
        cases this
      | _ => cases hs
    · intro j hij hj
      rw [hpc] at hj
      cases e with
      | progress resume n => exact hj
      | fail resume =>
        cases resume
        · cases hj
        · exact absurd (Option.some.inj hj).symm hij
      | complete resume =>
        cases resume
        · cases hj
        · exact absurd (Option.some.inj hj).symm hij
      | _ => cases hj

theorem noStray_handler {s s' : State} {k : Nat} {hd : Handler} {a : HandlerAction}
    (h : NoStray s) (hadd : ∀ row, hd = .adding row → row.state = .pending)
    (st : HandlerStep c s k hd a s') : NoStray s' := by
  cases st with
  | add row =>
    intro j r hj hs
    change (s.bgDownloadList ++ [row])[j]? = some r at hj
    rw [List.getElem?_append] at hj
    split at hj
    · exact h j r hj hs
    · have hr := List.mem_singleton.mp (List.mem_of_getElem? hj)
      rw [hr, hadd row rfl] at hs
      cases hs
  | flag i r hr hf =>
    have hset : NoStray { s.setRow i (fun r => { r with removeRequested := true }) with
        pc := s.pc } :=
      noStray_setRow h (fun r hr hs => h i r hr hs) (fun _ _ hj => hj)
    exact hset
  | _ => exact h

/-- The rows that requests are about to add are new. -/
def AddsPending (s : State) : Prop :=
  ∀ (k : Nat) (row : BgDownloadData), s.handlers[k]? = some (.adding row) →
    row.state = .pending

theorem addsPending_setHandler {s s' : State} {k : Nat} {h' : Handler} (ha : AddsPending s)
    (hs : s'.handlers = s.handlers.set k h') (hnew : ∀ row, h' = .adding row → row.state = .pending) :
    AddsPending s' := by
  intro j row hj
  rw [hs, List.getElem?_set] at hj
  split at hj
  · split at hj
    · exact hnew row (Option.some.inj hj)
    · cases hj
  · exact ha j row hj

theorem addsPending_handler {s s' : State} {k : Nat} {hd : Handler} {a : HandlerAction}
    (ha : AddsPending s) (st : HandlerStep c s k hd a s') : AddsPending s' := by
  cases st with
  | move h' hrow => exact addsPending_setHandler ha rfl (fun row hr => (hrow row hr).1)
  | refuse req now => exact ha
  | _ => exact addsPending_setHandler ha rfl (by rintro _ ⟨⟩)

theorem ThreadStep.handlers_eq {s s' : State} {pc : Pc} {a : ThreadAction}
    (st : ThreadStep c s pc a s') : s'.handlers = s.handlers := by
  cases st <;> rfl

/-- The rows that the next process would load. -/
def loadedRows (c : Cipher) (s : State) : List BgDownloadData :=
  ((s.file.map (loadBgDownloadData c)).getD (some [])).getD []

theorem boot_eq {file : Option (List JsonObject)} {n : Nat} {s : State}
    (h : boot c file n = some s) : s.pc = .checkStop ∧ s.file = file ∧
      s.handlers = List.replicate n .idle ∧ s.bgDownloadList = loadedRows c s := by
  unfold boot at h
  obtain ⟨rows, hrows, rfl⟩ := Option.map_eq_some_iff.mp h
  simp [loadedRows, hrows]

theorem addsPending_boot {file : Option (List JsonObject)} {n : Nat} {s : State}
    (h : boot c file n = some s) : AddsPending s := by
  intro k row hk
  rw [(boot_eq h).2.2.1] at hk
  cases List.eq_of_mem_replicate (List.mem_of_getElem? hk)

/-- The process ends and the next one loads a row in `STATE_RESUMED`. -/
def loadsResumed (c : Cipher) (s : State) (a : Action) : Bool :=
  match a with
  | .restart => (loadedRows c s).any fun r => r.state = .resumed
  | _ => false

/-- What every step keeps as long as no row is forgotten in `STATE_RESUMED`. -/
structure Steady (s : State) : Prop where
  noStray : NoStray s
  addsPending : AddsPending s

theorem steady_step {s s' : State} {a : Action} (h : Steady s) (hs : strands s a = false)
    (hl : loadsResumed c s a = false) (st : step c s a = some s') : Steady s' := by
  cases a with
  | thread a =>
    have ht := thread_cases c rfl st
    constructor
    · exact noStray_thread h.noStray hs ht
    · intro k row hk
      exact h.addsPending k row (ht.handlers_eq ▸ hk)
  | handler k a =>
    obtain ⟨hd, hk, hst⟩ := Option.bind_eq_some_iff.mp st
    have hh := handler_cases c hst
    constructor
    · exact noStray_handler h.noStray (fun row hr => h.addsPending k row (hr ▸ hk)) hh
    · exact addsPending_handler h.addsPending hh
  | restart =>
    obtain ⟨-, hfile, -, hrows⟩ := boot_eq st
    constructor
    · apply noStray_of_forall
      intro r hr hres
      have hload : loadedRows c s' = loadedRows c s := by unfold loadedRows; rw [hfile]
      rw [hrows, hload] at hr
      have : loadsResumed c s .restart = true :=
        List.any_eq_true.mpr ⟨r, hr, decide_eq_true hres⟩
      rw [this] at hl
      cases hl
    · exact addsPending_boot st
  | pause | resume | stop =>
    cases st
    exact ⟨h.noStray, h.addsPending⟩

theorem steady_boot {n : Nat} {s : State} (h : boot c none n = some s) : Steady s := by
  obtain ⟨-, hfile, -, hrows⟩ := boot_eq h
  have hnone : loadedRows c s = [] := by unfold loadedRows; rw [hfile]; rfl
  constructor
  · apply noStray_of_forall
    simp [hrows, hnone]
  · exact addsPending_boot h

/-- The steps that forget no row: no resumed transfer fails in rest mode, and no
process starts from a file that holds a row in `STATE_RESUMED`. -/
def forgetsNone (c : Cipher) (s : State) (a : Action) : Prop :=
  strands s a = false ∧ loadsResumed c s a = false

instance (s : State) (a : Action) : Decidable (forgetsNone c s a) :=
  inferInstanceAs (Decidable (_ ∧ _))

/-- Between two passes every row is finished or will be picked up again. -/
theorem no_row_stranded {s : State} (h : Reachable c (forgetsNone c) s)
    (hpc : s.pc.betweenPasses = true) : ∀ r ∈ s.bgDownloadList, r.Finished ∨ r.Eligible := by
  have hsteady : Steady s := by
    apply Transition.Reachable.invariant h
    · rintro s ⟨n, hn⟩
      exact steady_boot hn
    · intro s a t hs hok st
      exact steady_step hs hok.1 hok.2 st
  intro r hr
  rw [r.finished_or_eligible_iff]
  apply hsteady.noStray.not_resumed ?_ r hr
  cases hp : s.pc <;> rw [hp] at hpc <;> first | rfl | cases hpc

def plainCipher : Cipher := ⟨some, some⟩

def smallRequest : DownloadRequest :=
  { hostInfo := { type := 2, url := bytes "nas", httpServerType := [], username := [],
                  password := [] }
    srcPath := bytes "/a", destPath := bytes "/b", size := 3, id := 1 }

/-- A row is queued, its first attempt fails, and a pass resumes it. -/
def resumeRun : List Action :=
  [.handler 0 (.downloadUrl smallRequest 1000), .handler 0 .add, .handler 0 (.save 1000),
    .thread .go, .thread .go, .thread .go, .thread .go, .thread (.acquired true), .thread .go,
    .thread (.save 1001), .thread (.returned 0), .thread .go, .thread .go, .thread .go,
    .thread .go, .thread .go, .thread .go, .thread .go, .thread (.acquired true), .thread .go]

/-- The resumed transfer fails while the console is awake: the row is retried. -/
theorem no_row_stranded_awake : ∃ s, Reachable plainCipher (forgetsNone plainCipher) s ∧
    (s.pc = .sleeping ∧ s.bgDownloadList.map (fun r => (r.state, r.failedAttempts)) =
      [(.failed, 1)]) ∧ ∀ r ∈ s.bgDownloadList, r.Finished ∨ r.Eligible := by
  obtain ⟨s, hs, ho⟩ := exists_reachable plainCipher (forgetsNone plainCipher) 1
    (resumeRun ++ [.thread (.returned 0), .thread .go, .thread .go, .thread .go])
    (fun s => (s.pc, s.bgDownloadList.map fun r => (r.state, r.failedAttempts)))
    (.sleeping, [(.failed, 1)]) (by decide)
  simp only [Prod.mk.injEq] at ho
  exact ⟨s, hs, ho, no_row_stranded hs (by rw [ho.1]; rfl)⟩

/-- The resumed transfer fails in rest mode: the row stays in `STATE_RESUMED`. -/
theorem no_row_stranded_resting : ¬ ∀ c s, Reachable c Transition.anyStep s →
    s.pc.betweenPasses = true → ∀ r ∈ s.bgDownloadList, r.Finished ∨ r.Eligible := by
  intro hall
  obtain ⟨s, hs, ho⟩ := exists_reachable plainCipher Transition.anyStep 1
    (resumeRun ++ [.pause, .thread (.returned 0), .thread .go])
    (fun s => (s.pc, s.bgDownloadList.map fun r => r.state)) (.sleeping, [.resumed]) (by decide)
  simp only [Prod.mk.injEq] at ho
  have hrow := hall plainCipher s hs (by rw [ho.1]; rfl)
  obtain ⟨r, hr, hres⟩ := List.exists_of_mem_map (show DownloadState.resumed ∈
    s.bgDownloadList.map fun r => r.state by rw [ho.2]; exact List.mem_singleton_self _)
  exact (r.finished_or_eligible_iff.mp (hrow r hr)) hres

end EzRemote.Download

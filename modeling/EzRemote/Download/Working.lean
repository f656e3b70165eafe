import EzRemote.Download.Restart

/-!
# The row that the thread works on

Between the scan of a row and the end of its branch the thread relies on the
row being unfinished: no other step changes a state or an attempt count, and
rows do not move while the thread is away from its sweep.  So the thread never
edits a finished row.
-/

namespace EzRemote.Download

/-- The row that the thread has picked up. -/
def Pc.working : Pc → Option Nat
  | .acquiring i _ | .starting i _ | .startSave i | .getting i _ | .failing i _ | .markFailed i _
  | .countAttempt i | .completing i _ => some i
  | _ => none

/-- What the thread has made of that row so far. -/
def Pc.Holds (r : BgDownloadData) : Pc → Prop
  | .acquiring _ false | .starting _ false => r.state = .pending
  | .acquiring _ true | .starting _ true => r.Interrupted ∧ r.failedAttempts < 5
  | .startSave _ | .getting _ false | .failing _ false | .markFailed _ false
  | .completing _ false => r.state = .downloading
  | .getting _ true | .failing _ true | .markFailed _ true | .completing _ true =>
    r.state = .resumed ∧ r.failedAttempts < 5
  | .countAttempt _ => r.state = .failed ∧ r.failedAttempts < 5
  | _ => True

/-- Five attempts are counted on failed rows only. -/
def BgDownloadData.Young (r : BgDownloadData) : Prop :=
  r.state ≠ .failed → r.state ≠ .success → r.failedAttempts < 5

theorem reloaded_young (c : Cipher) {r : BgDownloadData} (h : r.Young) : (reloaded c r).Young := by
  intro hf hs
  have hlt : r.failedAttempts < 5 := h hf hs
  show clampInt32 r.failedAttempts < 5
  unfold clampInt32
  omega

variable {c : Cipher}

/-- What every step of every process keeps. -/
structure Sane (c : Cipher) (s : State) : Prop where
  working : ∀ i, s.pc.working = some i → ∃ r, s.bgDownloadList[i]? = some r ∧ s.pc.Holds r
  young : ∀ r ∈ s.bgDownloadList, r.Young
  fileYoung : ∀ r ∈ loadedRows c s, r.Young
  addsYoung : ∀ (k : Nat) row, s.handlers[k]? = some (.adding row) → row.Young

/-- The thread edits a row only while the row is unfinished. -/
theorem Sane.edit_unfinished {s : State} (h : Sane c s) {i : Nat} {a : ThreadAction}
    {f : BgDownloadData → BgDownloadData} {pc' : Pc} (e : Edits s i s.pc a f pc')
    {r : BgDownloadData} (hr : s.bgDownloadList[i]? = some r) : ¬ r.Finished := by
  have hwork := h.working i
  generalize hpc : s.pc = pc at e hwork
  have hholds : pc.working = some i → pc.Holds r := by
    intro hw
    obtain ⟨r', hr', hh⟩ := hwork hw
    rw [hr] at hr'
    cases hr'
    exact hh
  unfold BgDownloadData.Finished
  cases e with
  | start =>
    have hstate : r.state = .pending := hholds rfl
    simp [hstate]
  | resume =>
    have hrow : r.Interrupted ∧ r.failedAttempts < 5 := hholds rfl
    rcases hrow.1 with hs | ⟨hs, -⟩
    · simp [hs]
    · simp only [hs, true_and, reduceCtorEq, false_or]
      omega
  | progress resume n =>
    cases resume with
    | false =>
      have hstate : r.state = .downloading := hholds rfl
      simp [hstate]
    | true =>
      have hrow : r.state = .resumed ∧ r.failedAttempts < 5 := hholds rfl
      simp [hrow.1]
  | fail resume =>
    cases resume with
    | false =>
      have hstate : r.state = .downloading := hholds rfl
      simp [hstate]
    | true =>
      have hrow : r.state = .resumed ∧ r.failedAttempts < 5 := hholds rfl
      simp [hrow.1]
  | count =>
    have hrow : r.state = .failed ∧ r.failedAttempts < 5 := hholds rfl
    simp only [hrow.1, true_and, reduceCtorEq, false_or]
    omega
  | complete resume =>
    cases resume with
    | false =>
      have hstate : r.state = .downloading := hholds rfl
      simp [hstate]
    | true =>
      have hrow : r.state = .resumed ∧ r.failedAttempts < 5 := hholds rfl
      simp [hrow.1]

theorem holds_scanRow {r : BgDownloadData} (hy : r.Young) (i : Nat) :
    (scanRow r i).working = none ∨
      (scanRow r i).working = some i ∧ (scanRow r i).Holds r := by
  unfold scanRow
  by_cases hp : r.state = .pending
  · rw [if_pos hp]
    exact .inr ⟨rfl, hp⟩
  · rw [if_neg hp]
    by_cases hi : r.Interrupted
    · rw [if_pos hi]
      refine .inr ⟨rfl, hi, ?_⟩
      rcases hi with hs | ⟨-, hlt⟩
      · exact hy (by simp [hs]) (by simp [hs])
      · exact hlt
    · rw [if_neg hi]
      exact .inl rfl

theorem Edits.holds {s : State} {i : Nat} {pc : Pc} {a : ThreadAction}
    {f : BgDownloadData → BgDownloadData} {pc' : Pc} (e : Edits s i pc a f pc')
    {r : BgDownloadData} (h : pc.Holds r) : pc'.Holds (f r) := by
  cases e with
  | start => exact rfl
  | resume => exact ⟨rfl, h.2⟩
  | progress resume n => cases resume <;> exact h
  | fail resume =>
    cases resume with
    | false => trivial
    | true => exact ⟨rfl, h.2⟩
  | count r' hr' =>
    split <;> trivial
  | complete resume => cases resume <;> trivial

theorem Edits.young {s : State} {i : Nat} {pc : Pc} {a : ThreadAction}
    {f : BgDownloadData → BgDownloadData} {pc' : Pc} (e : Edits s i pc a f pc')
    {r : BgDownloadData} (hy : r.Young) (h : pc.Holds r) : (f r).Young := by
  cases e with
  | start =>
    have hstate : r.state = .pending := h
    intro _ _
    exact hy (by simp [hstate]) (by simp [hstate])
  | resume => exact fun _ _ => h.2
  | progress resume n => exact hy
  | fail resume => exact fun hf => absurd rfl hf
  | count r' hr' => exact fun hf => absurd h.1 hf
  | complete resume => exact fun _ hs => absurd rfl hs

theorem Edits.removeRequested_eq {s : State} {i : Nat} {pc : Pc} {a : ThreadAction}
    {f : BgDownloadData → BgDownloadData} {pc' : Pc} (e : Edits s i pc a f pc')
    (r : BgDownloadData) : (f r).removeRequested = r.removeRequested := by
  cases e <;> rfl

theorem Edits.working_eq {s : State} {i : Nat} {pc : Pc} {a : ThreadAction}
    {f : BgDownloadData → BgDownloadData} {pc' : Pc} (e : Edits s i pc a f pc') :
    pc.working = some i ∧ (pc'.working = none ∨ pc'.working = some i) := by
  refine ⟨by cases e <;> rfl, ?_⟩
  cases e with
  | fail resume =>
    cases resume
    · exact .inl rfl
    · exact .inr rfl
  | count => exact .inl (by split <;> rfl)
  | complete => exact .inl rfl
  | _ => exact .inr rfl

theorem working_of_none {s : State} (h : s.pc.working = none) (i : Nat)
    (hi : s.pc.working = some i) : ∃ r, s.bgDownloadList[i]? = some r ∧ s.pc.Holds r := by
  rw [h] at hi
  cases hi

theorem fileYoung_save {s s' : State} {now : UInt64} (h : Sane c s)
    (hf : s'.file = some (saveBgDownloadData c now s.bgDownloadList)) :
    ∀ r ∈ loadedRows c s', r.Young := by
  intro r hr
  rw [loadedRows_save hf] at hr
  obtain ⟨r₀, hr₀, rfl⟩ := List.mem_map.mp hr
  exact reloaded_young c (h.young r₀ (List.mem_of_mem_filter hr₀))

theorem modify_self {l : List BgDownloadData} {i : Nat} {r : BgDownloadData}
    (h : l[i]? = some r) (f : BgDownloadData → BgDownloadData) :
    (l.modify i f)[i]? = some (f r) := by
  rw [List.getElem?_modify_eq, h]
  rfl

theorem modify_ne (l : List BgDownloadData) {i j : Nat} (h : i ≠ j)
    (f : BgDownloadData → BgDownloadData) : (l.modify i f)[j]? = l[j]? := by
  rw [List.getElem?_modify]
  simp [h]

theorem sane_thread {s s' : State} {a : ThreadAction} (h : Sane c s)
    (st : ThreadStep c s s.pc a s') : Sane c s' := by
  have hwork := h.working
  generalize hpc : s.pc = pc at st hwork
  cases st with
  | @move _ pc' _ m =>
    refine ⟨?_, h.young, h.fileYoung, h.addsYoung⟩
    intro i hi
    change pc'.working = some i at hi
    show ∃ r, s.bgDownloadList[i]? = some r ∧ pc'.Holds r
    cases m with
    | scan j r hr =>
      rcases holds_scanRow (h.young r (List.mem_of_getElem? hr)) j with hnone | ⟨hsome, hh⟩
      · rw [hnone] at hi
        cases hi
      · rw [hsome] at hi
        cases hi
        exact ⟨r, hr, hh⟩
    | acquired j resume => cases resume <;> exact hwork i hi
    | failed j resume => cases resume <;> exact hwork i hi
    | done j resume ret hret => cases resume <;> exact hwork i hi
    | awake j resume hrest => cases resume <;> exact hwork i hi
    | _ => cases hi
  | sweep pc' hpc' =>
    refine ⟨?_, ?_, h.fileYoung, h.addsYoung⟩
    · apply working_of_none
      rcases hpc' with rfl | rfl <;> rfl
    · intro r hr
      exact h.young r (List.mem_of_mem_filter hr)
  | @save _ pc' now m =>
    refine ⟨?_, h.young, fileYoung_save h rfl, h.addsYoung⟩
    intro i hi
    change pc'.working = some i at hi
    cases m with
    | started j => exact hwork i hi
    | _ => cases hi
  | @edit _ pc' _ j f e =>
    -- a step edits the row the thread works on, and no other
    obtain ⟨r, hr, hh⟩ := hwork j e.working_eq.1
    have hat : (s.bgDownloadList.modify j f)[j]? = some (f r) := modify_self hr f
    refine ⟨?_, ?_, h.fileYoung, h.addsYoung⟩
    · intro i hi
      change pc'.working = some i at hi
      rcases e.working_eq.2 with hnone | hsome
      · rw [hnone] at hi
        cases hi
      · rw [hsome] at hi
        cases hi
        exact ⟨f r, hat, e.holds hh⟩
    · intro r' hr'
      obtain ⟨i, hi⟩ := List.mem_iff_getElem?.mp hr'
      change (s.bgDownloadList.modify j f)[i]? = some r' at hi
      by_cases hij : j = i
      · subst hij
        rw [hat] at hi
        cases hi
        exact e.young (h.young r (List.mem_of_getElem? hr)) hh
      · rw [modify_ne _ hij] at hi
        exact h.young r' (List.mem_of_getElem? hi)

theorem addsYoung_set {handlers : List Handler} {k : Nat} {hd : Handler}
    (h : ∀ (j : Nat) row, handlers[j]? = some (.adding row) → row.Young)
    (hnew : ∀ row, hd = .adding row → row.Young) (j : Nat) (row : BgDownloadData)
    (hj : (handlers.set k hd)[j]? = some (.adding row)) : row.Young := by
  rw [List.getElem?_set] at hj
  split at hj
  · split at hj
    · exact hnew row (Option.some.inj hj)
    · cases hj
  · exact h j row hj

theorem sane_handler {s s' : State} {k : Nat} {hd : Handler} {a : HandlerAction} (h : Sane c s)
    (hk : s.handlers[k]? = some hd) (st : HandlerStep c s k hd a s') : Sane c s' := by
  cases st with
  | move h' hrow =>
    refine ⟨h.working, h.young, h.fileYoung, addsYoung_set h.addsYoung ?_⟩
    intro row heq _ _
    rw [(hrow row heq).2.1]
    decide
  | refuse req now => exact h
  | add row =>
    refine ⟨?_, ?_, h.fileYoung, addsYoung_set h.addsYoung (by rintro _ ⟨⟩)⟩
    · intro i hi
      obtain ⟨r, hr, hh⟩ := h.working i hi
      refine ⟨r, ?_, hh⟩
      show (s.bgDownloadList ++ [row])[i]? = some r
      rw [List.getElem?_append_left (List.getElem?_eq_some_iff.mp hr).1, hr]
    · intro r hr
      rcases List.mem_append.mp hr with hr | hr
      · exact h.young r hr
      · exact List.mem_singleton.mp hr ▸ h.addsYoung k row hk
  | save now =>
    exact ⟨h.working, h.young, fileYoung_save h rfl, addsYoung_set h.addsYoung (by rintro _ ⟨⟩)⟩
  | flag i r hr hf =>
    -- a flag changes neither the state nor the attempts
    refine ⟨?_, ?_, h.fileYoung, addsYoung_set h.addsYoung (by rintro _ ⟨⟩)⟩
    · intro j hj
      obtain ⟨r', hr', hh⟩ := h.working j hj
      by_cases hij : i = j
      · subst hij
        exact ⟨{ r' with removeRequested := true }, modify_self hr' _, hh⟩
      · exact ⟨r', (modify_ne _ hij _).trans hr', hh⟩
    · intro r' hr'
      obtain ⟨j, hj⟩ := List.mem_iff_getElem?.mp hr'
      change (s.bgDownloadList.modify i _)[j]? = some r' at hj
      rw [List.getElem?_modify] at hj
      obtain ⟨r₀, hr₀, rfl⟩ := Option.map_eq_some_iff.mp hj
      have hy : r₀.Young := h.young r₀ (List.mem_of_getElem? hr₀)
      by_cases hij : i = j
      · rw [if_pos hij]
        exact hy
      · rw [if_neg hij]
        exact hy

theorem sane_boot {file : Option (List JsonObject)} {n : Nat} {s : State}
    (hb : boot c file n = some s)
    (hfile : ∀ r ∈ ((file.map (loadBgDownloadData c)).getD (some [])).getD [], r.Young) :
    Sane c s := by
  obtain ⟨hpc, hf, hh, hrows⟩ := boot_eq hb
  have hloaded : ∀ r ∈ loadedRows c s, r.Young := by
    unfold loadedRows
    rwa [hf]
  refine ⟨working_of_none (by rw [hpc]; rfl), hrows ▸ hloaded, hloaded, ?_⟩
  intro k row hk
  rw [hh] at hk
  cases List.eq_of_mem_replicate (List.mem_of_getElem? hk)

theorem sane_step {s s' : State} {a : Action} (h : Sane c s) (st : step c s a = some s') :
    Sane c s' := by
  cases a with
  | thread a => exact sane_thread h (thread_cases c rfl st)
  | handler k a =>
    obtain ⟨hd, hk, hst⟩ := Option.bind_eq_some_iff.mp st
    exact sane_handler h hk (handler_cases c hst)
  | restart => exact sane_boot st h.fileYoung
  | pause | resume | stop =>
    cases st
    exact ⟨h.working, h.young, h.fileYoung, h.addsYoung⟩

theorem sane_reachable {s : State} (h : Reachable c Transition.anyStep s) : Sane c s := by
  apply Transition.Reachable.invariant h
  · rintro s ⟨n, hn⟩
    exact sane_boot hn fun r hr => by cases hr
  · intro s a t hs _ st
    exact sane_step hs st

end EzRemote.Download

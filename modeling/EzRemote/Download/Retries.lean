import EzRemote.Download.Attempts

/-!
# Retries

The download thread alone with a list of rows.  A failure ends the pass, and the
next one begins again at row 0; what every pass uses up is an attempt that its
rows have left.
-/

namespace EzRemote.Download

/-- A run of the thread with the number of passes that have ended, the number of
calls of `Get` for each row, and the number of steps outside transfers. -/
structure Retrying where
  base : State
  passes : Nat
  gets : Nat → Nat
  steps : Nat

def endsPass (s : State) (a : ThreadAction) : Bool :=
  match s.pc, a with
  | .sleeping, .go => true
  | _, _ => false

def Retrying.record (w : Retrying) (a : ThreadAction) (t : State) : Retrying :=
  { base := t
    passes := if endsPass w.base a then w.passes + 1 else w.passes
    gets := fun j =>
      if startsGet w.base (.thread a) ∧ w.base.pc.working = some j then w.gets j + 1 else w.gets j
    steps := if a.transfers then w.steps else w.steps + 1 }

variable (c : Cipher)

def retryStep (w : Retrying) (a : ThreadAction) : Option Retrying :=
  (step c w.base (.thread a)).map (w.record a)

/-- The thread before a pass, awake, with `rows` in the list. -/
structure Starts (rows : List BgDownloadData) (w : Retrying) : Prop where
  list : w.base.bgDownloadList = rows
  pc : w.base.pc = .checkStop
  inRestMode : w.base.inRestMode = false
  stopDownload : w.base.stopDownload = false
  passes : w.passes = 0
  gets : ∀ j, w.gets j = 0
  steps : w.steps = 0

/-- What the thread alone keeps. -/
structure Retry (rows : List BgDownloadData) (w : Retrying) : Prop where
  inRestMode : w.base.inRestMode = false
  stopDownload : w.base.stopDownload = false
  hosts : w.base.bgDownloadList.map (fun r => r.hostInfo) = rows.map fun r => r.hostInfo
  unflagged : ∀ r ∈ w.base.bgDownloadList, r.removeRequested = false
  running : w.base.pc ≠ .exited
  working : ∀ i, w.base.pc.working = some i → i < rows.length
  counts : ∀ i r, w.base.pc.working = some i → w.base.bgDownloadList[i]? = some r →
    w.base.pc.Counts r (w.gets i)
  settled : ∀ j r, w.base.pc.working ≠ some j → w.base.bgDownloadList[j]? = some r →
    Settled r (w.gets j)
  scanned : ∀ j r, j < w.base.pc.scanned → w.base.bgDownloadList[j]? = some r → r.Finished
  budget : (∀ r ∈ w.base.bgDownloadList, r.Finished) ∨
    w.passes + w.base.pc.aborted + attemptsLeft w.base.bgDownloadList ≤ 6 * rows.length
  steps : w.steps + w.base.pc.rank rows.length ≤ (w.passes + 1) * (8 * rows.length + 6)

variable {c : Cipher} {rows : List BgDownloadData}

theorem pending_of_downloadData {req : DownloadRequest} {now : UInt64} {r : BgDownloadData}
    (h : req.downloadData now = some r) :
    r.state = .pending ∧ r.failedAttempts = 0 ∧ r.removeRequested = false := by
  unfold DownloadRequest.downloadData at h
  split at h
  · cases h
  · cases h
    exact ⟨rfl, rfl, rfl⟩

theorem retry_starts {w : Retrying} (h : Starts rows w)
    (hnew : ∀ r ∈ rows, ∃ req now, DownloadRequest.downloadData req now = some r) :
    Retry rows w := by
  have hrow : ∀ r ∈ rows, r.state = .pending ∧ r.failedAttempts = 0 ∧ r.removeRequested = false := by
    intro r hr
    obtain ⟨req, now, hreq⟩ := hnew r hr
    exact pending_of_downloadData hreq
  have hleft : attemptsLeft rows = 6 * rows.length := by
    unfold attemptsLeft
    rw [List.map_congr_left (g := fun _ => 6), List.map_const', List.sum_replicate_nat]
    · omega
    · intro r hr
      simp [BgDownloadData.left, (hrow r hr).1]
  have hpc := h.pc
  refine ⟨h.inRestMode, h.stopDownload, by rw [h.list], ?_, by simp [hpc], ?_, ?_, ?_, ?_, ?_, ?_⟩
  · intro r hr
    exact (hrow r (h.list ▸ hr)).2.2
  · simp [hpc, Pc.working]
  · simp [hpc, Pc.working]
  · intro j r _ hj
    rw [h.list] at hj
    obtain ⟨hs, hf, -⟩ := hrow r (List.mem_of_getElem? hj)
    exact .inl ⟨hs, hf, h.gets j⟩
  · intro j r hj
    rw [hpc] at hj
    exact absurd hj (Nat.not_lt_zero j)
  · refine .inr ?_
    rw [h.list, hpc, h.passes, hleft]
    simp [Pc.aborted]
  · rw [hpc, h.passes, h.steps]
    simp [Pc.rank]

namespace Retry

variable {w w' : Retrying} (h : Retry rows w)

include h

theorem length_eq : w.base.bgDownloadList.length = rows.length := by
  simpa using congrArg List.length h.hosts

theorem exists_row {i : Nat} (hw : w.base.pc.working = some i) :
    ∃ r, w.base.bgDownloadList[i]? = some r := by
  have hlt : i < w.base.bgDownloadList.length := h.length_eq ▸ h.working i hw
  exact ⟨_, List.getElem?_eq_getElem hlt⟩

theorem goto {pc pc' : Pc} (hpc : w.base.pc = pc) (hf : pc.Follows rows.length pc')
    (hbase : w'.base = { w.base with file := w'.base.file, pc := pc' })
    (hpasses : w'.passes = w.passes) (hgets : w'.gets = w.gets) (hsteps : w'.steps = w.steps + 1) :
    Retry rows w' := by
  have hlist : w'.base.bgDownloadList = w.base.bgDownloadList := by rw [hbase]
  have hpc' : w'.base.pc = pc' := by rw [hbase]
  constructor
  case inRestMode => rw [hbase]; exact h.inRestMode
  case stopDownload => rw [hbase]; exact h.stopDownload
  case hosts => rw [hlist]; exact h.hosts
  case unflagged => rw [hlist]; exact h.unflagged
  case running => rw [hpc']; exact hf.running
  case working => rw [hpc', hf.working, ← hpc]; exact h.working
  case counts =>
    intro i r hw hr
    rw [hpc', hf.working, ← hpc] at hw
    rw [hlist] at hr
    rw [hpc', hgets]
    exact hf.counts r _ (hpc ▸ h.counts i r hw hr)
  case settled =>
    intro j r hw hr
    rw [hpc', hf.working, ← hpc] at hw
    rw [hlist] at hr
    rw [hgets]
    exact h.settled j r hw hr
  case scanned =>
    intro j r hj hr
    rw [hpc'] at hj
    rw [hlist] at hr
    exact h.scanned j r (hpc ▸ Nat.lt_of_lt_of_le hj hf.scanned) hr
  case budget =>
    have haborted := hf.aborted
    have hbudget := h.budget
    rw [hpc] at hbudget
    rw [hlist, hpc', hpasses]
    rcases hbudget with hall | hle
    · exact .inl hall
    · exact .inr (by omega)
  case steps =>
    have hrank := hf.rank (hpc ▸ h.working)
    have hbefore := h.steps
    rw [hpc] at hbefore
    rw [hpc', hpasses, hsteps]
    omega

theorem edit (pc' : Pc) {i : Nat} {r : BgDownloadData} (f : BgDownloadData → BgDownloadData)
    (hw : w.base.pc.working = some i) (hr : w.base.bgDownloadList[i]? = some r)
    (hbase : w'.base = { w.base.setRow i f with file := w'.base.file, pc := pc' })
    (hhost : ∀ r, (f r).hostInfo = r.hostInfo)
    (hflag : ∀ r, (f r).removeRequested = r.removeRequested)
    (hgets : ∀ j, j ≠ i → w'.gets j = w.gets j)
    (hrunning : pc' ≠ .exited) (hworking : pc'.working = none ∨ pc'.working = some i)
    (hcounts : pc'.Counts (f r) (w'.gets i))
    (hscanned : pc'.scanned ≤ i ∨ pc'.scanned = i + 1 ∧ (f r).Finished)
    (hbudget : w'.passes + pc'.aborted + (f r).left ≤ w.passes + w.base.pc.aborted + r.left)
    (hsteps : w'.steps + pc'.rank rows.length ≤ (w'.passes + 1) * (8 * rows.length + 6)) :
    Retry rows w' := by
  have hlist : w'.base.bgDownloadList = w.base.bgDownloadList.modify i f := by rw [hbase]; rfl
  have hpc : w'.base.pc = pc' := by rw [hbase]
  constructor
  case inRestMode => rw [hbase]; exact h.inRestMode
  case stopDownload => rw [hbase]; exact h.stopDownload
  case hosts => rw [hlist, map_modify_eq hhost]; exact h.hosts
  case unflagged =>
    intro r' hr'
    obtain ⟨j, hj⟩ := List.mem_iff_getElem?.mp hr'
    rw [hlist] at hj
    rcases modify_cases hj with ⟨-, r₀, hr₀, rfl⟩ | ⟨-, hr₀⟩
    · rw [hflag]
      exact h.unflagged r₀ (List.mem_of_getElem? hr₀)
    · exact h.unflagged r' (List.mem_of_getElem? hr₀)
  case running => rwa [hpc]
  case working =>
    intro j hj
    rw [hpc] at hj
    rcases hworking with hnone | hsome
    · rw [hnone] at hj
      cases hj
    · exact h.working j (hw.trans (hsome.symm.trans hj))
  case counts =>
    intro j r' hj hr'
    rw [hpc] at hj ⊢
    rw [hlist] at hr'
    rcases hworking with hnone | hsome
    · rw [hnone] at hj
      cases hj
    · cases hsome.symm.trans hj
      rw [modify_self hr] at hr'
      cases hr'
      exact hcounts
  -- the row itself is settled only where the thread leaves it; the others kept theirs
  case settled =>
    intro j r' hj hr'
    rw [hpc] at hj
    rw [hlist] at hr'
    rcases modify_cases hr' with ⟨rfl, r₀, hr₀, rfl⟩ | ⟨hij, hr₀⟩
    · rw [hr] at hr₀
      cases hr₀
      rcases hworking with hnone | hsome
      · exact (Pc.counts_of_idle hnone).mp hcounts
      · exact absurd hsome hj
    · rw [hgets j (Ne.symm hij)]
      refine h.settled j r' ?_ hr₀
      rw [hw]
      exact fun he => hij (Option.some.inj he)
  case scanned =>
    have hbefore : w.base.pc.scanned = i := Pc.scanned_of_working hw
    intro j r' hj hr'
    rw [hpc] at hj
    rw [hlist] at hr'
    rcases modify_cases hr' with ⟨rfl, r₀, hr₀, rfl⟩ | ⟨hij, hr₀⟩
    · rw [hr] at hr₀
      cases hr₀
      rcases hscanned with hle | ⟨-, hf⟩
      · omega
      · exact hf
    · exact h.scanned j r' (by omega) hr₀
  -- what the pass costs is paid by what the row has left
  case budget =>
    rw [hlist, hpc]
    rcases h.budget with hall | hle
    · exact absurd (hall r (List.mem_of_getElem? hr)) ((h.counts i r hw hr).unfinished hw)
    · have hleft := attemptsLeft_modify hr f
      exact .inr (by omega)
  case steps => rwa [hpc]

end Retry

theorem record_of_quiet {w : Retrying} {a : ThreadAction}
    (hstarts : startsGet w.base (.thread a) = false) (hends : endsPass w.base a = false)
    (htransfers : a.transfers = false) (t : State) :
    w.record a t = { base := t, passes := w.passes, gets := w.gets, steps := w.steps + 1 } := by
  simp [Retrying.record, hstarts, hends, htransfers]

theorem gets_other {w : Retrying} {a : ThreadAction} {t : State} {j : Nat}
    (hj : w.base.pc.working ≠ some j) : (w.record a t).gets j = w.gets j :=
  if_neg fun h => hj h.2

theorem retry_passOver {w : Retrying} {i : Nat} (h : Retry rows w) (hpc : w.base.pc = .scanning i)
    (hnone : w.base.bgDownloadList[i]? = none) :
    Retry rows (w.record .go { w.base with pc := .sleeping }) := by
  have hall : ∀ r ∈ w.base.bgDownloadList, r.Finished := by
    intro r hr
    obtain ⟨j, hj⟩ := List.mem_iff_getElem?.mp hr
    have hlt : j < w.base.bgDownloadList.length := (List.getElem?_eq_some_iff.mp hj).1
    have hlen : w.base.bgDownloadList.length ≤ i := List.getElem?_eq_none_iff.mp hnone
    exact h.scanned j r (by rw [hpc]; exact Nat.lt_of_lt_of_le hlt hlen) hj
  rw [record_of_quiet (by simp [startsGet, hpc]) (by simp [endsPass, hpc]) rfl]
  have hsteps := h.steps
  rw [hpc] at hsteps
  refine ⟨h.inRestMode, h.stopDownload, h.hosts, h.unflagged, by simp, ?_, ?_, ?_, ?_, .inl hall, ?_⟩
  · exact fun _ hw => by cases hw
  · exact fun _ _ hw => by cases hw
  · intro j r _ hj
    exact h.settled j r (by rw [hpc]; exact fun hw => by cases hw) hj
  · exact fun j _ hj => absurd hj (Nat.not_lt_zero j)
  · simp only [Pc.rank] at hsteps ⊢
    omega

theorem retry_scan {w : Retrying} {i : Nat} {r : BgDownloadData} (h : Retry rows w)
    (hpc : w.base.pc = .scanning i) (hr : w.base.bgDownloadList[i]? = some r) :
    Retry rows (w.record .go { w.base with pc := scanRow r i }) := by
  have hlt : i < rows.length := h.length_eq ▸ (List.getElem?_eq_some_iff.mp hr).1
  have hidle : ∀ j, w.base.pc.working ≠ some j := by
    rw [hpc]
    exact fun _ hw => by cases hw
  have hset : Settled r (w.gets i) := h.settled i r (hidle i) hr
  have hsteps := h.steps
  have hbudget := h.budget
  rw [hpc] at hsteps hbudget
  rw [record_of_quiet (by simp [startsGet, hpc]) (by simp [endsPass, hpc]) rfl]
  have hpick : ∀ resume, (Pc.acquiring i resume).Counts r (w.gets i) →
      Retry rows { base := { w.base with pc := .acquiring i resume }, passes := w.passes,
                   gets := w.gets, steps := w.steps + 1 } := by
    intro resume hcounts
    refine ⟨h.inRestMode, h.stopDownload, h.hosts, h.unflagged, by simp, ?_, ?_, ?_, ?_, hbudget, ?_⟩
    · intro j hj
      cases hj
      exact hlt
    · intro j r' hj hr'
      cases hj
      rw [hr] at hr'
      cases hr'
      exact hcounts
    · exact fun j r' _ hr' => h.settled j r' (hidle j) hr'
    · exact fun j r' hj hr' => h.scanned j r' (by rw [hpc]; exact hj) hr'
    · simp only [Pc.rank] at hsteps ⊢
      omega
  have hnext : r.Finished →
      Retry rows { base := { w.base with pc := .scanning (i + 1) }, passes := w.passes,
                   gets := w.gets, steps := w.steps + 1 } := by
    intro hfinished
    refine ⟨h.inRestMode, h.stopDownload, h.hosts, h.unflagged, by simp, ?_, ?_, ?_, ?_, hbudget, ?_⟩
    · exact fun _ hw => by cases hw
    · exact fun _ _ hw => by cases hw
    · exact fun j r' _ hr' => h.settled j r' (hidle j) hr'
    · intro j r' hj hr'
      rcases Nat.lt_succ_iff_lt_or_eq.mp hj with hj | rfl
      · exact h.scanned j r' (by rw [hpc]; exact hj) hr'
      · change w.base.bgDownloadList[j]? = some r' at hr'
        rw [hr] at hr'
        cases hr'
        exact hfinished
    · simp only [Pc.rank] at hsteps ⊢
      omega
  unfold scanRow
  -- a row without a `Get` in the pass is settled: pending, failed before, or done
  rcases hset with hpending | hfailed | hsuccess
  · rw [if_pos hpending.1]
    exact hpick false hpending
  · rw [if_neg (by simp [hfailed.1])]
    -- below 5 the row is resumed; 5 stands for six failed `Get`s and is final
    by_cases hlt5 : r.failedAttempts < 5
    · rw [if_pos (.inr ⟨hfailed.1, hlt5⟩)]
      exact hpick true ⟨hfailed.1, hfailed.2.1, hlt5, hfailed.2.2.2⟩
    · rw [if_neg (by simp [BgDownloadData.Interrupted, hfailed.1, hlt5])]
      exact hnext (.inr ⟨hfailed.1, Int.not_lt.mp hlt5⟩)
  · rw [if_neg (by simp [hsuccess.1]), if_neg (by simp [BgDownloadData.Interrupted, hsuccess.1])]
    exact hnext (.inl hsuccess.1)

theorem retry_again {w : Retrying} (h : Retry rows w) (hpc : w.base.pc = .sleeping) :
    Retry rows (w.record .go { w.base with pc := .checkStop }) := by
  have hidle : ∀ j, w.base.pc.working ≠ some j := by
    rw [hpc]
    exact fun _ hw => by cases hw
  have hsteps := h.steps
  have hbudget := h.budget
  rw [hpc] at hsteps hbudget
  have hrecord : w.record .go { w.base with pc := .checkStop } =
      { base := { w.base with pc := .checkStop }, passes := w.passes + 1, gets := w.gets,
        steps := w.steps + 1 } := by
    simp [Retrying.record, endsPass, startsGet, ThreadAction.transfers, hpc]
  rw [hrecord]
  refine ⟨h.inRestMode, h.stopDownload, h.hosts, h.unflagged, by simp, ?_, ?_, ?_, ?_, ?_, ?_⟩
  · exact fun _ hw => by cases hw
  · exact fun _ _ hw => by cases hw
  · exact fun j r' _ hr' => h.settled j r' (hidle j) hr'
  · exact fun j _ hj => absurd hj (Nat.not_lt_zero j)
  · rcases hbudget with hall | hle
    · exact .inl hall
    · exact .inr hle
  · simp only [Pc.rank, Nat.add_mul] at hsteps ⊢
    omega

theorem retry_started {w : Retrying} {i : Nat} {now : UInt64} (h : Retry rows w)
    (hpc : w.base.pc = .startSave i) :
    Retry rows (w.record (.save now) { w.base.save c now with pc := .getting i false }) := by
  have hw : w.base.pc.working = some i := by rw [hpc]; rfl
  obtain ⟨r, hr⟩ := h.exists_row hw
  have hlt := h.working i hw
  have hcounts := h.counts i r hw hr
  have hsteps := h.steps
  rw [hpc] at hcounts hsteps
  have hgets : (w.record (.save now) { w.base.save c now with pc := .getting i false }).gets i =
      w.gets i + 1 := by
    simp [Retrying.record, startsGet, hpc, Pc.working]
  refine h.edit (.getting i false) id hw hr ?_ (fun _ => rfl) (fun _ => rfl) ?_ (by simp) (.inr rfl)
    ?_ (.inl (Nat.le_refl _)) ?_ ?_
  · simp [Retrying.record, State.setRow, State.save]
  · exact fun j hj => gets_other (by rw [hw]; exact fun he => hj (Option.some.inj he).symm)
  · exact ⟨hcounts.1, hcounts.2.1, by rw [hgets, hcounts.2.2]⟩
  · simp [Retrying.record, endsPass, hpc, Pc.aborted]
  · simp only [Retrying.record, endsPass, hpc, ThreadAction.transfers, Pc.rank,
      Bool.false_eq_true, if_false] at hsteps ⊢
    omega

theorem retry_edit {w : Retrying} {pc pc' : Pc} {a : ThreadAction} {i : Nat}
    {f : BgDownloadData → BgDownloadData} (h : Retry rows w) (hpc : w.base.pc = pc)
    (e : Edits w.base i pc a f pc') :
    Retry rows (w.record a { w.base.setRow i f with pc := pc' }) := by
  have hw : w.base.pc.working = some i := hpc ▸ e.working_eq.1
  obtain ⟨r, hr⟩ := h.exists_row hw
  have hlt := h.working i hw
  have hcounts := h.counts i r hw hr
  have hsteps := h.steps
  rw [hpc] at hcounts hsteps
  have hends : endsPass w.base a = false := by cases e <;> simp [endsPass, hpc]
  have hgets : (w.record a { w.base.setRow i f with pc := pc' }).gets i =
      if startsGet w.base (.thread a) then w.gets i + 1 else w.gets i := by
    simp [Retrying.record, hw]
  have hpasses : (w.record a { w.base.setRow i f with pc := pc' }).passes = w.passes := by
    simp [Retrying.record, hends]
  obtain ⟨hleft, hrank⟩ := e.budget hcounts hr hlt
  refine h.edit pc' f hw hr rfl e.hostInfo_eq e.removeRequested_eq ?_ ?_ e.working_eq.2 ?_ ?_ ?_ ?_
  · exact fun j hj => gets_other (by rw [hw]; exact fun he => hj (Option.some.inj he).symm)
  · cases e with
    | fail resume => cases resume <;> simp
    | count => split <;> simp
    | _ => simp
  · rw [hgets]
    exact e.counts hpc hcounts hr
  · cases e with
    | complete => exact .inr ⟨rfl, .inl rfl⟩
    | fail resume => cases resume <;> exact .inl (by simp [Pc.scanned])
    | count => split <;> exact .inl (by simp [Pc.scanned])
    | _ => exact .inl (Nat.le_refl i)
  · rw [hpasses, hpc]
    omega
  · rw [hpasses]
    rcases hrank with hrank | ⟨rfl, htransfers⟩
    · have hle : (w.record a { w.base.setRow i f with pc := pc' }).steps ≤ w.steps + 1 := by
        simp only [Retrying.record]
        split <;> omega
      omega
    · simp only [Retrying.record, htransfers, if_true]
      exact hsteps

/-- Every step that the thread makes with a client for every row. -/
theorem retry_step {w w' : Retrying} {a : ThreadAction} (h : Retry rows w)
    (hclient : ∀ client, a = .acquired client → client = true)
    (st : retryStep c w a = some w') : Retry rows w' := by
  obtain ⟨t, ht, rfl⟩ := Option.map_eq_some_iff.mp st
  have hst := thread_cases c rfl ht
  generalize hpc : w.base.pc = pc at hst
  cases hst with
  | @move _ pc' _ m =>
    by_cases hscan : ∃ i, pc = .scanning i
    · obtain ⟨i, rfl⟩ := hscan
      cases m with
      | passOver _ hnone => exact retry_passOver h hpc hnone
      | scan _ r hr => exact retry_scan h hpc hr
    by_cases hsleep : pc = .sleeping
    · subst hsleep
      cases m
      exact retry_again h hpc
    have hf : pc.Follows rows.length pc' :=
      m.follows h.stopDownload h.inRestMode hclient (fun i hi => hscan ⟨i, hi⟩) hsleep
    have hquiet : startsGet w.base (.thread a) = false := by
      cases m <;> simp [startsGet, hpc]
    have hends : endsPass w.base a = false := by
      cases m <;> simp_all [endsPass]
    have htransfers : a.transfers = false := by cases m <;> rfl
    rw [record_of_quiet hquiet hends htransfers]
    exact h.goto hpc hf rfl rfl rfl rfl
  | sweep pc' hpc' =>
    have hsame : w.base.bgDownloadList.filter (fun r => !r.removeRequested) =
        w.base.bgDownloadList :=
      List.filter_eq_self.mpr fun r hr => by simp [h.unflagged r hr]
    rw [record_of_quiet (by simp [startsGet, hpc]) (by simp [endsPass, hpc]) rfl, hsame]
    exact h.goto hpc (follows_sweep hpc') rfl rfl rfl rfl
  | @save _ pc' now m =>
    by_cases hstart : ∃ i, pc = .startSave i
    · obtain ⟨i, rfl⟩ := hstart
      cases m
      exact retry_started h hpc
    have hquiet : startsGet w.base (.thread (.save now)) = false := by
      cases m <;> simp_all [startsGet]
    have hends : endsPass w.base (.save now) = false := by
      cases m <;> simp [endsPass, hpc]
    rw [record_of_quiet hquiet hends rfl]
    exact h.goto hpc (m.follows fun i hi => hstart ⟨i, hi⟩) rfl rfl rfl rfl
  | edit e => exact retry_edit h hpc e

theorem finished_step {w w' : Retrying} {a : ThreadAction} (h : Retry rows w)
    (st : retryStep c w a = some w') {j : Nat} {r : BgDownloadData}
    (hj : w.base.bgDownloadList[j]? = some r) (hf : r.Finished) :
    w'.base.bgDownloadList[j]? = some r ∧ w'.gets j = w.gets j := by
  have hidle : w.base.pc.working ≠ some j :=
    fun hw => (h.counts j r hw hj).unfinished hw hf
  obtain ⟨t, ht, rfl⟩ := Option.map_eq_some_iff.mp st
  refine ⟨?_, gets_other hidle⟩
  show t.bgDownloadList[j]? = some r
  have hst := thread_cases c rfl ht
  generalize hpc : w.base.pc = pc at hst
  cases hst with
  | move m => exact hj
  | sweep pc' hpc' =>
    have hsame : w.base.bgDownloadList.filter (fun r => !r.removeRequested) =
        w.base.bgDownloadList :=
      List.filter_eq_self.mpr fun r hr => by simp [h.unflagged r hr]
    show (w.base.bgDownloadList.filter _)[j]? = _
    rw [hsame]
    exact hj
  | save now m => exact hj
  | @edit _ pc' _ i f e =>
    show (w.base.bgDownloadList.modify i f)[j]? = _
    have hne : i ≠ j := by
      rintro rfl
      exact hidle (hpc ▸ e.working_eq.1)
    rw [modify_ne _ hne]
    exact hj

/-- The thread is never stuck, whatever a transfer returns. -/
theorem Retry.goesOn {w : Retrying} (h : Retry rows w) (c : Cipher) (ret : Int) :
    ∃ a ∈ [ThreadAction.go, .save 0, .acquired true, .returned ret],
      (retryStep c w a).isSome = true := by
  have hact : ∀ a, (stepThread c w.base w.base.pc a).isSome = true →
      (retryStep c w a).isSome = true := by
    intro a ha
    unfold retryStep
    rw [Option.isSome_map]
    exact ha
  cases hpc : w.base.pc with
  | checkStop | sweeping | failing | markFailed | completing | sleeping =>
    exact ⟨.go, by simp, hact _ (by rw [hpc]; rfl)⟩
  | pausing =>
    refine ⟨.go, by simp, hact _ ?_⟩
    rw [hpc]
    unfold stepThread
    dsimp only
    rw [h.stopDownload, h.inRestMode]
    rfl
  | scanning i =>
    refine ⟨.go, by simp, hact _ ?_⟩
    rw [hpc]
    unfold stepThread
    dsimp only
    split <;> rfl
  | starting i resume =>
    refine ⟨.go, by simp, hact _ ?_⟩
    rw [hpc]
    cases resume <;> rfl
  | countAttempt i =>
    refine ⟨.go, by simp, hact _ ?_⟩
    obtain ⟨r, hr⟩ := h.exists_row (show w.base.pc.working = some i by rw [hpc]; rfl)
    rw [hpc]
    unfold stepThread State.setRow
    simp only [modify_self hr]
    rfl
  | sweepSave | startSave | failSave | completeSave =>
    exact ⟨.save 0, by simp, hact _ (by rw [hpc]; rfl)⟩
  | acquiring => exact ⟨.acquired true, by simp, hact _ (by rw [hpc]; rfl)⟩
  | getting => exact ⟨.returned ret, by simp, hact _ (by rw [hpc]; rfl)⟩
  | exited => exact absurd hpc h.running

namespace Retry

variable {w : Retrying} (h : Retry rows w)

include h

theorem gets_le {i : Nat} (hi : i < rows.length) : w.gets i ≤ 6 := by
  obtain ⟨r, hr⟩ : ∃ r, w.base.bgDownloadList[i]? = some r :=
    ⟨_, List.getElem?_eq_getElem (h.length_eq ▸ hi)⟩
  by_cases hw : w.base.pc.working = some i
  · exact (h.counts i r hw hr).gets_le
  · exact (h.settled i r hw hr).gets_le

theorem all_finished (hpasses : 6 * rows.length ≤ w.passes) :
    ∀ r ∈ w.base.bgDownloadList, r.state = .success ∨ r.state = .failed ∧ r.failedAttempts = 5 := by
  intro r hr
  obtain ⟨i, hi⟩ := List.mem_iff_getElem?.mp hr
  have hzero : r.left = 0 := by
    rcases h.budget with hall | hle
    · exact (hall r hr).left_eq
    · exact attemptsLeft_eq_zero (by omega) r hr
  have hidle : w.base.pc.working ≠ some i := by
    intro hw
    have hpos := (h.counts i r hw hi).left_pos hw
    omega
  have hset : Settled r (w.gets i) := h.settled i r hidle hi
  exact hset.outcome (hset.finished hzero)

/-- What a run of passes costs. -/
theorem steps_le : w.steps ≤ (w.passes + 1) * (8 * rows.length + 6) :=
  Nat.le_trans (Nat.le_add_right _ _) h.steps

end Retry

end EzRemote.Download

import EzRemote.Download.Pause
import EzRemote.Download.Working
import Mathlib.Algebra.GroupWithZero.Nat

/-!
# Attempts

What the download thread does with one row: the calls of `Get` for it and the
attempts that it has left, six for a row that was not tried yet.  The first
failure of a row is not counted in `failed_attempts`.
-/

namespace EzRemote.Download

/-- The calls of `Get` for a row that the thread is not working on. -/
def Settled (r : BgDownloadData) (gets : Nat) : Prop :=
  r.state = .pending ∧ r.failedAttempts = 0 ∧ gets = 0 ∨
  r.state = .failed ∧ 0 ≤ r.failedAttempts ∧ r.failedAttempts ≤ 5 ∧ gets = r.failedAttempts + 1 ∨
  r.state = .success ∧ gets ≤ 6

/-- The calls of `Get` for the row that the thread is working on. -/
def Pc.Counts (r : BgDownloadData) (gets : Nat) : Pc → Prop
  | .acquiring _ false | .starting _ false =>
    r.state = .pending ∧ r.failedAttempts = 0 ∧ gets = 0
  | .acquiring _ true | .starting _ true =>
    r.state = .failed ∧ 0 ≤ r.failedAttempts ∧ r.failedAttempts < 5 ∧ gets = r.failedAttempts + 1
  | .startSave _ => r.state = .downloading ∧ r.failedAttempts = 0 ∧ gets = 0
  | .getting _ false | .failing _ false | .markFailed _ false | .completing _ false =>
    r.state = .downloading ∧ r.failedAttempts = 0 ∧ gets = 1
  | .getting _ true | .failing _ true | .markFailed _ true | .completing _ true =>
    r.state = .resumed ∧ 0 ≤ r.failedAttempts ∧ r.failedAttempts < 5 ∧ gets = r.failedAttempts + 2
  | .countAttempt _ =>
    r.state = .failed ∧ 0 ≤ r.failedAttempts ∧ r.failedAttempts < 5 ∧ gets = r.failedAttempts + 2
  | _ => Settled r gets

/-- The attempts that a row has left. -/
def BgDownloadData.left (r : BgDownloadData) : Nat :=
  match r.state with
  | .pending | .downloading => 6
  | .resumed | .failed => (5 - r.failedAttempts).toNat
  | .success => 0

def attemptsLeft (rows : List BgDownloadData) : Nat := (rows.map BgDownloadData.left).sum

/-- The rows that a pass has seen to. -/
def Pc.scanned : Pc → Nat
  | .scanning i | .acquiring i _ | .starting i _ | .startSave i | .getting i _ | .failing i _
  | .markFailed i _ | .countAttempt i | .completing i _ => i
  | .completeSave i => i + 1
  | _ => 0

/-- The pass has ended with a failure. -/
def Pc.aborted : Pc → Nat
  | .failSave _ | .sleeping => 1
  | _ => 0

/-- The steps that a pass over `n` rows has left, outside its transfers. -/
def Pc.rank (n : Nat) : Pc → Nat
  | .checkStop => 8 * n + 6
  | .pausing => 8 * n + 5
  | .sweeping => 8 * n + 4
  | .sweepSave => 8 * n + 3
  | .scanning i => 8 * (n - i) + 2
  | .acquiring i _ => 8 * (n - i) + 1
  | .starting i _ => 8 * (n - i)
  | .startSave i => 8 * (n - i) - 1
  | .getting i _ => 8 * (n - i) - 2
  | .failing i _ => 8 * (n - i) - 3
  | .markFailed _ _ => 4
  | .countAttempt _ => 3
  | .failSave _ => 2
  | .completing i _ => 8 * (n - i) - 3
  | .completeSave i => 8 * (n - (i + 1)) + 3
  | .sleeping => 1
  | .exited => 0

/-- A transfer goes on. -/
def ThreadAction.transfers : ThreadAction → Bool
  | .progress _ => true
  | _ => false

theorem map_modify_eq {l : List BgDownloadData} {i : Nat} {f : BgDownloadData → BgDownloadData}
    {β : Type} {g : BgDownloadData → β} (h : ∀ r, g (f r) = g r) :
    (l.modify i f).map g = l.map g := by
  apply List.ext_getElem?
  intro j
  rw [List.getElem?_map, List.getElem?_modify, List.getElem?_map]
  cases l[j]? with
  | none => rfl
  | some r =>
    by_cases hij : i = j
    · simp [hij, h]
    · simp [hij]

theorem modify_cases {l : List BgDownloadData} {i j : Nat} {f : BgDownloadData → BgDownloadData}
    {r' : BgDownloadData} (h : (l.modify i f)[j]? = some r') :
    i = j ∧ (∃ r, l[j]? = some r ∧ r' = f r) ∨ i ≠ j ∧ l[j]? = some r' := by
  by_cases hij : i = j
  · subst hij
    rw [List.getElem?_modify_eq] at h
    obtain ⟨r, hr, rfl⟩ := Option.map_eq_some_iff.mp h
    exact .inl ⟨rfl, r, hr, rfl⟩
  · exact .inr ⟨hij, modify_ne l hij f ▸ h⟩

theorem attemptsLeft_modify {l : List BgDownloadData} {i : Nat} {r : BgDownloadData}
    (h : l[i]? = some r) (f : BgDownloadData → BgDownloadData) :
    attemptsLeft (l.modify i f) + r.left = attemptsLeft l + (f r).left := by
  induction l generalizing i with
  | nil => cases h
  | cons a l ih =>
    unfold attemptsLeft
    cases i with
    | zero =>
      cases h
      simp only [List.modify_zero_cons, List.map_cons, List.sum_cons]
      omega
    | succ i =>
      have htail := ih (i := i) h
      unfold attemptsLeft at htail
      simp only [List.modify_succ_cons, List.map_cons, List.sum_cons]
      omega

theorem attemptsLeft_eq_zero {l : List BgDownloadData} (h : attemptsLeft l = 0) :
    ∀ r ∈ l, r.left = 0 := by
  intro r hr
  exact List.sum_eq_zero_iff_forall_eq_nat.mp h r.left (List.mem_map_of_mem hr)

theorem Settled.finished {r : BgDownloadData} {gets : Nat} (h : Settled r gets)
    (hl : r.left = 0) : r.Finished := by
  unfold BgDownloadData.left at hl
  rcases h with ⟨hs, -, -⟩ | ⟨hs, -, hle, -⟩ | ⟨hs, -⟩
  · simp [hs] at hl
  · simp only [hs] at hl
    exact .inr ⟨hs, by omega⟩
  · exact .inl hs

theorem Settled.gets_le {r : BgDownloadData} {gets : Nat} (h : Settled r gets) : gets ≤ 6 := by
  rcases h with ⟨-, -, h⟩ | ⟨-, -, hle, h⟩ | ⟨-, h⟩
  · omega
  · omega
  · exact h

theorem Pc.Counts.gets_le {pc : Pc} {r : BgDownloadData} {gets : Nat} (h : pc.Counts r gets) :
    gets ≤ 6 := by
  cases pc with
  | acquiring i resume | starting i resume | getting i resume | failing i resume
  | markFailed i resume | completing i resume =>
    cases resume
    all_goals
      simp only [Pc.Counts] at h
      omega
  | startSave i | countAttempt i =>
    simp only [Pc.Counts] at h
    omega
  | _ => exact Settled.gets_le h

theorem Settled.outcome {r : BgDownloadData} {gets : Nat} (h : Settled r gets) (hf : r.Finished) :
    r.state = .success ∨ r.state = .failed ∧ r.failedAttempts = 5 := by
  rcases hf with hs | ⟨hs, hk⟩
  · exact .inl hs
  · rcases h with ⟨hp, -⟩ | ⟨-, -, hle, -⟩ | ⟨hp, -⟩
    · rw [hs] at hp
      cases hp
    · exact .inr ⟨hs, Int.le_antisymm hle hk⟩
    · exact .inl hp

theorem Pc.counts_of_idle {pc : Pc} {r : BgDownloadData} {gets : Nat} (h : pc.working = none) :
    pc.Counts r gets ↔ Settled r gets := by
  cases pc <;> cases h <;> rfl

theorem Pc.scanned_of_working {pc : Pc} {i : Nat} (h : pc.working = some i) : pc.scanned = i := by
  cases pc <;> cases h <;> rfl

theorem BgDownloadData.Finished.left_eq {r : BgDownloadData} (h : r.Finished) : r.left = 0 := by
  unfold BgDownloadData.left
  rcases h with hs | ⟨hs, hk⟩
  · rw [hs]
  · rw [hs]
    dsimp only
    omega

theorem Pc.Counts.left_pos {pc : Pc} {i : Nat} {r : BgDownloadData} {gets : Nat}
    (h : pc.Counts r gets) (hw : pc.working = some i) : 0 < r.left := by
  unfold BgDownloadData.left
  cases pc with
  | acquiring i resume | starting i resume | getting i resume | failing i resume
  | markFailed i resume | completing i resume =>
    cases resume
    all_goals
      simp only [Pc.Counts] at h
      simp only [h.1]
      omega
  | startSave i | countAttempt i =>
    simp only [Pc.Counts] at h
    simp only [h.1]
    omega
  | _ => cases hw

theorem Pc.Counts.unfinished {pc : Pc} {i : Nat} {r : BgDownloadData} {gets : Nat}
    (h : pc.Counts r gets) (hw : pc.working = some i) : ¬ r.Finished := by
  intro hf
  have hpos := h.left_pos hw
  rw [hf.left_eq] at hpos
  exact absurd hpos (Nat.lt_irrefl 0)

/-- The thread goes on with the same row, or with none, and the pass has less to
do. -/
structure Pc.Follows (n : Nat) (pc pc' : Pc) : Prop where
  running : pc' ≠ .exited
  working : pc'.working = pc.working
  counts : ∀ r gets, pc.Counts r gets → pc'.Counts r gets
  scanned : pc'.scanned ≤ pc.scanned
  aborted : pc'.aborted ≤ pc.aborted
  rank : (∀ i, pc.working = some i → i < n) → pc'.rank n < pc.rank n

theorem follows_sweep {n : Nat} {pc' : Pc} (h : pc' = .sweepSave ∨ pc' = .scanning 0) :
    Pc.sweeping.Follows n pc' := by
  rcases h with rfl | rfl
  all_goals
    refine ⟨by simp, rfl, fun _ _ h => h, Nat.le_refl _, Nat.le_refl _, fun _ => ?_⟩
    simp only [Pc.rank]
    omega

theorem Saves.follows {n : Nat} {pc pc' : Pc} (m : Saves pc pc')
    (hstart : ∀ i, pc ≠ .startSave i) : pc.Follows n pc' := by
  cases m with
  | started i => exact absurd rfl (hstart i)
  | swept | failed i | completed i =>
    refine ⟨by simp, rfl, fun _ _ h => h, Nat.le_refl _, Nat.le_refl _, fun _ => ?_⟩
    simp only [Pc.rank]
    omega

theorem Moves.follows {n : Nat} {s : State} {pc pc' : Pc} {a : ThreadAction} (m : Moves s pc a pc')
    (hstop : s.stopDownload = false) (hrest : s.inRestMode = false)
    (hclient : ∀ client, a = .acquired client → client = true)
    (hscan : ∀ i, pc ≠ .scanning i) (hsleep : pc ≠ .sleeping) : pc.Follows n pc' := by
  cases m with
  | exit hs | exitPaused hs =>
    rw [hstop] at hs
    cases hs
  | resting i resume hr =>
    rw [hrest] at hr
    cases hr
  | refused i resume => cases hclient false rfl
  | passOver i hnone => exact absurd rfl (hscan i)
  | scan i r hr => exact absurd rfl (hscan i)
  | again => exact absurd rfl hsleep
  | enter | unpaused =>
    refine ⟨by simp, rfl, fun _ _ h => h, Nat.le_refl _, Nat.le_refl _, fun _ => ?_⟩
    simp only [Pc.rank]
    omega
  | acquired i resume | failed i resume | done i resume | awake i resume =>
    refine ⟨by simp, rfl, ?_, Nat.le_refl _, Nat.le_refl _, fun hlt => ?_⟩
    · cases resume <;> exact fun _ _ h => h
    · have hi := hlt i rfl
      simp only [Pc.rank]
      omega

theorem Edits.hostInfo_eq {s : State} {i : Nat} {pc : Pc} {a : ThreadAction}
    {f : BgDownloadData → BgDownloadData} {pc' : Pc} (e : Edits s i pc a f pc')
    (r : BgDownloadData) : (f r).hostInfo = r.hostInfo := by
  cases e <;> rfl

theorem Edits.counts {s : State} {i : Nat} {pc pc' : Pc} {a : ThreadAction}
    {f : BgDownloadData → BgDownloadData} (e : Edits s i pc a f pc') (hpc : s.pc = pc)
    {r : BgDownloadData} {gets : Nat} (h : pc.Counts r gets) (hr : s.bgDownloadList[i]? = some r) :
    pc'.Counts (f r) (if startsGet s (.thread a) then gets + 1 else gets) := by
  have hstarts : startsGet s (.thread a) = startsGet { s with pc := pc } (.thread a) := by
    rw [← hpc]
  rw [hstarts]
  cases e with
  | start => exact ⟨rfl, h.2⟩
  | resume =>
    obtain ⟨-, hzero, hlt, hgets⟩ := h
    exact ⟨rfl, hzero, hlt, by simp only [startsGet, if_true]; push_cast; omega⟩
  | progress resume n => cases resume <;> exact h
  | fail resume =>
    cases resume with
    | false =>
      obtain ⟨-, hk, hgets⟩ := h
      have hsettled : Settled { r with state := .failed } gets :=
        .inr (.inl ⟨rfl, by simp [hk], by simp [hk], by simp [hgets, hk]⟩)
      exact hsettled
    | true => exact ⟨rfl, h.2⟩
  | count r' hr' =>
    rw [hr] at hr'
    cases hr'
    obtain ⟨hs, hzero, hlt, hgets⟩ := h
    have hsettled : Settled { r with failedAttempts := r.failedAttempts + 1 } gets :=
      .inr (.inl ⟨hs, by dsimp only; omega, by dsimp only; omega, by dsimp only; omega⟩)
    show Pc.Counts _ gets (if 5 ≤ r.failedAttempts + 1 then Pc.failSave i else Pc.sleeping)
    split <;> exact hsettled
  | complete resume =>
    refine .inr (.inr ⟨rfl, ?_⟩)
    exact h.gets_le

/-- What an edit takes from the attempts that are left, and from the steps. -/
theorem Edits.budget {s : State} {i n : Nat} {pc pc' : Pc} {a : ThreadAction}
    {f : BgDownloadData → BgDownloadData} (e : Edits s i pc a f pc') {r : BgDownloadData}
    {gets : Nat} (h : pc.Counts r gets) (hr : s.bgDownloadList[i]? = some r) (hi : i < n) :
    pc'.aborted + (f r).left ≤ pc.aborted + r.left ∧
      (pc'.rank n < pc.rank n ∨ pc' = pc ∧ a.transfers = true) := by
  cases e with
  | start =>
    refine ⟨?_, .inl (by simp only [Pc.rank]; omega)⟩
    simp [Pc.aborted, BgDownloadData.left, h.1]
  | resume =>
    refine ⟨?_, .inl (by simp only [Pc.rank]; omega)⟩
    simp [Pc.aborted, BgDownloadData.left, h.1]
  | progress resume m => exact ⟨Nat.le_refl _, .inr ⟨rfl, rfl⟩⟩
  | fail resume =>
    cases resume with
    | false =>
      refine ⟨?_, .inl (by simp [Pc.rank])⟩
      simp [Pc.aborted, BgDownloadData.left, h.1, h.2.1]
    | true =>
      refine ⟨?_, .inl (by simp [Pc.rank])⟩
      simp [Pc.aborted, BgDownloadData.left, h.1]
  | count r' hr' =>
    rw [hr] at hr'
    cases hr'
    obtain ⟨hs, hzero, hlt, -⟩ := h
    have haborted : Pc.aborted (if 5 ≤ r.failedAttempts + 1 then .failSave i else .sleeping) = 1 := by
      split <;> rfl
    constructor
    · rw [haborted]
      simp only [Pc.aborted, BgDownloadData.left, hs]
      omega
    · split <;> exact .inl (by simp [Pc.rank])
  | complete resume =>
    refine ⟨?_, .inl (by simp only [Pc.rank]; omega)⟩
    simp [Pc.aborted, BgDownloadData.left]

end EzRemote.Download

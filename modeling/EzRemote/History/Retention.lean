import Mathlib.Algebra.Ring.Nat
import EzRemote.History.RoundTrip

/-!
# Retention

The age of a record is the difference of two `uint64_t` and wraps when the
timestamp is ahead of the clock: such a record is dropped as if it were old,
unless it is ahead by almost `2 ^ 64` microseconds.
-/

namespace EzRemote.History

open Download

/-- The clock is at least the retention period later. -/
def Old (now timestamp : UInt64) : Prop :=
  timestamp.toNat + maxPkgHistoryRetention.toNat ≤ now.toNat

/-- The timestamp is not ahead of the clock, or so far that the wrapped age is
within the retention period. -/
def NotAhead (now timestamp : UInt64) : Prop :=
  timestamp.toNat ≤ now.toNat ∨
    2 ^ 64 - (timestamp.toNat - now.toNat) < maxPkgHistoryRetention.toNat

instance (now timestamp : UInt64) : Decidable (Old now timestamp) :=
  inferInstanceAs (Decidable (_ ≤ _))

instance (now timestamp : UInt64) : Decidable (NotAhead now timestamp) :=
  inferInstanceAs (Decidable (_ ∨ _))

theorem age_lt_iff (now timestamp : UInt64) :
    now - timestamp < maxPkgHistoryRetention ↔ NotAhead now timestamp ∧ ¬ Old now timestamp := by
  have hmax : maxPkgHistoryRetention.toNat = 1209600000000 := rfl
  have hn := now.toNat_lt
  have ht := timestamp.toNat_lt
  rw [UInt64.lt_iff_toNat_lt, UInt64.toNat_sub]
  unfold NotAhead Old
  omega

variable (c : Cipher)

/-- `SavePackageInstallHostData` keeps every record that is not old, and writes
what it keeps. -/
def PackagesKept (now : UInt64) (m : PkgInstallHistory) : Prop :=
  let saved := savePackageInstallHostData c now m
  (m.entries.filter fun it => ¬ Old now it.2.timestamp).Sublist saved.1.entries ∧
    saved.2 = saved.1.entries.map (savePackageItem c)

/-- `SaveBgDownloadData` writes every record that is not old; the list in memory
it leaves alone. -/
def DownloadsKept (now : UInt64) (rows : List BgDownloadData) : Prop :=
  ((rows.filter fun r => ¬ Old now r.timestamp).map (saveItem c)).Sublist
    (saveBgDownloadData c now rows)

theorem timestamp_saveItem (r : BgDownloadData) :
    getUint64 (saveItem c r) "timestamp" = some r.timestamp := by
  by_cases ht : r.hostInfo.type = ClientType.httpServer.toInt <;>
    simp [getUint64, saveItem, List.lookup_cons, ht]

theorem filter_sublist_filter {α : Type} {p q : α → Bool} {l : List α}
    (h : ∀ x ∈ l, p x = true → q x = true) : (l.filter p).Sublist (l.filter q) := by
  have hboth : l.filter p = (l.filter q).filter p := by
    rw [List.filter_filter]
    apply List.filter_congr
    intro x hx
    cases hp : p x with
    | true => rw [h x hx hp, Bool.and_self]
    | false => rw [Bool.false_and]
  rw [hboth]
  exact List.filter_sublist

theorem packagesKept_iff (now : UInt64) (m : PkgInstallHistory) :
    PackagesKept c now m ↔ ∀ it ∈ m.entries, NotAhead now it.2.timestamp := by
  constructor
  · intro h it hit
    by_cases hold : Old now it.2.timestamp
    · exact .inl (Nat.le_trans (Nat.le_add_right _ _) hold)
    · have hin : it ∈ m.entries.filter (retainedPackage now) :=
        h.1.subset (List.mem_filter.mpr ⟨hit, decide_eq_true hold⟩)
      exact ((age_lt_iff _ _).mp (of_decide_eq_true (List.mem_filter.mp hin).2)).1
  · intro h
    refine ⟨filter_sublist_filter ?_, rfl⟩
    intro it hit hold
    exact decide_eq_true ((age_lt_iff _ _).mpr ⟨h it hit, of_decide_eq_true hold⟩)

theorem downloadsKept_iff (now : UInt64) (rows : List BgDownloadData) :
    DownloadsKept c now rows ↔ ∀ r ∈ rows, NotAhead now r.timestamp := by
  constructor
  · intro h r hr
    by_cases hold : Old now r.timestamp
    · exact .inl (Nat.le_trans (Nat.le_add_right _ _) hold)
    · have hin : saveItem c r ∈ saveBgDownloadData c now rows :=
        h.subset (List.mem_map_of_mem (List.mem_filter.mpr ⟨hr, decide_eq_true hold⟩))
      obtain ⟨r', hr', heq⟩ := List.mem_map.mp hin
      -- equal objects have equal timestamps, and the test reads nothing else
      have htime : r'.timestamp = r.timestamp := by
        have := congrArg (getUint64 · "timestamp") heq
        simpa only [timestamp_saveItem, Option.some.injEq] using this
      have hkept : retained now r' = true := (List.mem_filter.mp hr').2
      rw [← htime]
      exact ((age_lt_iff _ _).mp (of_decide_eq_true hkept)).1
  · intro h
    refine (filter_sublist_filter ?_).map (saveItem c)
    intro r hr hold
    exact decide_eq_true ((age_lt_iff _ _).mpr ⟨h r hr, of_decide_eq_true hold⟩)

/-- A save drops only old records exactly when no record is ahead of its clock
reading. -/
theorem retention_iff (now : UInt64) (m : PkgInstallHistory) (rows : List BgDownloadData) :
    (PackagesKept c now m ∧ DownloadsKept c now rows) ↔
      (∀ it ∈ m.entries, NotAhead now it.2.timestamp) ∧ ∀ r ∈ rows, NotAhead now r.timestamp := by
  rw [packagesKept_iff, downloadsKept_iff]

/-- The clock was set back: a package and a download in progress are dropped. -/
theorem retention_clockBack :
    ¬ PackagesKept ⟨some, some⟩ 4 ⟨[savedPackage], List.pairwise_singleton _ _⟩ ∧
      ¬ DownloadsKept ⟨some, some⟩ 4 [savedDownload] := by
  constructor
  · intro h
    exact absurd ((packagesKept_iff _ _ _).mp h savedPackage List.mem_cons_self) (by decide)
  · intro h
    exact absurd ((downloadsKept_iff _ _ _).mp h savedDownload List.mem_cons_self) (by decide)

end EzRemote.History

import EzRemote.History.DownloadDurable
import EzRemote.History.PackageDurable

/-!
# No accepted request is lost

In every run of the server with both stores, a request that has returned is in
its history file until a later request replaces it, its row was cleared and
swept, or it is old.
-/

namespace EzRemote.History

open Download

variable {c : Cipher}

/-- What no accepted request may miss, at every moment of a run. -/
structure NoneLost (c : Cipher) (s : Server) : Prop where
  downloads : ∀ n ∈ s.downloads.returned, ∃ q, s.downloads.requests[n]? = some q ∧
    (n ∈ s.downloads.erased.map Prod.fst ∨ Old s.clock q.timestamp ∨
      ∃ r, (n, r) ∈ s.downloads.fileSerials.zip (loadedRows c s.downloads.base) ∧
        r.asAdded = requestOf c q)
  downloadsOnce : s.downloads.fileSerials.Nodup ∧
    s.downloads.fileSerials.length = (s.downloads.base.file.getD []).length
  packages : ∀ i ∈ s.packages.returned, ∃ it, s.packages.adds[i]? = some it ∧
    ((∃ j it', i < j ∧ s.packages.adds[j]? = some it' ∧ it'.1 = it.1) ∨
      Old s.clock it.2.timestamp ∨
      ∃ o ∈ s.packages.file.getD [], loadPackageItem c o = some (reloadedPackage c it))
  packagesOnce : ((s.packages.file.getD []).map fun o => jsonGetString o "hash").Nodup

/-- What every run of the server keeps. -/
structure Kept (c : Cipher) (s : Server) : Prop where
  downloadsSound : DownloadsSound c s.clock s.downloads
  downloadsSafe : (downloadsDurable s.clock s.downloads).Safe
  packagesSound : PackagesSound c s.clock s.packages
  packagesSafe : (s.packages.durable c s.clock).Safe

theorem downloads_trackedStep {clock clock' : UInt64} {t t' : Tracked}
    {a : TrackedAction} (h : DownloadsSound c clock t) (hle : clock.toNat ≤ clock'.toNat)
    (hnow : ∀ now, clockOf a = some now → now = clock') (hone : a ≠ .run .restart)
    (st : trackedStep c t a = some t') :
    DownloadsSound c clock' t' ∧
      Durable.Step (downloadsDurable clock t) (downloadsDurable clock' t') := by
  have hn := numbered_step h.numbered st
  cases a with
  | run a =>
    have hone' : a ≠ .restart := fun heq => hone (heq ▸ rfl)
    exact ⟨downloadsSound_run h hle hnow hone' st, downloads_step h hle hnow (tracked_cases st)⟩
  | getDownloadState k =>
    cases getDownloadState_eq st
    exact ⟨downloadsSound_reader h hle hn rfl rfl rfl rfl,
      downloads_keep hle rfl rfl rfl rfl rfl rfl⟩
  | visitState k =>
    obtain ⟨g, -, rfl | ⟨n, r, -, rfl⟩⟩ := visitState_cases st
    · exact ⟨downloadsSound_reader h hle hn rfl rfl rfl rfl,
        downloads_keep hle rfl rfl rfl rfl rfl rfl⟩
    · exact ⟨downloadsSound_reader h hle hn rfl rfl rfl rfl,
        downloads_keep hle rfl rfl rfl rfl rfl rfl⟩

/-- What a restart relies on. -/
def Reloads (c : Cipher) : Prop := ReloadsPackages c ∧ ReloadsRequests c

theorem kept_step {s s' : Server} {a : ServerAction} (hc : noRestart s a ∨ Reloads c)
    (h : Kept c s) (st : serverStep c s a = some s') : Kept c s' := by
  cases a with
  | download a =>
    unfold serverStep at st
    dsimp only at st
    split at st
    · cases st
    · rename_i hone
      obtain ⟨clock, htick, st⟩ := Option.bind_eq_some_iff.mp st
      obtain ⟨t, ht, rfl⟩ := Option.map_eq_some_iff.mp st
      obtain ⟨hle, hnow⟩ := tick_cases htick
      obtain ⟨hsound, hdurable⟩ := downloads_trackedStep h.downloadsSound hle hnow hone ht
      exact ⟨hsound, h.downloadsSafe.step hdurable, h.packagesSound.mono hle,
        h.packagesSafe.step (packages_tick s.packages hle)⟩
  | package k a =>
    obtain ⟨clock, htick, st⟩ := Option.bind_eq_some_iff.mp st
    obtain ⟨p, hp, rfl⟩ := Option.map_eq_some_iff.mp st
    obtain ⟨hle, hnow⟩ := tick_cases htick
    have hst := store_cases hp
    exact ⟨downloadsSound_reader h.downloadsSound hle h.downloadsSound.numbered rfl rfl rfl rfl,
      h.downloadsSafe.step (downloads_keep hle rfl rfl rfl rfl rfl rfl),
      packagesSound_step h.packagesSound hle hnow hst,
      h.packagesSafe.step (packages_step h.packagesSound hle hnow hst)⟩
  | restart =>
    have hc := hc.resolve_left id
    obtain ⟨t, ht, st⟩ := Option.bind_eq_some_iff.mp st
    obtain ⟨p, hp, rfl⟩ := Option.map_eq_some_iff.mp st
    have hdurable := downloads_step h.downloadsSound (Nat.le_refl _) (fun _ hn => by cases hn)
      (tracked_cases ht)
    exact ⟨downloadsSound_restart hc.2 h.downloadsSound ht, h.downloadsSafe.step hdurable,
      packagesSound_boot h.packagesSound hp,
      h.packagesSafe.step (packages_boot hc.1 h.packagesSound hp)⟩

theorem kept_reachable {ok : Server → ServerAction → Prop}
    (hc : ∀ s a, ok s a → noRestart s a ∨ Reloads c) {s : Server} (h : ServerReachable c ok s) :
    Kept c s := by
  apply Transition.Reachable.invariant h
  · rintro s ⟨clock, n, m, l, base, hb, rfl⟩
    obtain ⟨hlist, hfile⟩ := boot_none hb
    have hreach : TrackedReachable c Transition.anyStep
        (Tracked.start base m) := .start ⟨n, m, base, hb, rfl⟩
    have hrows : (Tracked.start base m).rows = [] := by
      show (List.range base.bgDownloadList.length).zip base.bgDownloadList = []
      rw [hlist]
      rfl
    refine ⟨⟨hreach.base, hreach.numbered, ?_, ?_, ?_, ?_⟩, Durable.safe_empty ?_ rfl,
      ⟨?_, ?_, ?_, .inl rfl⟩, Durable.safe_empty ?_ rfl⟩
    · intro n r hr
      rw [hrows] at hr
      cases hr
    · intro n r hr
      have hin : r ∈ loadedRows c base := (List.of_mem_zip hr).2
      rw [← (boot_eq hb).2.2.2, hlist] at hin
      cases hin
    · intro q hq
      have hin : q ∈ base.bgDownloadList := hq
      rw [hlist] at hin
      cases hin
    · intro k row hk
      change base.handlers[k]? = _ at hk
      rw [(boot_eq hb).2.2.1] at hk
      cases List.eq_of_mem_replicate (List.mem_of_getElem? hk)
    · exact Set.eq_empty_of_forall_notMem fun n hn => by cases hn
    · intro it hit
      cases hit
    · intro it hit
      cases hit
    · intro k it hk
      cases List.eq_of_mem_replicate (List.mem_of_getElem? hk)
    · exact Set.eq_empty_of_forall_notMem fun n hn => by cases hn
  · intro s a s' hs hok st
    exact kept_step (hc s a hok) hs st

theorem nodup_hashes {clock : UInt64} {s : PackageStore}
    (h : PackagesSound c clock s) :
    ((s.file.getD []).map fun o => jsonGetString o "hash").Nodup := by
  rcases h.file with hf | ⟨now, m, hm, hf⟩
  · rw [hf]
    exact .nil
  · rw [hf, Option.getD_some]
    show (((m.filter (retainedPackage now)).entries.map (savePackageItem c)).map _).Nodup
    rw [List.map_map, List.Nodup, List.pairwise_map]
    refine (m.filter (retainedPackage now)).sorted.imp_of_mem ?_
    intro e e' he he' hlt heq
    have hhash : ∀ e, jsonGetString (savePackageItem c e) "hash" = some (cStr e.1) := fun _ => rfl
    dsimp only [Function.comp_apply] at heq
    rw [hhash, hhash, cStr_of_notMem (hm e (List.mem_of_mem_filter he)).1,
      cStr_of_notMem (hm e' (List.mem_of_mem_filter he')).1] at heq
    rw [Option.some.inj heq] at hlt
    exact List.lt_irrefl _ hlt

theorem noneLost_of_kept {s : Server} (hk : Kept c s) : NoneLost c s := by
  have hnum := hk.downloadsSound.numbered
  have hlen : s.downloads.fileSerials.length =
      (loadedRows c s.downloads.base).length := by
    rw [hnum.aligned.file]
    unfold loadedRows
    rcases file_saved hk.downloadsSound.reachable with hf | ⟨now, rows, hf⟩
    · rw [hf]
      rfl
    · rw [hf, Option.map_some, load_save]
      simp [saveBgDownloadData]
  refine ⟨?_, ⟨hnum.fileIncreasing.imp Nat.ne_of_lt, hnum.aligned.file⟩, ?_,
    nodup_hashes hk.packagesSound⟩
  · intro n hn
    rcases hk.downloadsSafe.file hn with hfile | ⟨q, hq, herased | hold⟩
    · -- the row at the place of its number is the one of the request
      obtain ⟨r, hin⟩ := exists_mem_zip hlen hfile
      obtain ⟨q, hq, heq⟩ := Option.map_eq_some_iff.mp (hk.downloadsSound.fileRequested n _ hin)
      exact ⟨q, hq, .inr (.inr ⟨_, hin, heq.symm⟩)⟩
    · exact ⟨q, hq, .inl herased⟩
    · exact ⟨q, hq, .inr (.inl hold)⟩
  · intro i hi
    rcases hk.packagesSafe.file hi with ⟨it, hit, ho⟩ | ⟨it, hit, hold | hlater⟩
    · exact ⟨it, hit, .inr (.inr ho)⟩
    · exact ⟨it, hit, .inr (.inl hold)⟩
    · exact ⟨it, hit, .inl hlater⟩

/-- A request that has returned is in its history file at every later moment,
once, until it is replaced, cleared and swept, or old: in every process that
starts with empty stores, and across restarts with a cipher that restores what
it is given. -/
theorem no_request_lost :
    (∀ (c : Cipher) s, ServerReachable c noRestart s → NoneLost c s) ∧
    ∀ (aes : Aes) outside, aes.Lawful → (∀ k, outside k ≠ Base64.padding) →
      ∀ s, ServerReachable (aes.cipher outside) Transition.anyStep s →
        NoneLost (aes.cipher outside) s := by
  constructor
  · intro c s h
    exact noneLost_of_kept (kept_reachable (fun _ _ hok => .inl hok) h)
  · intro aes outside ha ho s h
    have hc : Reloads (aes.cipher outside) :=
      ⟨reloadedPackage_reloadedPackage ha ho, requestOf_reloaded ha ho⟩
    exact noneLost_of_kept (kept_reachable (fun _ _ _ => .inr hc) h)

/-- A package and a download are added and saved in turns. -/
def bothRun : List ServerAction :=
  [.package 0 (.storeBgInstallData
      { hash := bytes "h", hostInfo := smallRequest.hostInfo, path := bytes "/p", size := 3
        plain := by decide } 1000),
    .download (.run (.handler 0 (.downloadUrl smallRequest 1001))), .package 0 .add,
    .download (.run (.handler 0 .add)), .download (.run (.handler 0 (.save 1002))),
    .package 0 (.save 1003), .restart]

theorem no_request_lost_both : ∃ s,
    ServerReachable (paddedAes.cipher fun _ => 0) Transition.anyStep s ∧
    (s.downloads.returned, s.packages.returned, s.clock) = ([0], [0], 1003) ∧
    NoneLost (paddedAes.cipher fun _ => 0) s := by
  obtain ⟨s, hs, ho⟩ := exists_serverReachable (paddedAes.cipher fun _ => 0) 0 1 0 1 bothRun
    (fun s => (s.downloads.returned, s.packages.returned, s.clock)) ([0], [0], 1003) (by decide)
  exact ⟨s, hs, ho, no_request_lost.2 _ _ paddedAes_lawful (fun _ => by decide) s hs⟩

end EzRemote.History

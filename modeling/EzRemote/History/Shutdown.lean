import Mathlib.Data.Countable.Basic
import Mathlib.Logic.Equiv.List
import Mathlib.Tactic.DeriveCountable
import EzRemote.Lib.Rewrite
import EzRemote.Download.Restart
import EzRemote.History.PackageStore

/-!
# The end of the process during a save

`json_object_to_file` truncates the history file and writes its text in pieces.
The process may end between any two of these steps: `/stop` cancels the download
thread and calls `_exit`, and the power may fail.
-/

namespace EzRemote.History

open Download

/-- A clock reading is taken and the file is opened by these steps. -/
def StoreAction.saveTime : StoreAction → Option UInt64
  | .save now => some now
  | _ => none

/-- Both stores with their files on disk.  A save that runs holds the mutex of
its store; the file that the stores themselves record plays no part. -/
structure Console where
  downloads : State
  packages : PackageStore
  downloadFile : Rewrite (List JsonObject) UInt8
  packageFile : Rewrite (List JsonObject) UInt8
  downloadSaver : Option Action
  packageSaver : Option (Nat × StoreAction)

/-- A step that saves nothing, the three parts of a save, for each store, and the
end of the process with the start of the next one. -/
inductive ConsoleAction
  | download (a : Action)
  | truncateDownloads (a : Action)
  | writeDownloads (n : Nat)
  | finishDownloads
  | package (k : Nat) (a : StoreAction)
  | truncatePackages (k : Nat) (a : StoreAction)
  | writePackages (n : Nat)
  | finishPackages
  | restart

/-- `AddBgDownloadData` waits for `download_mutex_`. -/
def addsDownload : Action → Bool
  | .handler _ .add => true
  | _ => false

/-- `AddPackageInstallHostData` waits for `pkg_mutex_`. -/
def addsPackage : StoreAction → Bool
  | .add => true
  | _ => false

variable (c : Cipher) (fmt : TextFormat (List JsonObject) UInt8)

def consoleStep (s : Console) : ConsoleAction → Option Console
  | .download a =>
    if a.saveTime.isSome ∨ a = .restart ∨ s.downloadSaver.isSome ∧ addsDownload a then none
    else (step c s.downloads a).map fun d => { s with downloads := d }
  | .truncateDownloads a =>
    if s.downloadSaver.isSome then none
    else a.saveTime.bind fun now => (step c s.downloads a).map fun _ =>
      { s with
        downloadFile := s.downloadFile.truncate fmt
          (saveBgDownloadData c now s.downloads.bgDownloadList)
        downloadSaver := some a }
  | .writeDownloads n =>
    if s.downloadSaver.isSome then
      (s.downloadFile.write n).map fun f => { s with downloadFile := f }
    else none
  | .finishDownloads =>
    s.downloadSaver.bind fun a => s.downloadFile.finish.bind fun f =>
      (step c s.downloads a).map fun d =>
        { s with downloads := d, downloadFile := f, downloadSaver := none }
  | .package k a =>
    if a.saveTime.isSome ∨ s.packageSaver.isSome ∧ addsPackage a then none
    else (s.packages.step c k a).map fun p => { s with packages := p }
  | .truncatePackages k a =>
    if s.packageSaver.isSome then none
    else a.saveTime.bind fun now => (s.packages.step c k a).map fun _ =>
      { s with
        packageFile := s.packageFile.truncate fmt
          (savePackageInstallHostData c now s.packages.pkgInstallHistory).2
        packageSaver := some (k, a) }
  | .writePackages n =>
    if s.packageSaver.isSome then
      (s.packageFile.write n).map fun f => { s with packageFile := f }
    else none
  | .finishPackages =>
    s.packageSaver.bind fun ka => s.packageFile.finish.bind fun f =>
      (s.packages.step c ka.1 ka.2).map fun p =>
        { s with packages := p, packageFile := f, packageSaver := none }
  | .restart =>
    (boot c (s.downloadFile.disk.bind fmt.parse) s.downloads.handlers.length).bind fun d =>
      ({ s.packages with file := s.packageFile.disk.bind fmt.parse }.boot c).map fun p =>
        { s with downloads := d, packages := p, downloadSaver := none, packageSaver := none }

/-- Runs that begin without history files. -/
def ConsoleReachable : Console → Prop :=
  Transition.Reachable
    (fun s => ∃ n l d, boot c none n = some d ∧
      s = ⟨d, .initial l, .absent, .absent, none, none⟩)
    (consoleStep c fmt) Transition.anyStep

variable {c fmt}

/-- The files of a console are always a whole text or a part of one. -/
def WellWritten (fmt : TextFormat (List JsonObject) UInt8) (s : Console) : Prop :=
  s.downloadFile.Consistent fmt ∧ s.packageFile.Consistent fmt

theorem wellWritten_step {s s' : Console} {a : ConsoleAction} (h : WellWritten fmt s)
    (st : consoleStep c fmt s a = some s') : WellWritten fmt s' := by
  -- only the writes of the two files matter, and each keeps a beginning of its text
  cases a with
  | download a =>
    unfold consoleStep at st
    dsimp only at st
    split at st
    · cases st
    · obtain ⟨d, -, rfl⟩ := Option.map_eq_some_iff.mp st
      exact h
  | truncateDownloads a =>
    unfold consoleStep at st
    dsimp only at st
    split at st
    · cases st
    · obtain ⟨now, -, st⟩ := Option.bind_eq_some_iff.mp st
      obtain ⟨d, -, rfl⟩ := Option.map_eq_some_iff.mp st
      exact ⟨Rewrite.consistent_truncate _, h.2⟩
  | writeDownloads n =>
    unfold consoleStep at st
    dsimp only at st
    split at st
    · obtain ⟨f, hf, rfl⟩ := Option.map_eq_some_iff.mp st
      exact ⟨Rewrite.consistent_write h.1 hf, h.2⟩
    · cases st
  | finishDownloads =>
    obtain ⟨a, -, st⟩ := Option.bind_eq_some_iff.mp st
    obtain ⟨f, hf, st⟩ := Option.bind_eq_some_iff.mp st
    obtain ⟨d, -, rfl⟩ := Option.map_eq_some_iff.mp st
    exact ⟨Rewrite.consistent_finish h.1 hf, h.2⟩
  | package k a =>
    unfold consoleStep at st
    dsimp only at st
    split at st
    · cases st
    · obtain ⟨p, -, rfl⟩ := Option.map_eq_some_iff.mp st
      exact h
  | truncatePackages k a =>
    unfold consoleStep at st
    dsimp only at st
    split at st
    · cases st
    · obtain ⟨now, -, st⟩ := Option.bind_eq_some_iff.mp st
      obtain ⟨p, -, rfl⟩ := Option.map_eq_some_iff.mp st
      exact ⟨h.1, Rewrite.consistent_truncate _⟩
  | writePackages n =>
    unfold consoleStep at st
    dsimp only at st
    split at st
    · obtain ⟨f, hf, rfl⟩ := Option.map_eq_some_iff.mp st
      exact ⟨h.1, Rewrite.consistent_write h.2 hf⟩
    · cases st
  | finishPackages =>
    obtain ⟨ka, -, st⟩ := Option.bind_eq_some_iff.mp st
    obtain ⟨f, hf, st⟩ := Option.bind_eq_some_iff.mp st
    obtain ⟨p, -, rfl⟩ := Option.map_eq_some_iff.mp st
    exact ⟨h.1, Rewrite.consistent_finish h.2 hf⟩
  | restart =>
    obtain ⟨d, -, st⟩ := Option.bind_eq_some_iff.mp st
    obtain ⟨p, -, rfl⟩ := Option.map_eq_some_iff.mp st
    exact h

theorem wellWritten_reachable {s : Console} (h : ConsoleReachable c fmt s) :
    WellWritten fmt s := by
  apply Transition.Reachable.invariant h
  · rintro s ⟨n, l, d, -, rfl⟩
    exact ⟨Rewrite.consistent_absent, Rewrite.consistent_absent⟩
  · intro s a s' hs _ st
    exact wellWritten_step hs st

/-- If the process ends here, the next one loads the downloads of the last
completed save or of the one in progress. -/
def DownloadsSurvive (c : Cipher) (fmt : TextFormat (List JsonObject) UInt8) (s : Console) :
    Prop :=
  s.downloadFile.Survives fmt (loadBgDownloadData c) (some [])

def PackagesSurvive (c : Cipher) (fmt : TextFormat (List JsonObject) UInt8) (s : Console) :
    Prop :=
  s.packageFile.Survives fmt (loadPackageInstallHostData c) (some .empty)

/-- The save that began last has written its whole text, or what was there
before, or what it saves, is nothing. -/
def WrittenOut {δ : Type} (load : List JsonObject → δ) (nothing : δ)
    (f : Rewrite (List JsonObject) UInt8) : Prop :=
  ∀ content rest, f.saving = some (content, rest) →
    rest = [] ∨ f.lastSaved load nothing = nothing ∨ load content = nothing

/-- The end of the process loses nothing exactly when it does not come between
the truncation of a file and the last piece of a text. -/
theorem shutdown_survives_iff (hd : Rewrite.Reads fmt (loadBgDownloadData c))
    (hp : Rewrite.Reads fmt (loadPackageInstallHostData c)) {s : Console}
    (h : ConsoleReachable c fmt s) :
    (DownloadsSurvive c fmt s ↔ WrittenOut (loadBgDownloadData c) (some []) s.downloadFile) ∧
    (PackagesSurvive c fmt s ↔
      WrittenOut (loadPackageInstallHostData c) (some .empty) s.packageFile) := by
  obtain ⟨hdown, hpack⟩ := wellWritten_reachable h
  exact ⟨Rewrite.survives_iff hd hdown, Rewrite.survives_iff hp hpack⟩

/-- A state of the download system with its file written out, and no packages. -/
def Console.ofDownloads (fmt : TextFormat (List JsonObject) UInt8) (l : Nat) (s : State) :
    Console :=
  { downloads := s
    packages := .initial l
    downloadFile := ⟨s.file.map fmt.text, s.file, none⟩
    packageFile := .absent
    downloadSaver := none
    packageSaver := none }

theorem finish_write {fmt : TextFormat (List JsonObject) UInt8}
    (f : Rewrite (List JsonObject) UInt8) (content : List JsonObject) :
    ((f.truncate fmt content).write (fmt.text content).length).bind Rewrite.finish =
      some ⟨some (fmt.text content), some content, none⟩ := by
  unfold Rewrite.truncate Rewrite.write Rewrite.finish
  simp

theorem console_save {l : Nat} {s t : State} {a : Action} {now : UInt64}
    (h : ConsoleReachable c fmt (Console.ofDownloads fmt l s)) (hn : a.saveTime = some now)
    (hs : step c s a = some t) : ConsoleReachable c fmt (Console.ofDownloads fmt l t) := by
  let content := saveBgDownloadData c now s.bgDownloadList
  let f := (Console.ofDownloads fmt l s).downloadFile
  have hfile : t.file = some content := file_of_saveTime hn hs
  have hwrite : ((f.truncate fmt content).write (fmt.text content).length).bind Rewrite.finish =
      some ⟨some (fmt.text content), some content, none⟩ := finish_write f content
  obtain ⟨g, hw, hg⟩ := Option.bind_eq_some_iff.mp hwrite
  have h₁ : ConsoleReachable c fmt { Console.ofDownloads fmt l s with
      downloadFile := f.truncate fmt content, downloadSaver := some a } := by
    refine .next (a := .truncateDownloads a) h trivial ?_
    show (a.saveTime.bind fun now => (step c s a).map fun _ => _) = _
    rw [hn, hs]
    rfl
  have h₂ : ConsoleReachable c fmt { Console.ofDownloads fmt l s with
      downloadFile := g, downloadSaver := some a } := by
    refine .next (a := .writeDownloads (fmt.text content).length) h₁ trivial ?_
    unfold consoleStep
    dsimp only
    rw [Option.isSome_some, if_pos rfl, hw]
    rfl
  refine .next (a := .finishDownloads) h₂ trivial ?_
  show (g.finish.bind fun f => (step c s a).map fun d => _) = _
  rw [hg, hs]
  show some _ = some _
  unfold Console.ofDownloads
  rw [hfile]
  rfl

/-- Runs of the download system within one process are runs of the console in
which no save is interrupted. -/
theorem console_of_reachable {s : State} (l : Nat)
    (h : Reachable c (fun _ a => a ≠ .restart) s) :
    ConsoleReachable c fmt (Console.ofDownloads fmt l s) := by
  induction h with
  | @start s h0 =>
    obtain ⟨n, hn⟩ := h0
    have hfile : s.file = none := (boot_eq hn).2.1
    refine .start ⟨n, l, s, hn, ?_⟩
    unfold Console.ofDownloads
    rw [hfile]
    rfl
  | @next s t a _ hok hs ih =>
    cases hn : a.saveTime with
    | some now => exact console_save ih hn hs
    | none =>
      have hfile : t.file = s.file := by
        rcases file_step hs with hf | ⟨now, hn', -⟩
        · exact hf
        · rw [hn] at hn'
          cases hn'
      refine .next (a := .download a) ih trivial ?_
      have hcond : ¬ (a.saveTime.isSome ∨ a = .restart ∨
          (Console.ofDownloads fmt l s).downloadSaver.isSome ∧ addsDownload a) := by
        rintro (hsome | hrestart | ⟨hsaver, -⟩)
        · rw [hn] at hsome
          cases hsome
        · exact hok hrestart
        · cases hsaver
      unfold consoleStep
      dsimp only
      rw [if_neg hcond, show step c (Console.ofDownloads fmt l s).downloads a = some t from hs]
      unfold Console.ofDownloads
      rw [hfile]
      rfl

instance countableUInt8 : Countable UInt8 :=
  Function.Injective.countable fun _ _ => UInt8.toNat_inj.mp
instance countableUInt64 : Countable UInt64 :=
  Function.Injective.countable fun _ _ => UInt64.toNat_inj.mp
instance countableChar : Countable Char := Function.Injective.countable fun _ _ => Char.toNat_inj.mp
instance countableString : Countable String :=
  Function.Injective.countable fun _ _ => String.toList_inj.mp
instance countableBytes : Countable Bytes := inferInstanceAs (Countable (List UInt8))

deriving instance Countable for Json

def smallRow (state : DownloadState) : BgDownloadData :=
  { hostInfo := smallRequest.hostInfo, srcPath := smallRequest.srcPath
    destPath := smallRequest.destPath, bytesTransfered := 0, fileSize := smallRequest.size
    state := state, id := smallRequest.id, timestamp := 1000, failedAttempts := 0 }

def smallContent (state : DownloadState) : List JsonObject :=
  saveBgDownloadData plainCipher 1001 [smallRow state]

def smallText (digit : String) : Bytes :=
  bytes "[\x7b\"type\":2,\"url\":\"nas\",\"username\":\"\",\"password\":\"\"," ++
  bytes "\"src_path\":\"\\/a\",\"dest_path\":\"\\/b\",\"file_size\":3," ++
  bytes "\"bytes_transfered\":0,\"state\":" ++ bytes digit ++
  bytes ",\"id\":1,\"timestamp\":1000,\"failed_attempts\":0\x7d]"

/-- The texts of the empty list and of the row before and during its transfer. -/
def smallTexts : List (List JsonObject × Bytes) :=
  [([], bytes "[]"), (smallContent .pending, smallText "0"),
    (smallContent .downloading, smallText "1")]

theorem exists_smallFormat : ∃ fmt : TextFormat (List JsonObject) UInt8,
    (∀ p ∈ smallTexts, fmt.text p.1 = p.2) ∧
    Rewrite.Reads fmt (loadBgDownloadData plainCipher) ∧
    Rewrite.Reads fmt (loadPackageInstallHostData plainCipher) := by
  obtain ⟨code, hcode⟩ := Countable.exists_injective_nat (List JsonObject)
  have hfree : ∀ p ∈ smallTexts, ∀ q ∈ smallTexts, p.2 <+: q.2 → p.1 = q.1 := by
    decide +kernel
  have hother : ∀ p ∈ smallTexts, (bytes "[0").length ≤ p.2.length ∧ ¬ bytes "[0" <+: p.2 := by
    decide +kernel
  have hprefix := Rewrite.codeWord_prefix smallTexts (bytes "[0") 48 93 code hcode (by decide)
    hfree hother
  refine ⟨Rewrite.codeFormat (Rewrite.codeWord smallTexts (bytes "[0") 48 93 code), ?_,
    Rewrite.reads_codeFormat hprefix _, Rewrite.reads_codeFormat hprefix _⟩
  exact fun p hp => Rewrite.codeWord_of_mem smallTexts _ _ _ _ (by decide) hp

/-- A row is queued and saved; its download begins. -/
def startedRun : List Action :=
  [.handler 0 (.downloadUrl smallRequest 1000), .handler 0 .add, .handler 0 (.save 1000),
    .thread .go, .thread .go, .thread .go, .thread .go, .thread (.acquired true), .thread .go]

theorem startedRun_reachable : ∃ s, Reachable plainCipher (fun _ a => a ≠ .restart) s ∧
    (s.file, s.pc, s.bgDownloadList) =
      (some (smallContent .pending), .startSave 0, [smallRow .downloading]) :=
  exists_reachable plainCipher (fun _ a => a ≠ .restart) 1 startedRun _ _ (by decide +kernel)

/-- Between two saves nothing is lost. -/
theorem shutdown_survives_idle : ∃ fmt s, ConsoleReachable plainCipher fmt s ∧
    s.downloadFile.disk = some (smallText "0") ∧
    DownloadsSurvive plainCipher fmt s ∧ PackagesSurvive plainCipher fmt s := by
  obtain ⟨fmt, htext, hd, hp⟩ := exists_smallFormat
  obtain ⟨s, hs, ho⟩ := startedRun_reachable
  simp only [Prod.mk.injEq] at ho
  have hc : ConsoleReachable plainCipher fmt (Console.ofDownloads fmt 1 s) :=
    console_of_reachable 1 hs
  have hiff := shutdown_survives_iff hd hp hc
  refine ⟨fmt, _, hc, ?_, hiff.1.mpr (fun _ _ h => by cases h), hiff.2.mpr (fun _ _ h => by cases h)⟩
  show s.file.map fmt.text = _
  rw [ho.1, Option.map_some, htext (smallContent .pending, smallText "0") (by simp [smallTexts])]

/-- The process ends right after the save of the started download has truncated
the file: the next one finds an empty queue. -/
theorem shutdown_survives_truncated : ¬ ∀ c fmt,
    Rewrite.Reads fmt (loadBgDownloadData c) →
    Rewrite.Reads fmt (loadPackageInstallHostData c) →
    ∀ s, ConsoleReachable c fmt s → DownloadsSurvive c fmt s := by
  intro hall
  obtain ⟨fmt, htext, hd, hp⟩ := exists_smallFormat
  obtain ⟨s, hs, ho⟩ := startedRun_reachable
  simp only [Prod.mk.injEq] at ho
  obtain ⟨hfile, hpc, hlist⟩ := ho
  let t : Console := { Console.ofDownloads fmt 1 s with
    downloadFile := (Console.ofDownloads fmt 1 s).downloadFile.truncate fmt
      (smallContent .downloading)
    downloadSaver := some (.thread (.save 1001)) }
  have ht : ConsoleReachable plainCipher fmt t := by
    refine .next (a := .truncateDownloads (.thread (.save 1001)))
      (console_of_reachable 1 hs) trivial ?_
    show ((stepThread plainCipher s s.pc (.save 1001)).map fun _ => _) = _
    rw [hpc]
    show some _ = some _
    unfold Console.ofDownloads
    dsimp only
    rw [hlist]
    rfl
  have hwritten := (shutdown_survives_iff hd hp ht).1.mp (hall plainCipher fmt hd hp t ht)
  rcases hwritten (smallContent .downloading) (fmt.text (smallContent .downloading)) rfl
    with htext' | hlast | hnew
  · rw [htext (smallContent .downloading, smallText "1") (by simp [smallTexts])] at htext'
    revert htext'
    decide
  · change (s.file.map (loadBgDownloadData plainCipher)).getD (some []) = some [] at hlast
    rw [hfile] at hlast
    revert hlast
    decide
  · revert hnew
    decide

end EzRemote.History

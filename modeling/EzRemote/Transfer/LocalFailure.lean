import EzRemote.Download.History
import EzRemote.Ftp.LocalFile
import EzRemote.Transfer.Http
import EzRemote.Transfer.Resume

/-!
# Local failures

What becomes of a row when the server delivers its file and the local calls
fail: the opens, the writes, the seek and the rename of one attempt, for each
client class.
-/

namespace EzRemote.Transfer

open Download (DownloadState)

/-- A client during one attempt, with what its server does. -/
inductive Source
  | copy (client : CopyClient) (files : Bytes → RemoteFile)
  | http (client : BaseClient) (send : HttpRequest → HttpReply)
  | ftp (w : Ftp.World) (srv : Ftp.Server) (s : Ftp.Session)

namespace Source

/-- `Get`: its value and the temp file it leaves. -/
def get (disk : LocalDisk) (tempFile srcPath : Bytes) (temp : Option Bytes) (offset : Nat) :
    Source → Option (Int × Option Bytes)
  | .copy client files =>
    let r := client.get files disk ⟨temp, 0⟩ srcPath offset
    some (r.1, r.2.file)
  | .http client send =>
    let r := client.get send disk ⟨temp, 0⟩ srcPath offset
    some (r.1, r.2.file)
  | .ftp w srv s =>
    (Ftp.get { w with disk := disk } srv tempFile srcPath (UInt64.ofNat offset)
      { s with trace := [] }).map fun r => (r.1, Ftp.fileAfter temp r.2.trace)

/-- `BaseClient::Get` goes on without its output file. -/
def checksOpen : Source → Bool
  | .http _ _ => false
  | .copy _ _ | .ftp _ _ _ => true

/-- Whether a class writes on after its `k`-th write: the copy loops always, an
`std::ofstream` while it is good, `FtpXfer` unless `fwrite` reports 0. -/
def goesOn (disk : LocalDisk) : Source → Nat → Bytes → Bool
  | .copy _ _ => fun _ _ => true
  | .http _ _ => fun k data => (disk.store k data).length = data.length
  | .ftp _ _ _ => Ftp.goesOn disk

end Source

/-- The pieces that the reads deliver from `pos` to the end of the file. -/
def piecesFrom (R : Bytes) : List Read → Nat → Option (List Bytes)
  | [], _ => none
  | .error :: _, _ => none
  | .data count :: reads, pos =>
    if R.length ≤ pos then some []
    else
      let data := slice R pos (readCount R pos count)
      (piecesFrom R reads (pos + data.length)).map (data :: ·)

theorem piecesFrom_flatten {R : Bytes} (reads : List Read) {pos : Nat} {pieces : List Bytes}
    (h : piecesFrom R reads pos = some pieces) : pieces.flatten = R.drop pos := by
  induction reads generalizing pos pieces with
  | nil => cases h
  | cons read reads ih =>
    cases read with
    | error => cases h
    | data count =>
      unfold piecesFrom at h
      by_cases hend : R.length ≤ pos
      · rw [if_pos hend] at h
        cases h
        exact (List.drop_eq_nil_of_le hend).symm
      · rw [if_neg hend] at h
        obtain ⟨rest, hrest, rfl⟩ := Option.map_eq_some_iff.mp h
        rw [List.flatten_cons, ih hrest, ← List.drop_drop]
        conv_rhs =>
          rw [← List.take_append_drop (slice R pos (readCount R pos count)).length (R.drop pos)]
        congr 1
        exact (slice_length R pos (readCount R pos count)).symm

/-- A copy loop that reaches the end of the file returns 1, whatever was
written. -/
theorem copyLoop_written {R : Bytes} (disk : LocalDisk) (reads : List Read) {pos : Nat}
    {pieces : List Bytes} (h : piecesFrom R reads pos = some pieces) (k : Nat) (content : Bytes)
    (bytesTransfered : Nat) :
    ∃ n, copyLoop R disk reads pos k ⟨some content, bytesTransfered⟩ =
      (1, ⟨some (content ++ disk.written (fun _ _ => true) k pieces), n⟩) := by
  induction reads generalizing pos pieces k content bytesTransfered with
  | nil => cases h
  | cons read reads ih =>
    cases read with
    | error => cases h
    | data count =>
      unfold piecesFrom at h
      unfold copyLoop
      by_cases hend : R.length ≤ pos
      · rw [if_pos hend] at h
        cases h
        rw [if_pos hend]
        exact ⟨bytesTransfered, by rw [LocalDisk.written, List.append_nil]⟩
      · rw [if_neg hend] at h
        obtain ⟨rest, hrest, rfl⟩ := Option.map_eq_some_iff.mp h
        rw [if_neg hend]
        obtain ⟨n, hn⟩ := ih hrest (k + 1)
          (content ++ disk.store k (slice R pos (readCount R pos count)))
          (bytesTransfered + (slice R pos (readCount R pos count)).length)
        refine ⟨n, ?_⟩
        rw [LocalDisk.written, if_pos rfl, ← List.append_assoc]
        exact hn

theorem receiveBody_written (disk : LocalDisk) (k : Nat) (content : Bytes) (body : List Bytes) :
    receiveBody disk k true content body =
      content ++ disk.written (fun k data => (disk.store k data).length = data.length) k body := by
  have hbad : ∀ (body : List Bytes) (k : Nat) (content : Bytes),
      receiveBody disk k false content body = content := by
    intro body
    induction body with
    | nil => intro k content; rfl
    | cons data body ih =>
      intro k content
      rw [receiveBody, if_neg (by decide), List.append_nil]
      exact ih (k + 1) content
  induction body generalizing k content with
  | nil => exact (List.append_nil content).symm
  | cons data body ih =>
    rw [receiveBody, LocalDisk.written, if_pos rfl]
    by_cases hgood : (disk.store k data).length = data.length
    · rw [decide_eq_true hgood, if_pos rfl, Bool.and_self, ih, List.append_assoc]
    · rw [decide_eq_false hgood, if_neg (by decide), Bool.and_false, hbad, List.append_nil]

/-- `libssh2_sftp_seek64` cannot fail. -/
def CopyClient.seeks : CopyClient → RemoteFile → Bool
  | .sftp, _ => true
  | .smb, remote | .nfs, remote => remote.seeks

theorem CopyClient.get_seeks (client : CopyClient) (files : Bytes → RemoteFile) (disk : LocalDisk)
    (t : Target) (path : Bytes) (offset : Nat) :
    client.get files disk t path offset =
      copyGet { files (client.remotePath path) with
        seeks := client.seeks (files (client.remotePath path)) } disk t offset := by
  cases client with
  | sftp => rfl
  | smb => rfl
  | nfs => rfl

namespace Source

/-- The server delivers `R` correctly: in `pieces`, from `offset` on, or from
`start = 0` where the remote seek has failed. -/
def Serves (R srcPath tempFile : Bytes) (offset start : Nat) (pieces : List Bytes) : Source → Prop
  | .copy client files =>
    let remote := files (client.remotePath srcPath)
    remote.content = R ∧ remote.opens = true ∧
      start = (if 0 < offset ∧ client.seeks remote = true then offset else 0) ∧
      piecesFrom R remote.reads start = some pieces
  | .http client send =>
    let reply := send (client.getRequest srcPath offset)
    reply.complete = true ∧ reply.body = pieces ∧ start = offset ∧
      pieces.flatten = R.drop offset
  | .ftp w srv s =>
    Ftp.NeverCancels w ∧
      Ftp.Serves w srv srcPath tempFile (UInt64.ofNat offset) pieces { s with trace := [] } ∧
      start = offset ∧ pieces.flatten = R.drop offset ∧ offset < 2 ^ 64

variable {src : Source} {disk : LocalDisk} {R srcPath name : Bytes} {offset start : Nat}
  {pieces : List Bytes} {temp : Option Bytes}

theorem Serves.flatten (h : src.Serves R srcPath name offset start pieces)
    (hstart : start = offset) : pieces.flatten = R.drop offset := by
  cases src with
  | copy client files => exact hstart ▸ piecesFrom_flatten _ h.2.2.2
  | http client send => exact h.2.2.2
  | ftp w srv s => exact h.2.2.2.1

/-- `Get` on a temp file that opens: 1, and what the writes left. -/
theorem Serves.get_opens (h : src.Serves R srcPath name offset start pieces)
    (hopen : disk.opens = true) (hname : name ≠ []) :
    src.get disk name srcPath temp offset = some (1,
      some ((Target.mk temp 0).opened offset ++ disk.written (src.goesOn disk) 0 pieces)) := by
  cases src with
  | copy client files =>
    obtain ⟨hcontent, hremote, hstart, hpieces⟩ := h
    obtain ⟨n, hn⟩ := copyLoop_written disk _ hpieces 0 ((Target.mk temp 0).opened offset) offset
    show some ((client.get files disk ⟨temp, 0⟩ srcPath offset).1,
      (client.get files disk ⟨temp, 0⟩ srcPath offset).2.file) = _
    rw [client.get_seeks]
    unfold copyGet
    dsimp only
    rw [hremote, hopen, if_neg (by decide), if_neg (by decide), ← hstart, hcontent, hn]
    rfl
  | http client send =>
    obtain ⟨hcomplete, hbody, -, -⟩ := h
    show some (((client.get send disk ⟨temp, 0⟩ srcPath offset).1 : Int),
      (client.get send disk ⟨temp, 0⟩ srcPath offset).2.file) = _
    unfold BaseClient.get
    dsimp only
    rw [hcomplete, hbody, hopen, if_pos rfl, if_pos rfl, receiveBody_written]
    rfl
  | ftp w srv s =>
    obtain ⟨hcb, hs, -, -, hoff⟩ := h
    have hserves : Ftp.Serves { w with disk := disk } srv srcPath name (UInt64.ofNat offset)
        pieces { s with trace := [] } := ⟨hs.accepted, hs.incoming, hs.pieces⟩
    obtain ⟨t, hget, hfile⟩ :=
      Ftp.get_written (w := { w with disk := disk }) hopen hcb hname hserves rfl temp
    show (Ftp.get { w with disk := disk } srv name srcPath _ _).map _ = _
    rw [hget, Option.map_some, hfile]
    have hzero : UInt64.ofNat offset = 0 ↔ ¬ 0 < offset := by
      rw [← UInt64.toNat_inj, UInt64.toNat_ofNat_of_lt' hoff]
      simp
    unfold Target.opened
    by_cases h0 : 0 < offset
    · rw [if_pos h0, if_neg (fun h => hzero.mp h h0)]
      rfl
    · rw [if_neg h0, if_pos (hzero.mpr h0)]
      rfl

/-- `Get` on a temp file that does not open leaves it alone, and tells only
where the class checks. -/
theorem Serves.get_notOpens (h : src.Serves R srcPath name offset start pieces)
    (hopen : disk.opens = false) (hname : name ≠ []) :
    src.get disk name srcPath temp offset =
      some (if src.checksOpen then 0 else 1, temp) := by
  cases src with
  | copy client files =>
    obtain ⟨-, hremote, -, -⟩ := h
    show some ((client.get files disk ⟨temp, 0⟩ srcPath offset).1,
      (client.get files disk ⟨temp, 0⟩ srcPath offset).2.file) = _
    rw [client.get_seeks]
    unfold copyGet
    dsimp only
    rw [hremote, hopen, if_neg (by decide), if_pos (by decide)]
    rfl
  | http client send =>
    obtain ⟨hcomplete, -, -, -⟩ := h
    show some (((client.get send disk ⟨temp, 0⟩ srcPath offset).1 : Int),
      (client.get send disk ⟨temp, 0⟩ srcPath offset).2.file) = _
    unfold BaseClient.get
    dsimp only
    rw [hcomplete, hopen, if_pos rfl, if_neg (by decide)]
    rfl
  | ftp w srv s =>
    obtain ⟨t, hget, hfile⟩ := Ftp.get_fails (w := { w with disk := disk }) hopen srv srcPath hname
      (UInt64.ofNat offset) (s := { s with trace := [] }) rfl temp
    show (Ftp.get { w with disk := disk } srv name srcPath _ _).map _ = _
    rw [hget, Option.map_some, hfile]
    rfl

end Source

/-- `temp_file`, an array of 2049 bytes that `snprintf` writes. -/
def tempFile (destPath : Bytes) : Bytes := (cStr destPath ++ bytes ".tmp").take 2048

theorem tempFile_ne_nil (destPath : Bytes) : tempFile destPath ≠ [] := by
  intro h
  have := congrArg List.length h
  rw [tempFile, List.length_take, List.length_append] at this
  simp [bytes] at this

/-- The offset of an attempt. -/
def attemptOffset (resumed : Bool) (files : Files) : Nat :=
  if resumed then resumeOffset ⟨files.temp, 0⟩ else 0

/-- What `DownloadFilesThread` makes of the value of `Get`. -/
def completeRow (disk : LocalDisk) (inRestMode resumed : Bool) (ret : Int) (files : Files) :
    DownloadState × Files :=
  if ret = 0 then
    (if inRestMode then (if resumed then .resumed else .downloading) else .failed, files)
  else (.success, files.rename disk.renames)

/-- One attempt of `DownloadFilesThread` on a row: its state and its files. -/
def attemptRow (src : Source) (disk : LocalDisk) (destPath srcPath : Bytes)
    (inRestMode resumed : Bool) (files : Files) : Option (DownloadState × Files) :=
  (src.get disk (tempFile destPath) srcPath files.temp (attemptOffset resumed files)).map fun r =>
    completeRow disk inRestMode resumed r.1 { files with temp := r.2 }

/-- What the temp file starts with once it is open. -/
def attemptStart (resumed : Bool) (files : Files) : Bytes :=
  (Target.mk files.temp 0).opened (attemptOffset resumed files)

theorem length_attemptStart (resumed : Bool) (files : Files) :
    (attemptStart resumed files).length = attemptOffset resumed files := by
  unfold attemptStart Target.opened
  by_cases h : 0 < attemptOffset resumed files
  · rw [if_pos h]
    cases resumed with
    | false => exact absurd h (Nat.lt_irrefl 0)
    | true =>
      show (files.temp.getD []).length = (files.temp.map List.length).getD 0
      cases files.temp <;> rfl
  · rw [if_neg h, List.length_nil]
    omega

/-- The local calls go well enough: the open fails where it is checked, or a
part of the remote file is continued and every write and the rename are done;
and the accidents by which a failure still leaves the remote file at
`dest_path`. -/
inductive LocalOk (src : Source) (disk : LocalDisk) (R : Bytes) (resumed : Bool) (files : Files)
    (start : Nat) (pieces : List Bytes) : Prop
  | notOpened : disk.opens = false → src.checksOpen = true →
      LocalOk src disk R resumed files start pieces
  | stored : disk.opens = true → disk.renames = true → attemptStart resumed files <+: R →
      start = attemptOffset resumed files → disk.StoresAll (src.goesOn disk) 0 pieces →
      LocalOk src disk R resumed files start pieces
  | restarted : disk.opens = true → disk.renames = true → attemptStart resumed files <+: R →
      start ≠ attemptOffset resumed files →
      disk.written (src.goesOn disk) 0 pieces = R.drop (attemptOffset resumed files) →
      LocalOk src disk R resumed files start pieces
  | untouched : disk.opens = false → disk.renames = true → files.temp = some R →
      LocalOk src disk R resumed files start pieces
  | inPlace : disk.renames = false ∨ disk.opens = false ∧ files.temp = none →
      files.dest = some R → LocalOk src disk R resumed files start pieces

/-- A row ends as a success only with the remote file in place. -/
def Honest (R : Bytes) (outcome : Option (DownloadState × Files)) : Prop :=
  ∀ state files, outcome = some (state, files) → state = .success → files.dest = some R

theorem honest_success {R : Bytes} {files : Files} :
    Honest R (some (.success, files)) ↔ files.dest = some R := by
  constructor
  · intro h
    exact h _ _ rfl rfl
  · intro h state files' he _
    cases he
    exact h

theorem honest_of_zero {R : Bytes} (disk : LocalDisk) (inRestMode resumed : Bool) (files : Files) :
    Honest R (some (completeRow disk inRestMode resumed 0 files)) := by
  intro state files' he hs
  unfold completeRow at he
  rw [if_pos rfl] at he
  cases he
  cases inRestMode <;> cases resumed <;> cases hs

theorem rename_dest (files : Files) (renames : Bool) :
    (files.rename renames).dest = if renames then files.temp.or files.dest else files.dest := by
  unfold Files.rename
  cases files.temp <;> cases renames <;> rfl

variable {src : Source} {disk : LocalDisk} {R destPath srcPath : Bytes} {inRestMode resumed : Bool}
  {files : Files} {start : Nat} {pieces : List Bytes}

theorem attemptRow_opens
    (hserves : src.Serves R srcPath (tempFile destPath) (attemptOffset resumed files) start pieces)
    (hopen : disk.opens = true) :
    Honest R (attemptRow src disk destPath srcPath inRestMode resumed files) ↔
      if disk.renames then
        attemptStart resumed files <+: R ∧
          disk.written (src.goesOn disk) 0 pieces = R.drop (attemptOffset resumed files)
      else files.dest = some R := by
  unfold attemptRow
  rw [hserves.get_opens hopen (tempFile_ne_nil destPath), Option.map_some]
  show Honest R (some (.success, Files.rename _ _)) ↔ _
  rw [honest_success, rename_dest]
  split
  · show some (attemptStart resumed files ++ _) = some R ↔ _
    rw [Option.some.injEq, ← length_attemptStart]
    constructor
    · intro h
      have hpre : attemptStart resumed files <+: R := ⟨_, h⟩
      exact ⟨hpre, (append_eq_iff_drop hpre _).mp h⟩
    · intro h
      exact (append_eq_iff_drop h.1 _).mpr h.2
  · exact Iff.rfl

theorem attemptRow_notOpens
    (hserves : src.Serves R srcPath (tempFile destPath) (attemptOffset resumed files) start pieces)
    (hopen : disk.opens = false) :
    Honest R (attemptRow src disk destPath srcPath inRestMode resumed files) ↔
      src.checksOpen = true ∨
        (if disk.renames then files.temp.or files.dest else files.dest) = some R := by
  unfold attemptRow
  rw [hserves.get_notOpens hopen (tempFile_ne_nil destPath), Option.map_some]
  cases hc : src.checksOpen with
  | true =>
    exact ⟨fun _ => .inl rfl, fun _ => honest_of_zero disk inRestMode resumed _⟩
  | false =>
    show Honest R (some (.success, Files.rename _ _)) ↔ _
    rw [honest_success, rename_dest]
    simp

/-- A download whose server delivers the file ends as a success without it
exactly when a local call fails unseen: a short write, a failed seek, a failed
rename, or an output file that `BaseClient::Get` could not open. -/
theorem local_failure_iff
    (hserves : src.Serves R srcPath (tempFile destPath) (attemptOffset resumed files) start pieces) :
    Honest R (attemptRow src disk destPath srcPath inRestMode resumed files) ↔
      LocalOk src disk R resumed files start pieces := by
  cases hopen : disk.opens with
  | false =>
    rw [attemptRow_notOpens hserves hopen]
    constructor
    · rintro (hc | hd)
      · exact .notOpened hopen hc
      · cases hren : disk.renames with
        | false => exact .inPlace (.inl hren) (by simpa [hren] using hd)
        | true =>
          rw [hren, if_pos rfl] at hd
          cases htemp : files.temp with
          | none => exact .inPlace (.inr ⟨hopen, htemp⟩) (by rwa [htemp] at hd)
          | some content => exact .untouched hopen hren (htemp.trans (by rwa [htemp] at hd))
    · intro hok
      cases hok with
      | notOpened _ hc => exact .inl hc
      | stored h => exact absurd (h.symm.trans hopen) (by decide)
      | restarted h => exact absurd (h.symm.trans hopen) (by decide)
      | untouched _ hren htemp => exact .inr (by rw [hren, if_pos rfl, htemp]; rfl)
      | inPlace h hdest =>
        right
        rcases h with hren | ⟨-, htemp⟩
        · rw [hren, if_neg (by decide)]
          exact hdest
        · rw [htemp, Option.none_or, ite_self]
          exact hdest
  -- the file is open: the server starts at the offset asked for or elsewhere
  | true =>
    rw [attemptRow_opens hserves hopen]
    constructor
    · intro h
      cases hren : disk.renames with
      | false => exact .inPlace (.inl hren) (by simpa [hren] using h)
      | true =>
        rw [hren, if_pos rfl] at h
        by_cases hstart : start = attemptOffset resumed files
        · refine .stored hopen hren h.1 hstart ?_
          rw [← LocalDisk.written_eq_flatten_iff, hserves.flatten hstart]
          exact h.2
        · exact .restarted hopen hren h.1 hstart h.2
    · intro hok
      cases hok with
      | notOpened h => exact absurd (h.symm.trans hopen) (by decide)
      | stored _ hren hpre hstart hall =>
        rw [hren, if_pos rfl, ← hserves.flatten hstart, LocalDisk.written_eq_flatten_iff]
        exact ⟨hpre, hall⟩
      | restarted _ hren hpre _ hrest =>
        rw [hren, if_pos rfl]
        exact ⟨hpre, hrest⟩
      | untouched h => exact absurd (h.symm.trans hopen) (by decide)
      | inPlace h hdest =>
        rcases h with hren | ⟨h, -⟩
        · rw [hren, if_neg (by decide)]
          exact hdest
        · exact absurd (h.symm.trans hopen) (by decide)

def abcFile : RemoteFile := ⟨bytes "abc", true, true, [.data 1, .data 1, .data 1, .data 1]⟩

/-- A disk that is full after two bytes. -/
def fullDisk : LocalDisk where
  opens := true
  reported := fun k n => if k < 2 then n else 0
  stored := fun k n => if k < 2 then n else 0
  renames := true

/-- Nothing fails: a resumed SFTP download, and an FTP download. -/
theorem local_failure_none :
    Honest (bytes "abc") (attemptRow (.copy .sftp fun _ => abcFile) .ideal (bytes "d") (bytes "s")
      false true ⟨some (bytes "a"), none⟩) ∧
    ∃ s, Ftp.loggedIn = some (1, s) ∧
      Honest [1, 2, 3] (attemptRow
        (.ftp Ftp.idealWorld (Ftp.whole (Ftp.transferReplies (bytes "226 done"))) s) .ideal
        (bytes "f") (bytes "/a") false false ⟨none, none⟩) := by
  constructor
  · have hserves : Source.Serves (bytes "abc") (bytes "s") (tempFile (bytes "d"))
        (attemptOffset true ⟨some (bytes "a"), none⟩) 1 [bytes "b", bytes "c"]
        (.copy .sftp fun _ => abcFile) := ⟨rfl, rfl, by decide, by decide⟩
    exact (local_failure_iff hserves).mpr
      (.stored rfl rfl (by decide) rfl ⟨Nat.le_refl _, Nat.le_refl _, trivial⟩)
  · obtain ⟨s, hlog, hs⟩ := Ftp.loggedIn_serves
    refine ⟨s, hlog, ?_⟩
    have hserves : Source.Serves [1, 2, 3] (bytes "/a") (tempFile (bytes "f"))
        (attemptOffset false ⟨none, none⟩) 0 [[1, 2], [3]]
        (.ftp Ftp.idealWorld (Ftp.whole (Ftp.transferReplies (bytes "226 done"))) s) :=
      ⟨fun _ _ _ _ (h : (1 : Int) = 0) => absurd h (by decide), hs, rfl, rfl, by decide⟩
    exact (local_failure_iff hserves).mpr
      (.stored rfl rfl (by decide) rfl ⟨Nat.le_refl _, Nat.le_refl _, trivial⟩)

/-- A full disk: two bytes of three are stored, and the row is a success. -/
theorem local_failure_diskFull : ¬ ∀ (src : Source) (disk : LocalDisk)
    (R destPath srcPath : Bytes) (inRestMode resumed : Bool) (files : Files) (start : Nat)
    (pieces : List Bytes),
    src.Serves R srcPath (tempFile destPath) (attemptOffset resumed files) start pieces →
    attemptStart resumed files <+: R →
    Honest R (attemptRow src disk destPath srcPath inRestMode resumed files) := by
  intro hall
  have hserves : Source.Serves (bytes "abc") (bytes "s") (tempFile (bytes "d"))
      (attemptOffset false ⟨none, none⟩) 0 [bytes "a", bytes "b", bytes "c"]
      (.copy .sftp fun _ => abcFile) := ⟨rfl, rfl, by decide, by decide⟩
  have hrun : attemptRow (.copy .sftp fun _ => abcFile) fullDisk (bytes "d") (bytes "s") false false
      ⟨none, none⟩ = some (.success, ⟨none, some (bytes "ab")⟩) := by decide
  have hdest := hall _ fullDisk _ _ _ false false ⟨none, none⟩ 0 _ hserves
    (by decide) _ _ hrun rfl
  exact absurd hdest (by decide)

end EzRemote.Transfer

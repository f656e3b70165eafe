import EzRemote.Util
import EzRemote.Transfer.Local

/-!
# The copy loops of SFTPClient, SmbClient and NfsClient

Three loops of one shape: open the remote file, open the temp file, seek, read
until the library returns 0.
-/

namespace EzRemote.Transfer

/-- One call of the library's read: an error, or some bytes, `count` of them
where the buffer and the rest of the file allow it, and at least one. -/
inductive Read
  | error
  | data (count : Nat)
  deriving DecidableEq, Repr

/-- A remote file and how the library's calls on it come out.  Reads beyond
those listed fail. -/
structure RemoteFile where
  content : Bytes
  opens : Bool
  seeks : Bool
  reads : List Read
  deriving DecidableEq, Repr

/-- `FTP_CLIENT_BUFSIZ`, `max_read_size` and `BUF_SIZE`. -/
def bufSize : Nat := 1048576

/-- How many bytes a read at `pos` delivers before the end of the file. -/
def readCount (R : Bytes) (pos count : Nat) : Nat :=
  max 1 (min count (min bufSize (R.length - pos)))

/-- The loop: `k` counts the writes, `bytesTransfered` follows the reads. -/
def copyLoop (R : Bytes) (disk : LocalDisk) : List Read → Nat → Nat → Target → Int × Target
  | [], _, _, t => (0, t)
  | .error :: _, _, _, t => (0, t)
  | .data count :: reads, pos, k, t =>
    if R.length ≤ pos then (1, t)
    else
      let data := slice R pos (readCount R pos count)
      copyLoop R disk reads (pos + data.length) (k + 1)
        ⟨some (t.file.getD [] ++ disk.store k data), t.bytesTransfered + data.length⟩

/-- The body that the three functions share.  The result of the seek is not
looked at, and a seek that fails leaves the position at 0. -/
def copyGet (remote : RemoteFile) (disk : LocalDisk) (t : Target) (offset : Nat) : Int × Target :=
  if !remote.opens then (0, t)
  else if !disk.opens then (0, t)
  else
    let pos := if 0 < offset ∧ remote.seeks then offset else 0
    copyLoop remote.content disk remote.reads pos 0 ⟨some (t.opened offset), offset⟩

/-- `SFTPClient::Get`; `libssh2_sftp_seek64` only sets the position. -/
def sftpGet (files : Bytes → RemoteFile) (disk : LocalDisk) (t : Target) (path : Bytes)
    (offset : Nat) : Int × Target :=
  copyGet { files path with seeks := true } disk t offset

/-- `SmbClient::Get`. -/
def smbGet (files : Bytes → RemoteFile) (disk : LocalDisk) (t : Target) (ppath : Bytes)
    (offset : Nat) : Int × Target :=
  copyGet (files (trim ppath (bytes "/"))) disk t offset

/-- `NfsClient::Get`. -/
def nfsGet (files : Bytes → RemoteFile) (disk : LocalDisk) (t : Target) (ppath : Bytes)
    (offset : Nat) : Int × Target :=
  copyGet (files ppath) disk t offset

/-- The classes whose `Get` is a copy loop. -/
inductive CopyClient
  | sftp | smb | nfs
  deriving DecidableEq, Repr

def CopyClient.get : CopyClient → (Bytes → RemoteFile) → LocalDisk → Target → Bytes → Nat →
    Int × Target
  | .sftp => sftpGet
  | .smb => smbGet
  | .nfs => nfsGet

/-- The name under which a client looks a path up. -/
def CopyClient.remotePath : CopyClient → Bytes → Bytes
  | .smb, path => trim path (bytes "/")
  | .sftp, path | .nfs, path => path

theorem CopyClient.get_eq (client : CopyClient) {files : Bytes → RemoteFile} {path : Bytes}
    (hs : (files (client.remotePath path)).seeks = true) (disk : LocalDisk) (t : Target)
    (offset : Nat) :
    client.get files disk t path offset =
      copyGet (files (client.remotePath path)) disk t offset := by
  cases client with
  | sftp =>
    change copyGet { files path with seeks := true } disk t offset =
      copyGet (files path) disk t offset
    change (files path).seeks = true at hs
    rw [← hs]
  | smb => rfl
  | nfs => rfl

theorem length_read {R : Bytes} {pos : Nat} (count : Nat) (h : pos < R.length) :
    0 < (slice R pos (readCount R pos count)).length ∧
      pos + (slice R pos (readCount R pos count)).length ≤ R.length := by
  rw [length_slice, readCount]
  have : 0 < bufSize := by decide
  omega

/-- The read loop continues a prefix: from the first `pos` bytes it goes on to
the first `pos'`, and it ends with 1 only at the end of the file. -/
theorem copyLoop_prefix {R : Bytes} {disk : LocalDisk} (hd : ∀ k n, n ≤ disk.stored k n)
    (reads : List Read) {pos : Nat} (k : Nat) (hpos : pos ≤ R.length) :
    ∃ pos', pos ≤ pos' ∧ pos' ≤ R.length ∧
      (copyLoop R disk reads pos k ⟨some (R.take pos), pos⟩).2 = ⟨some (R.take pos'), pos'⟩ ∧
      ((copyLoop R disk reads pos k ⟨some (R.take pos), pos⟩).1 = 1 → pos' = R.length) := by
  induction reads generalizing pos k with
  | nil => exact ⟨pos, Nat.le_refl _, hpos, rfl, by intro h; cases h⟩
  | cons read reads ih =>
    cases read with
    | error => exact ⟨pos, Nat.le_refl _, hpos, rfl, by intro h; cases h⟩
    | data count =>
      unfold copyLoop
      by_cases hend : R.length ≤ pos
      · rw [if_pos hend]
        exact ⟨pos, Nat.le_refl _, hpos, rfl, fun _ => Nat.le_antisymm hpos hend⟩
      · rw [if_neg hend]
        obtain ⟨-, hle⟩ := length_read count (Nat.lt_of_not_le hend)
        obtain ⟨pos', h1, h2, h3⟩ := ih (k + 1) hle
        have hstore : disk.store k (slice R pos (readCount R pos count)) =
            slice R pos (readCount R pos count) := List.take_of_length_le (hd k _)
        have htake : R.take pos ++ slice R pos (readCount R pos count) =
            R.take (pos + (slice R pos (readCount R pos count)).length) := by
          rw [← take_append_slice, slice_length]
        simp only [Option.getD_some, hstore, htake]
        exact ⟨pos', by omega, h2, h3⟩

/-- A `Get` that opens both files continues the prefix that it is given. -/
theorem copyGet_prefix (remote : RemoteFile) (disk : LocalDisk) {t : Target} {offset : Nat}
    (hd : ∀ k n, n ≤ disk.stored k n) (hr : remote.opens = true) (hl : disk.opens = true)
    (hs : remote.seeks = true) (hoff : offset ≤ remote.content.length)
    (hopen : t.opened offset = remote.content.take offset) :
    ∃ pos', pos' ≤ remote.content.length ∧
      (copyGet remote disk t offset).2 = ⟨some (remote.content.take pos'), pos'⟩ ∧
      ((copyGet remote disk t offset).1 = 1 → pos' = remote.content.length) := by
  have hpos : (if 0 < offset ∧ remote.seeks then offset else 0) = offset := by
    simp only [hs, and_true]
    split <;> omega
  unfold copyGet
  simp only [hr, hl, Bool.not_true, Bool.false_eq_true, if_false, hpos, hopen]
  obtain ⟨pos', -, h2, h3⟩ := copyLoop_prefix hd remote.reads 0 hoff
  exact ⟨pos', h2, h3⟩

end EzRemote.Transfer

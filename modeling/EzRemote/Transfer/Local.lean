import EzRemote.Config

/-!
# Local files

The temp file of a download, and what the local file system makes of the calls
on it: `FS::Create`, `FS::Append`, `FS::Write`, `FS::Rename` and `std::ofstream`.
-/

namespace EzRemote.Transfer

/-- The outcomes of the local calls of one attempt.  The `k`-th write, of `n`
bytes, reports `reported k n` bytes and stores `stored k n` of them. -/
structure LocalDisk where
  opens : Bool
  reported : Nat → Nat → Nat
  stored : Nat → Nat → Nat
  renames : Bool

namespace LocalDisk

/-- The part of the `k`-th write that reaches the disk. -/
def store (disk : LocalDisk) (k : Nat) (data : Bytes) : Bytes := data.take (disk.stored k data.length)

/-- Every call succeeds and every write is complete. -/
structure Sound (disk : LocalDisk) : Prop where
  opens : disk.opens = true
  reported : ∀ k n, disk.reported k n = n
  stored : ∀ k n, n ≤ disk.stored k n
  renames : disk.renames = true

theorem Sound.store {disk : LocalDisk} (h : disk.Sound) (k : Nat) (data : Bytes) :
    disk.store k data = data := List.take_of_length_le (h.stored k data.length)

theorem store_eq_iff (disk : LocalDisk) (k : Nat) (data : Bytes) :
    disk.store k data = data ↔ data.length ≤ disk.stored k data.length := by
  constructor
  · intro h
    have hlen := congrArg List.length h
    rw [store, List.length_take] at hlen
    omega
  · intro h
    exact List.take_of_length_le h

theorem length_store_le (disk : LocalDisk) (k : Nat) (data : Bytes) :
    (disk.store k data).length ≤ data.length := by
  rw [store, List.length_take]
  exact Nat.min_le_right _ _

/-- What reaches the disk of pieces that are written in turn, up to one after
which `goOn` is false. -/
def written (disk : LocalDisk) (goOn : Nat → Bytes → Bool) : Nat → List Bytes → Bytes
  | _, [] => []
  | k, data :: pieces =>
    disk.store k data ++ if goOn k data then disk.written goOn (k + 1) pieces else []

/-- Every write is complete, and the writer stops only where nothing is left. -/
def StoresAll (disk : LocalDisk) (goOn : Nat → Bytes → Bool) : Nat → List Bytes → Prop
  | _, [] => True
  | k, data :: pieces =>
    data.length ≤ disk.stored k data.length ∧
      if goOn k data then disk.StoresAll goOn (k + 1) pieces else pieces.flatten = []

theorem length_written_le (disk : LocalDisk) (goOn : Nat → Bytes → Bool) (k : Nat)
    (pieces : List Bytes) : (disk.written goOn k pieces).length ≤ pieces.flatten.length := by
  induction pieces generalizing k with
  | nil => exact Nat.le_refl _
  | cons data pieces ih =>
    have hs := disk.length_store_le k data
    have hw := ih (k + 1)
    rw [written, List.length_append, List.flatten_cons, List.length_append]
    split
    · omega
    · rw [List.length_nil]
      omega

/-- A missing byte is never made up for: everything is there only if every
write was complete. -/
theorem written_eq_flatten_iff (disk : LocalDisk) (goOn : Nat → Bytes → Bool) (k : Nat)
    (pieces : List Bytes) :
    disk.written goOn k pieces = pieces.flatten ↔ disk.StoresAll goOn k pieces := by
  induction pieces generalizing k with
  | nil => simp [written, StoresAll]
  | cons data pieces ih =>
    have hs := disk.length_store_le k data
    have hw := disk.length_written_le goOn (k + 1) pieces
    rw [written, StoresAll, List.flatten_cons]
    have hsplit : ∀ rest : Bytes, rest.length ≤ pieces.flatten.length →
        (disk.store k data ++ rest = data ++ pieces.flatten ↔
          data.length ≤ disk.stored k data.length ∧ rest = pieces.flatten) := by
      intro rest hrest
      rw [← store_eq_iff]
      constructor
      · intro h
        have hlen := congrArg List.length h
        rw [List.length_append, List.length_append] at hlen
        exact List.append_inj h (by omega)
      · rintro ⟨h1, h2⟩
        rw [h1, h2]
    split
    · rw [hsplit _ hw, ih]
    · rw [hsplit [] (Nat.zero_le _)]
      exact and_congr_right fun _ => eq_comm

/-- A disk that never fails. -/
def ideal : LocalDisk := ⟨true, fun _ n => n, fun _ n => n, true⟩

theorem ideal_sound : ideal.Sound := ⟨rfl, fun _ _ => rfl, fun _ n => Nat.le_refl n, rfl⟩

end LocalDisk

/-- The temp file, and the counter that `g_bytes_transfered` points to. -/
structure Target where
  file : Option Bytes
  bytesTransfered : Nat
  deriving DecidableEq, Repr

/-- The temp file of a row and the file at its `dest_path`. -/
structure Files where
  temp : Option Bytes
  dest : Option Bytes
  deriving DecidableEq, Repr

/-- `FS::Rename(temp_file, dest_path)`, whose result nobody sees. -/
def Files.rename (files : Files) (renames : Bool) : Files :=
  match files.temp with
  | none => files
  | some content => if renames then ⟨none, some content⟩ else files

/-- What the file holds once it is open: `FS::Append` from `offset` on,
`FS::Create` at its start. -/
def Target.opened (t : Target) (offset : Nat) : Bytes :=
  if 0 < offset then t.file.getD [] else []

theorem Target.opened_eq {t : Target} {P : Bytes} (hP : t.file = some P) :
    t.opened P.length = P := by
  unfold Target.opened
  split
  · rw [hP]
    rfl
  · rename_i hlen
    exact (List.eq_nil_of_length_eq_zero (by omega)).symm

/-- The bytes `[offset, offset + n)` of a file. -/
def slice (R : Bytes) (offset n : Nat) : Bytes := (R.drop offset).take n

theorem take_append_slice (R : Bytes) (offset n : Nat) :
    R.take offset ++ slice R offset n = R.take (offset + n) := (List.take_add ..).symm

theorem slice_length (R : Bytes) (offset n : Nat) :
    slice R offset (slice R offset n).length = slice R offset n := by
  simp [slice]

theorem length_slice (R : Bytes) (offset n : Nat) :
    (slice R offset n).length = min n (R.length - offset) := by
  simp [slice]

theorem append_eq_iff_drop {P R : Bytes} (hP : P <+: R) (body : Bytes) :
    P ++ body = R ↔ body = R.drop P.length := by
  obtain ⟨rest, rfl⟩ := hP
  rw [List.drop_left, List.append_cancel_left_eq]

end EzRemote.Transfer

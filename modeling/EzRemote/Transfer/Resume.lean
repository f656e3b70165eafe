import EzRemote.Transfer.Copy

/-!
# A row and its attempts

What `DownloadFilesThread` does with the temp file of one row: a first attempt
from offset 0, then attempts that continue the temp file, until one returns 1.
The process may end between two attempts and load an older counter.
-/

namespace EzRemote.Transfer

/-- `FS::FileExists` and `FS::GetSize` of the resume branch. -/
def resumeOffset (t : Target) : Nat := (t.file.map List.length).getD 0

/-- How one attempt comes out: the opens of both files and the reads. -/
structure Attempt where
  remoteOpens : Bool
  localOpens : Bool
  reads : List Read
  deriving DecidableEq, Repr

/-- The attempt gets as far as its read loop. -/
def Attempt.enters (a : Attempt) : Bool := a.remoteOpens && a.localOpens

/-- One event in the life of a row: an attempt, or a restart that loads the
counter of some earlier save. -/
inductive RowEvent
  | attempt (a : Attempt)
  | restart (bytesTransfered : Nat)
  deriving DecidableEq, Repr

/-- What an attempt leaves. -/
structure Outcome where
  entered : Bool
  ret : Int
  target : Target
  deriving DecidableEq, Repr

variable (client : CopyClient) (path R : Bytes)

/-- The remote files during an attempt: `R` under the row's path. -/
def Attempt.files (a : Attempt) (name : Bytes) : RemoteFile :=
  if name = client.remotePath path then ⟨R, a.remoteOpens, true, a.reads⟩
  else ⟨[], false, true, []⟩

/-- The `Get` call of an attempt; local writes are complete. -/
def Attempt.run (a : Attempt) (resumed : Bool) (t : Target) : Outcome :=
  let r := client.get (a.files client path R) { LocalDisk.ideal with opens := a.localOpens } t path
    (if resumed then resumeOffset t else 0)
  ⟨a.enters, r.1, r.2⟩

/-- The outcomes of all attempts on a row. -/
def runRow : Bool → Target → List RowEvent → List Outcome
  | _, _, [] => []
  | resumed, t, .restart bytesTransfered :: events =>
    runRow resumed { t with bytesTransfered := bytesTransfered } events
  | resumed, t, .attempt a :: events =>
    let o := a.run client path R resumed t
    o :: if o.ret = 1 then [] else runRow true o.target events

/-- The temp file is a prefix, the counter is its length after a read loop, and
it is complete after a `Get` that returned 1. -/
structure Outcome.Reassembles (o : Outcome) : Prop where
  isPrefix : ∀ P, o.target.file = some P → P <+: R
  counter : o.entered = true →
    o.target.file.map List.length = some o.target.bytesTransfered
  complete : o.ret = 1 → o.target.file = some R

/-- The first attempt on the row. -/
def firstAttempt : List RowEvent → Option Attempt
  | [] => none
  | .restart _ :: events => firstAttempt events
  | .attempt a :: _ => some a

/-- The temp file, if there is one, is a beginning of the remote file. -/
def Target.IsPart (t : Target) : Prop := ∀ P, t.file = some P → P <+: R

theorem attempt_run_eq (a : Attempt) (resumed : Bool) (t : Target) :
    a.run client path R resumed t =
      let r := copyGet ⟨R, a.remoteOpens, true, a.reads⟩
        { LocalDisk.ideal with opens := a.localOpens } t (if resumed then resumeOffset t else 0)
      ⟨a.enters, r.1, r.2⟩ := by
  have hfile : a.files client path R (client.remotePath path) = ⟨R, a.remoteOpens, true, a.reads⟩ :=
    if_pos rfl
  unfold Attempt.run
  rw [client.get_eq (by rw [hfile]), hfile]

theorem opened_eq_take {R : Bytes} {t : Target} {resumed : Bool}
    (ht : resumed = true → t.IsPart R) :
    (if resumed then resumeOffset t else 0) ≤ R.length ∧
      t.opened (if resumed then resumeOffset t else 0) =
        R.take (if resumed then resumeOffset t else 0) := by
  cases resumed with
  | false => exact ⟨Nat.zero_le _, rfl⟩
  | true =>
    rw [if_pos rfl]
    unfold resumeOffset
    cases hf : t.file with
    | none => exact ⟨Nat.zero_le _, rfl⟩
    | some P =>
      have hpre := ht rfl P hf
      rw [Option.map_some, Option.getD_some]
      refine ⟨hpre.length_le, ?_⟩
      rw [t.opened_eq hf]
      exact List.prefix_iff_eq_take.mp hpre

theorem attempt_not_entered {a : Attempt} (he : a.enters = false) (resumed : Bool) (t : Target) :
    a.run client path R resumed t = ⟨false, 0, t⟩ := by
  rw [attempt_run_eq, he]
  unfold copyGet
  simp only [Attempt.enters, Bool.and_eq_false_iff] at he
  rcases he with he | he <;> simp [he]

/-- An attempt that starts at the beginning, or continues a part of the file,
ends with a part of the file. -/
theorem attempt_entered {a : Attempt} (he : a.enters = true) (resumed : Bool) {t : Target}
    (ht : resumed = true → t.IsPart R) :
    ∃ pos', (a.run client path R resumed t).target = ⟨some (R.take pos'), pos'⟩ ∧
      pos' ≤ R.length ∧ ((a.run client path R resumed t).ret = 1 → pos' = R.length) := by
  simp only [Attempt.enters, Bool.and_eq_true] at he
  have hstart := opened_eq_take ht
  rw [attempt_run_eq]
  obtain ⟨pos', h1, h2, h3⟩ := copyGet_prefix ⟨R, a.remoteOpens, true, a.reads⟩
    { LocalDisk.ideal with opens := a.localOpens } (fun _ n => Nat.le_refl n) he.1 he.2 rfl
    hstart.1 hstart.2
  exact ⟨pos', h2, h1, h3⟩

theorem reassembles_of_take {o : Outcome} {pos : Nat} (ho : o.target = ⟨some (R.take pos), pos⟩)
    (hpos : pos ≤ R.length) (hret : o.ret = 1 → pos = R.length) : o.Reassembles R where
  isPrefix := by
    intro P hP
    rw [ho, Option.some.injEq] at hP
    exact hP ▸ List.take_prefix pos R
  counter := by
    intro _
    rw [ho]
    simp [hpos]
  complete := by
    intro hr
    rw [ho, hret hr, List.take_length]

theorem forall_runRow_attempt {P : Outcome → Prop} {a : Attempt} {resumed : Bool} {t : Target}
    {events : List RowEvent} (hfirst : P (a.run client path R resumed t))
    (hrest : ∀ o ∈ runRow client path R true (a.run client path R resumed t).target events, P o) :
    ∀ o ∈ runRow client path R resumed t (.attempt a :: events), P o := by
  intro o ho
  rw [runRow] at ho
  rcases List.mem_cons.mp ho with rfl | ho
  · exact hfirst
  · split at ho
    · cases ho
    · exact hrest o ho

/-- From a part of the file every attempt leaves a part of it. -/
theorem runRow_reassembles {resumed : Bool} {t : Target} (ht : t.IsPart R)
    (events : List RowEvent) :
    ∀ o ∈ runRow client path R resumed t events, o.Reassembles R := by
  induction events generalizing resumed t with
  | nil => simp [runRow]
  | cons event events ih =>
    cases event with
    | restart bytesTransfered => exact ih (t := { t with bytesTransfered := bytesTransfered }) ht
    | attempt a =>
      have hgood : (a.run client path R resumed t).Reassembles R := by
        cases he : a.enters with
        | false =>
          rw [attempt_not_entered client path R he]
          exact ⟨ht, by simp, by simp⟩
        | true =>
          obtain ⟨pos', h1, h2, h3⟩ := attempt_entered client path R he resumed (fun _ => ht)
          exact reassembles_of_take R h1 h2 h3
      exact forall_runRow_attempt client path R hgood (ih hgood.isPrefix)

/-- The attempts on a row reassemble the file, whatever their reads, exactly
when the first attempt enters its read loop or finds no temp file other than a
part of the remote file. -/
theorem resume_reassembles_iff (t : Target) (events : List RowEvent) :
    (∀ o ∈ runRow client path R false t events, o.Reassembles R) ↔
      ∀ a, firstAttempt events = some a → a.enters = true ∨ t.IsPart R := by
  induction events generalizing t with
  | nil => simp [runRow, firstAttempt]
  | cons event events ih =>
    cases event with
    | restart bytesTransfered => exact ih { t with bytesTransfered := bytesTransfered }
    | attempt a =>
      simp only [firstAttempt, Option.some.injEq, forall_eq']
      constructor
      · intro hall
        have hfirst := hall (a.run client path R false t) (by rw [runRow]; exact List.mem_cons_self)
        cases he : a.enters with
        | true => exact .inl rfl
        | false =>
          rw [attempt_not_entered client path R he] at hfirst
          exact .inr hfirst.isPrefix
      · rintro (he | ht)
        · obtain ⟨pos', h1, h2, h3⟩ := attempt_entered client path R (t := t) he false
            (by intro h; cases h)
          have hgood := reassembles_of_take R h1 h2 h3
          exact forall_runRow_attempt client path R hgood
            (runRow_reassembles client path R hgood.isPrefix events)
        · exact runRow_reassembles client path R ht (.attempt a :: events)

/-- A stale temp file that the first attempt, which cannot open the remote file,
leaves for the second one to continue. -/
theorem resume_reassembles_stale : ¬ ∀ (client : CopyClient) (path R : Bytes) (t : Target)
    (events : List RowEvent), ∀ o ∈ runRow client path R false t events, o.Reassembles R := by
  intro hall
  have hgood := hall .sftp (bytes "/a") (bytes "abc") ⟨some (bytes "zz"), 0⟩
    [.attempt ⟨false, true, []⟩, .attempt ⟨true, true, [.data 3, .data 3]⟩]
    ⟨true, 1, ⟨some (bytes "zzc"), 3⟩⟩ (by decide)
  exact absurd (hgood.complete rfl) (by decide)

end EzRemote.Transfer

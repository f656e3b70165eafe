import EzRemote.Session.Connect

/-!
# The resources of SmbClient

`Connect`, `Get`, `GetRange` and `Quit` of `clients/smbclient.cpp` as far as they
make, use and give back contexts, urls and files of libsmb2, buffers and local
files.
-/

namespace EzRemote.Session

open Lifetime (Event)

/-- What the client has to give back; `none` is the null pointer, which is never
alive. -/
inductive SmbResource
  | context (p : Option Nat)
  | url
  | file (p : Nat)
  | memory (p : Option Nat)
  | out
  deriving DecidableEq, Repr

abbrev SmbLog := List (Event SmbResource)

namespace SmbClient

/-- A call of libsmb2 on the context. -/
def uses (smb2 : Option Nat) : SmbLog := [.used (.context smb2)]

/-- `smb2_destroy_context`, which does nothing to a null pointer. -/
def destroys (smb2 : Option Nat) : SmbLog := smb2.toList.map fun p => .closed (.context (some p))

/-- `smb2_read` into `buff`. -/
def reads (smb2 : Option Nat) (file : Nat) (buff : Option Nat) : SmbLog :=
  uses smb2 ++ [.used (.file file), .used (.memory buff)]

/-- `smb2_close`. -/
def closes (smb2 : Option Nat) (file : Nat) : SmbLog := uses smb2 ++ [.closed (.file file)]

/-- `free`, which does nothing to a null pointer. -/
def frees (buff : Option Nat) : SmbLog := buff.toList.map fun p => .closed (.memory (some p))

/-- `Connect` with its log. -/
def connectLog (password : Bytes) (calls : ConnectCalls) : Int × SmbClient × SmbLog :=
  match calls.context with
  | none => (0, ⟨none, false⟩, [])
  | some smb2 =>
    let call := uses (some smb2)
    let parse := .opened (.context (some smb2)) :: call
    match calls.url with
    | none => (0, ⟨some smb2, false⟩, parse)
    | some _ =>
      -- `sprintf` of the message and the return are all that follows a missing share
      if ¬ calls.HasShare then (0, ⟨some smb2, false⟩, parse ++ [.opened .url, .used .url])
      else
        let settings := (if password ≠ [] then call else []) ++ call ++ call ++ call
        let share := parse ++ [.opened .url, .used .url] ++ settings ++ .used .url :: call
        if calls.connectShare < 0 then (0, ⟨some smb2, false⟩, share ++ call)
        else (1, ⟨some smb2, true⟩, share ++ [.closed .url])

def quit (client : SmbClient) : Int × SmbClient × SmbLog :=
  (1, ⟨none, false⟩, destroys client.smb2)

/-- The read loop of `Get`; a read behind those listed finds the end of the
file. -/
def getLoop (smb2 : Option Nat) (file : Nat) (buff : Option Nat) : List Int → Int × SmbLog
  | [] => (1, reads smb2 file buff ++ .closed .out :: closes smb2 file ++ frees buff)
  | count :: counts =>
    if count = 0 then (1, reads smb2 file buff ++ .closed .out :: closes smb2 file ++ frees buff)
    else if count < 0 then
      (0, reads smb2 file buff ++ uses smb2 ++ .closed .out :: closes smb2 file ++ frees buff)
    else
      let r := getLoop smb2 file buff counts
      (r.1, reads smb2 file buff ++ [.used .out, .used (.memory buff)] ++ r.2)

/-- How the calls of `Get` come out: `smb2_open`, whether the local file opens,
`malloc` and the results of `smb2_read`. -/
structure GetCalls where
  file : Option Nat
  out : Bool
  buff : Option Nat
  counts : List Int
  deriving DecidableEq, Repr

def get (client : SmbClient) (offset : UInt64) (calls : GetCalls) : Int × SmbLog :=
  let smb2 := client.smb2
  match calls.file with
  | none => (0, uses smb2 ++ uses smb2)
  | some file =>
    let opened := uses smb2 ++ [.opened (.file file)]
    if calls.out = false then (0, opened)
    else
      let made := opened ++ .opened .out :: calls.buff.toList.map fun p => .opened (.memory (some p))
      let seek := if 0 < offset then uses smb2 ++ [.used (.file file)] else []
      let r := getLoop smb2 file calls.buff calls.counts
      (r.1, made ++ seek ++ r.2)

/-- How the calls of `GetRange` come out; each read with what `sink.write` says
to its bytes. -/
structure RangeCalls where
  file : Option Nat
  buff : Option Nat
  lseek : Int
  counts : List (Int × Bool)
  deriving DecidableEq, Repr

/-- The loop of `GetRange`.  A read returns at most what it is asked for. -/
def rangeLoop (smb2 : Option Nat) (file buff : Nat) : List (Int × Bool) → Nat → Int × SmbLog
  | [], bytesRemaining =>
    if 0 < bytesRemaining then (0, reads smb2 file (some buff) ++ frees (some buff))
    else (1, frees (some buff))
  | (count, taken) :: counts, bytesRemaining =>
    if 0 < bytesRemaining then
      if count < 0 then (0, reads smb2 file (some buff) ++ uses smb2 ++ frees (some buff))
      else if count = 0 then (0, reads smb2 file (some buff) ++ frees (some buff))
      else if taken = false then
        (0, reads smb2 file (some buff) ++ .used (.memory (some buff)) :: frees (some buff))
      else
        let r := rangeLoop smb2 file buff counts (bytesRemaining - count.toNat)
        (r.1, reads smb2 file (some buff) ++ .used (.memory (some buff)) :: r.2)
    else (1, frees (some buff))

/-- `GetRange` of an open file. -/
def getRangeFile (client : SmbClient) (file : Nat) (size : UInt64) (calls : RangeCalls) :
    Int × SmbLog :=
  let smb2 := client.smb2
  if smb2 = none then (0, [])
  else if size = 0 then (1, [])
  else
    match calls.buff with
    | none => (0, uses smb2)
    | some buff =>
      let made := uses smb2 ++ .opened (.memory (some buff)) :: uses smb2 ++ [.used (.file file)]
      if calls.lseek < 0 then (0, made ++ uses smb2 ++ frees (some buff))
      else
        let r := rangeLoop smb2 file buff calls.counts size.toNat
        (r.1, made ++ r.2)

def getRange (client : SmbClient) (size : UInt64) (calls : RangeCalls) : Int × SmbLog :=
  let smb2 := client.smb2
  if smb2 = none then (0, [])
  else
    match calls.file with
    | none => (0, uses smb2 ++ uses smb2)
    | some file =>
      let r := client.getRangeFile file size calls
      (r.1, uses smb2 ++ .opened (.file file) :: r.2 ++ closes smb2 file)

inductive Transfer
  | get (offset : UInt64) (calls : GetCalls)
  | getRange (size : UInt64) (calls : RangeCalls)
  deriving DecidableEq, Repr

/-- No transfer changes the members of the client. -/
def Transfer.run (client : SmbClient) : Transfer → Int × SmbLog
  | .get offset calls => client.get offset calls
  | .getRange size calls => client.getRange size calls

/-- Over the life of a client, from `CreatePooledClient` to `DestroyPooledClient`,
every transfer gives back all that it makes, nothing dead is touched, and what
`Connect` leaves `Quit` gives back. -/
def LeaksNothing (password : Bytes) (calls : ConnectCalls) (transfers : List Transfer) : Prop :=
  let client := (connectLog password calls).2.1
  ∃ alive, Lifetime.after [] (connectLog password calls).2.2 = some alive ∧
    (∀ t ∈ transfers, Lifetime.after alive (t.run client).2 = some alive) ∧
    Lifetime.after alive client.quit.2.2 = some []

variable {smb2 : Option Nat} {alive : List SmbResource}

theorem after_uses (h : .context smb2 ∈ alive) (log : SmbLog) :
    Lifetime.after alive (uses smb2 ++ log) = Lifetime.after alive log :=
  Lifetime.after_used h log

theorem after_reads {file : Nat} {buff : Option Nat} (h : .context smb2 ∈ alive)
    (hfile : .file file ∈ alive) (hbuff : .memory buff ∈ alive) (log : SmbLog) :
    Lifetime.after alive (reads smb2 file buff ++ log) = Lifetime.after alive log := by
  unfold reads
  rw [List.append_assoc, after_uses h]
  show Lifetime.after alive (.used (.file file) :: .used (.memory buff) :: log) = _
  rw [Lifetime.after_used hfile, Lifetime.after_used hbuff]

theorem after_getEnd (h : .context smb2 ∈ alive) (file buff : Nat) :
    Lifetime.after (.memory (some buff) :: .out :: .file file :: alive)
      (.closed .out :: closes smb2 file ++ frees (some buff)) = some alive := by
  have h' : .context smb2 ∈ SmbResource.memory (some buff) :: .file file :: alive :=
    List.mem_cons_of_mem _ (List.mem_cons_of_mem _ h)
  rw [List.cons_append, Lifetime.after_closed (by simp)]
  show Lifetime.after (.memory (some buff) :: .file file :: alive) _ = _
  unfold closes
  rw [List.append_assoc, after_uses h']
  simp [frees, Lifetime.after]

theorem after_getLoop (h : .context smb2 ∈ alive) (file buff : Nat) (counts : List Int) :
    Lifetime.after (.memory (some buff) :: .out :: .file file :: alive)
      (getLoop smb2 file (some buff) counts).2 = some alive := by
  obtain ⟨inner, hinner⟩ :
      ∃ l, l = SmbResource.memory (some buff) :: .out :: .file file :: alive := ⟨_, rfl⟩
  have hctx : .context smb2 ∈ inner := by simp [hinner, h]
  have hfile : .file file ∈ inner := by simp [hinner]
  have hbuff : .memory (some buff) ∈ inner := by simp [hinner]
  have hout : .out ∈ inner := by simp [hinner]
  have hend := after_getEnd h file buff
  rw [← hinner] at hend ⊢
  induction counts with
  | nil =>
    unfold getLoop
    rw [List.append_assoc, after_reads hctx hfile hbuff]
    exact hend
  | cons count counts ih =>
    unfold getLoop
    by_cases h0 : count = 0
    · rw [if_pos h0, List.append_assoc, after_reads hctx hfile hbuff]
      exact hend
    · rw [if_neg h0]
      by_cases hneg : count < 0
      · rw [if_pos hneg, List.append_assoc, List.append_assoc, after_reads hctx hfile hbuff,
          after_uses hctx]
        exact hend
      · rw [if_neg hneg]
        dsimp only
        rw [List.append_assoc, after_reads hctx hfile hbuff]
        show Lifetime.after inner (.used .out :: .used (.memory (some buff)) :: _) = _
        rw [Lifetime.after_used hout, Lifetime.after_used hbuff]
        exact ih

theorem after_getLoop_null {inner : List SmbResource} (h : .context smb2 ∈ inner) {file : Nat}
    (hfile : .file file ∈ inner) (hnull : .memory none ∉ inner) (counts : List Int) :
    Lifetime.after inner (getLoop smb2 file none counts).2 = none := by
  have hread : ∀ log, Lifetime.after inner (reads smb2 file none ++ log) = none := by
    intro log
    unfold reads
    rw [List.append_assoc, after_uses h]
    show Lifetime.after inner (.used (.file file) :: .used (.memory none) :: log) = none
    rw [Lifetime.after_used hfile]
    exact Lifetime.after_used_dead hnull log
  cases counts with
  | nil =>
    unfold getLoop
    rw [List.append_assoc]
    exact hread _
  | cons count counts =>
    unfold getLoop
    split
    · rw [List.append_assoc]
      exact hread _
    · split
      · rw [List.append_assoc, List.append_assoc]
        exact hread _
      · dsimp only
        rw [List.append_assoc]
        exact hread _

theorem after_rangeLoop (h : .context smb2 ∈ alive) (file buff : Nat)
    (counts : List (Int × Bool)) (bytesRemaining : Nat) :
    Lifetime.after (.memory (some buff) :: .file file :: alive)
      (rangeLoop smb2 file buff counts bytesRemaining).2 = some (.file file :: alive) := by
  obtain ⟨inner, hinner⟩ :
      ∃ l, l = SmbResource.memory (some buff) :: .file file :: alive := ⟨_, rfl⟩
  have hctx : .context smb2 ∈ inner := by simp [hinner, h]
  have hfile : .file file ∈ inner := by simp [hinner]
  have hbuff : .memory (some buff) ∈ inner := by simp [hinner]
  have hend : Lifetime.after inner (frees (some buff)) = some (.file file :: alive) := by
    simp [hinner, frees, Lifetime.after]
  rw [← hinner]
  induction counts generalizing bytesRemaining with
  | nil =>
    unfold rangeLoop
    split
    · rw [after_reads hctx hfile hbuff, hend]
    · exact hend
  | cons read counts ih =>
    obtain ⟨count, taken⟩ := read
    unfold rangeLoop
    by_cases hrem : 0 < bytesRemaining
    · rw [if_pos hrem]
      by_cases hneg : count < 0
      · rw [if_pos hneg, List.append_assoc, after_reads hctx hfile hbuff, after_uses hctx, hend]
      · rw [if_neg hneg]
        by_cases h0 : count = 0
        · rw [if_pos h0, after_reads hctx hfile hbuff, hend]
        · rw [if_neg h0]
          by_cases htaken : taken = false
          · rw [if_pos htaken, after_reads hctx hfile hbuff, Lifetime.after_used hbuff, hend]
          · rw [if_neg htaken, after_reads hctx hfile hbuff, Lifetime.after_used hbuff]
            exact ih _
    · rw [if_neg hrem]
      exact hend

/-- What the client and the outcomes of a transfer have to be for it to touch
nothing dead and to give back all that it makes: `Get` does not look at the
context, forgets the remote file where the local one does not open, and reads
into a buffer that it may not have got. -/
def Transfer.Closes (client : SmbClient) : Transfer → Prop
  | .get _ calls => client.smb2.isSome ∧
      (calls.file.isSome → calls.out = true ∧ calls.buff.isSome)
  | .getRange _ _ => True

instance (client : SmbClient) : ∀ t : Transfer, Decidable (t.Closes client)
  | .get _ _ => inferInstanceAs (Decidable (_ ∧ _))
  | .getRange _ _ => inferInstanceAs (Decidable True)

theorem after_getRangeFile {client : SmbClient} (h : .context client.smb2 ∈ alive) (file : Nat)
    (size : UInt64) (calls : RangeCalls) :
    Lifetime.after (.file file :: alive) (client.getRangeFile file size calls).2 =
      some (.file file :: alive) := by
  have hctx : .context client.smb2 ∈ SmbResource.file file :: alive := List.mem_cons_of_mem _ h
  unfold getRangeFile
  dsimp only
  split
  · rfl
  · split
    · rfl
    · cases calls.buff with
      | none => exact after_uses hctx []
      | some buff =>
        have hctx' : .context client.smb2 ∈ SmbResource.memory (some buff) :: .file file :: alive :=
          List.mem_cons_of_mem _ hctx
        have hmade : ∀ log, Lifetime.after (.file file :: alive)
            ((uses client.smb2 ++ .opened (.memory (some buff)) :: uses client.smb2 ++
              [.used (.file file)]) ++ log) =
            Lifetime.after (.memory (some buff) :: .file file :: alive) log := by
          intro log
          rw [List.append_assoc, List.append_assoc, after_uses hctx, List.cons_append,
            Lifetime.after_opened, after_uses hctx']
          exact Lifetime.after_used (by simp) log
        dsimp only
        by_cases hseek : calls.lseek < 0
        · rw [if_pos hseek, List.append_assoc, hmade, after_uses hctx']
          simp [frees, Lifetime.after]
        · rw [if_neg hseek, hmade]
          exact after_rangeLoop h file buff calls.counts size.toNat

theorem after_getRange {client : SmbClient} (h : client.smb2.isSome → .context client.smb2 ∈ alive)
    (size : UInt64) (calls : RangeCalls) :
    Lifetime.after alive (client.getRange size calls).2 = some alive := by
  unfold getRange
  dsimp only
  split
  · rfl
  · rename_i hsmb
    have hctx := h (Option.isSome_iff_ne_none.mpr hsmb)
    cases calls.file with
    | none =>
      dsimp only
      rw [after_uses hctx]
      exact after_uses hctx []
    | some file =>
      dsimp only
      rw [List.append_assoc, after_uses hctx, List.cons_append, Lifetime.after_opened,
        Lifetime.after_append_of (after_getRangeFile hctx file size calls)]
      unfold closes
      rw [after_uses (List.mem_cons_of_mem _ hctx)]
      simp [Lifetime.after]

/-- Already `smb2_open` is called on the null pointer. -/
theorem after_get_disconnected {client : SmbClient} (hsmb : client.smb2 = none)
    (hnull : .context none ∉ alive) (offset : UInt64) (calls : GetCalls) :
    Lifetime.after alive (client.get offset calls).2 = none := by
  have hdead : ∀ log, Lifetime.after alive (uses client.smb2 ++ log) = none := by
    intro log
    rw [hsmb]
    exact Lifetime.after_used_dead hnull log
  unfold get
  dsimp only
  cases calls.file with
  | none => exact hdead _
  | some file =>
    dsimp only
    split
    · exact hdead _
    · dsimp only
      rw [List.append_assoc, List.append_assoc, List.append_assoc, hdead]

theorem after_seek (h : .context smb2 ∈ alive) {file : Nat} (hfile : .file file ∈ alive)
    (offset : UInt64) (log : SmbLog) :
    Lifetime.after alive ((if 0 < offset then uses smb2 ++ [.used (.file file)] else []) ++ log) =
      Lifetime.after alive log := by
  split
  · rw [List.append_assoc, after_uses h]
    exact Lifetime.after_used hfile log
  · rfl

theorem after_get_opened_iff {client : SmbClient} (h : .context client.smb2 ∈ alive)
    (hnull : .memory none ∉ alive) (offset : UInt64) {calls : GetCalls} {file : Nat}
    (hfile : calls.file = some file) :
    Lifetime.after alive (client.get offset calls).2 = some alive ↔
      calls.out = true ∧ calls.buff.isSome := by
  unfold get
  rw [hfile]
  dsimp only
  by_cases hout : calls.out = false
  · refine iff_of_false ?_ fun hc => ?_
    · rw [if_pos hout, after_uses h]
      intro heq
      have := congrArg List.length (Option.some.inj heq)
      rw [List.length_cons] at this
      omega
    · rw [hout] at hc
      exact Bool.false_ne_true hc.1
  · rw [if_neg hout]
    dsimp only
    have hctx : .context client.smb2 ∈ SmbResource.out :: .file file :: alive :=
      List.mem_cons_of_mem _ (List.mem_cons_of_mem _ h)
    rw [List.append_assoc, List.append_assoc, List.append_assoc, after_uses h]
    have hopened : .file file ∈ SmbResource.out :: .file file :: alive := by simp
    show Lifetime.after (.out :: .file file :: alive) _ = _ ↔ _
    cases hbuff : calls.buff with
    | none =>
      refine iff_of_false (fun heq => ?_) fun hc => nomatch hc.2
      have hloop := after_getLoop_null hctx hopened (by simp [hnull]) calls.counts
      rw [← after_seek hctx hopened offset] at hloop
      exact nomatch hloop.symm.trans heq
    | some buff =>
      refine iff_of_true ?_ ⟨Bool.of_not_eq_false hout, rfl⟩
      have hloop := after_getLoop h file buff calls.counts
      rw [← after_seek (List.mem_cons_of_mem _ hctx) (List.mem_cons_of_mem _ hopened) offset] at hloop
      exact hloop

/-- A transfer leaves everything else as it is exactly where it closes what it
makes; the null pointer is never alive, and nothing is alive without it. -/
theorem after_run_iff {client : SmbClient} (h : client.smb2.isSome → .context client.smb2 ∈ alive)
    (hnull : .context none ∉ alive ∧ .memory none ∉ alive) (t : Transfer) :
    Lifetime.after alive (t.run client).2 = some alive ↔ t.Closes client := by
  cases t with
  | getRange size calls => exact iff_of_true (after_getRange h size calls) trivial
  | get offset calls =>
    show Lifetime.after alive (client.get offset calls).2 = some alive ↔
      (client.smb2.isSome ∧ (calls.file.isSome → calls.out = true ∧ calls.buff.isSome))
    by_cases hsmb : client.smb2.isSome
    case neg =>
      have hdead := after_get_disconnected (Option.not_isSome_iff_eq_none.mp hsmb) hnull.1 offset
        calls
      exact iff_of_false (fun heq => nomatch hdead.symm.trans heq) fun hc => hsmb hc.1
    rw [iff_true_intro hsmb, true_and]
    cases hfile : calls.file with
    | none =>
      refine iff_of_true ?_ fun hc => nomatch hc
      unfold get
      rw [hfile]
      dsimp only
      rw [after_uses (h hsmb)]
      exact after_uses (h hsmb) []
    | some file =>
      rw [after_get_opened_iff (h hsmb) hnull.2 offset hfile]
      exact ⟨fun hc _ => hc, fun hc => hc rfl⟩

theorem connectLog_eq (password : Bytes) (calls : ConnectCalls) :
    ((connectLog password calls).1, (connectLog password calls).2.1) = connect calls := by
  unfold connectLog connect
  cases hcontext : calls.context with
  | none => rfl
  | some smb2 =>
    dsimp only
    cases hurl : calls.url with
    | none =>
      have hshare : ¬ calls.HasShare := by
        rintro ⟨share, heq, -⟩
        rw [hurl] at heq
        cases heq
      exact (if_pos hshare).symm
    | some share =>
      dsimp only
      split
      · rfl
      · split <;> rfl

/-- What is alive after `Connect`: the context, and the url unless the share was
connected. -/
def ConnectCalls.left (calls : ConnectCalls) : List SmbResource :=
  match calls.context with
  | none => []
  | some smb2 =>
    (if calls.url.isSome ∧ ¬ (calls.HasShare ∧ 0 ≤ calls.connectShare) then [.url] else []) ++
      [.context (some smb2)]

theorem after_connect (password : Bytes) (calls : ConnectCalls) :
    Lifetime.after [] (connectLog password calls).2.2 = some calls.left := by
  unfold connectLog ConnectCalls.left
  cases calls.context with
  | none => rfl
  | some smb2 =>
    dsimp only
    cases hurl : calls.url with
    | none =>
      simp [uses, Lifetime.after]
    | some share =>
      dsimp only
      by_cases hshare : calls.HasShare
      · rw [if_neg (not_not.mpr hshare)]
        by_cases hconnect : calls.connectShare < 0
        · have hleft : ¬ (calls.HasShare ∧ 0 ≤ calls.connectShare) :=
            fun h => absurd h.2 (Int.not_le.mpr hconnect)
          rw [if_pos hconnect]
          by_cases hp : password = [] <;> simp [uses, Lifetime.after, hp, hleft]
        · have hkept : calls.HasShare ∧ 0 ≤ calls.connectShare :=
            ⟨hshare, Int.not_lt.mp hconnect⟩
          rw [if_neg hconnect]
          by_cases hp : password = [] <;> simp [uses, Lifetime.after, hp, hkept]
      · rw [if_pos hshare]
        simp [uses, Lifetime.after, hshare]

theorem left_null (calls : ConnectCalls) :
    .context none ∉ calls.left ∧ .memory none ∉ calls.left := by
  unfold ConnectCalls.left
  cases calls.context with
  | none => simp
  | some smb2 =>
    dsimp only
    split <;> simp

theorem left_context {calls : ConnectCalls} (h : calls.context.isSome) :
    .context calls.context ∈ calls.left := by
  unfold ConnectCalls.left
  obtain ⟨smb2, hsmb⟩ := Option.isSome_iff_exists.mp h
  rw [hsmb]
  exact List.mem_append_right _ (List.mem_singleton_self _)

theorem after_quit (calls : ConnectCalls) :
    Lifetime.after calls.left (destroys calls.context) = some [] ↔
      (calls.context.isSome → calls.url.isSome → calls.HasShare ∧ 0 ≤ calls.connectShare) := by
  unfold ConnectCalls.left
  cases calls.context with
  | none => exact iff_of_true rfl fun h => nomatch h
  | some smb2 =>
    dsimp only
    by_cases hkept : calls.url.isSome ∧ ¬ (calls.HasShare ∧ 0 ≤ calls.connectShare)
    · rw [if_pos hkept]
      refine iff_of_false ?_ fun h => hkept.2 (h rfl hkept.1)
      simp [destroys, Lifetime.after]
    · rw [if_neg hkept]
      refine iff_of_true ?_ fun _ hurl => not_not.mp fun hno => hkept ⟨hurl, hno⟩
      simp [destroys, Lifetime.after]

/-- A client leaks nothing and touches nothing dead over its life exactly where
its transfers close what they make and a url that was parsed names a share that
could be connected: the two exits behind `smb2_parse_url` keep the url, and the
contexts are all destroyed by `Quit`. -/
theorem smb_leaks_nothing_iff (password : Bytes) (calls : ConnectCalls)
    (transfers : List Transfer) :
    LeaksNothing password calls transfers ↔
      (∀ t ∈ transfers, t.Closes (connect calls).2) ∧
        (calls.context.isSome → calls.url.isSome → calls.HasShare ∧ 0 ≤ calls.connectShare) := by
  have hclient : (connectLog password calls).2.1 = (connect calls).2 :=
    congrArg Prod.snd (connectLog_eq password calls)
  have hsmb : (connect calls).2.smb2 = calls.context := by
    unfold connect
    cases calls.context with
    | none => rfl
    | some smb2 =>
      dsimp only
      split
      · rfl
      · split <;> rfl
  have hctx : (connect calls).2.smb2.isSome → .context (connect calls).2.smb2 ∈ calls.left := by
    rw [hsmb]
    exact left_context
  have hquit : (connect calls).2.quit.2.2 = destroys calls.context := by
    unfold quit
    rw [hsmb]
  have hrun := fun t : Transfer => after_run_iff hctx (left_null calls) t
  unfold LeaksNothing
  dsimp only
  rw [hclient, after_connect, hquit, ← after_quit]
  simp only [Option.some.injEq, exists_eq_left', hrun]

end SmbClient

end EzRemote.Session

import EzRemote.Transfer.Copy

/-!
# Serving a range of a remote file

`GetRange` of SFTPClient, SmbClient and NfsClient with a sink, as `/bg_install`
calls it, and the loop of httplib that drives it.
-/

namespace EzRemote.Transfer

/-- What a read of the library returns: a negative number, or bytes; no bytes
are the result 0. -/
inductive RangeRead
  | failed
  | data (buff : Bytes)
  deriving DecidableEq, Repr

/-- The reads of a library on a file of content `R`: call `k`, at position `pos`
for `want` bytes.  They deliver at most what is asked for, and nothing only at
or behind the end of the file. -/
structure RangeCalls (R : Bytes) where
  read : Nat → Nat → Nat → RangeRead
  faithful : ∀ k pos want buff, read k pos want = .data buff →
    buff.length ≤ want ∧ buff = slice R pos buff.length ∧ (buff = [] → R.length ≤ pos)

/-- A remote file and how the library's calls on it come out; `negotiated` is
`smb2_get_max_read_size`. -/
structure RangeFile where
  content : Bytes
  opens : Bool
  seeks : Bool
  allocates : Bool
  negotiated : Nat
  calls : RangeCalls content

/-- The result of `GetRange`, the buffers that it passed to the sink, and the
results of its reads. -/
structure RangeRun where
  ret : Int
  passed : List Bytes
  results : List RangeRead
  deriving DecidableEq, Repr

/-- The loop that the three functions share: `k` counts the reads, and
`sink.write` number `k` accepts if `sink k`. -/
def rangeLoop {R : Bytes} (calls : RangeCalls R) (sink : Nat → Bool) (chunk k pos : Nat)
    (bytesRemaining : Nat) : RangeRun :=
  if 0 < bytesRemaining then
    match calls.read k pos (min chunk bytesRemaining) with
    | .failed => ⟨0, [], [.failed]⟩
    | .data [] => ⟨0, [], [.data []]⟩
    | .data (b :: bs) =>
      let buff := b :: bs
      if sink k then
        let run := rangeLoop calls sink chunk (k + 1) (pos + buff.length)
          (bytesRemaining - buff.length)
        ⟨run.ret, buff :: run.passed, .data buff :: run.results⟩
      else ⟨0, [buff], [.data buff]⟩
  else ⟨1, [], []⟩
termination_by bytesRemaining
decreasing_by simp only [List.length_cons]; omega

/-- A call that ends before it reads. -/
def RangeRun.early (ret : Int) : RangeRun := ⟨ret, [], []⟩

/-- `SFTPClient::GetRange`; the seek has no result. -/
def sftpGetRange (files : Bytes → RangeFile) (path : Bytes) (sink : Nat → Bool)
    (size offset : Nat) : RangeRun :=
  let file := files path
  if !file.opens then .early 0
  else if !file.allocates then .early 0
  else rangeLoop file.calls sink bufSize 0 offset size

/-- The `chunk_size` of `SmbClient::GetRange`. -/
def RangeFile.chunkSize (file : RangeFile) : Nat :=
  if 0 < file.negotiated ∧ file.negotiated < bufSize then file.negotiated else bufSize

/-- `SmbClient::GetRange`. -/
def smbGetRange (files : Bytes → RangeFile) (ppath : Bytes) (sink : Nat → Bool)
    (size offset : Nat) : RangeRun :=
  let file := files (trim ppath (bytes "/"))
  if !file.opens then .early 0
  else if size = 0 then .early 1
  else if !file.allocates then .early 0
  else if !file.seeks then .early 0
  else rangeLoop file.calls sink file.chunkSize 0 offset size

/-- `NfsClient::GetRange`. -/
def nfsGetRange (files : Bytes → RangeFile) (path : Bytes) (sink : Nat → Bool)
    (size offset : Nat) : RangeRun :=
  let file := files path
  if !file.opens then .early 0
  else if !file.seeks then .early 0
  else if !file.allocates then .early 0
  else rangeLoop file.calls sink bufSize 0 offset size

def CopyClient.getRange : CopyClient → (Bytes → RangeFile) → Bytes → (Nat → Bool) → Nat → Nat →
    RangeRun
  | .sftp => sftpGetRange
  | .smb => smbGetRange
  | .nfs => nfsGetRange

/-- Open, seek and allocation succeed. -/
structure RangeFile.Ready (file : RangeFile) : Prop where
  opens : file.opens = true
  seeks : file.seeks = true
  allocates : file.allocates = true

/-- The three functions are the loop with a chunk of their own. -/
theorem CopyClient.getRange_eq (client : CopyClient) {files : Bytes → RangeFile} {path : Bytes}
    (h : (files (client.remotePath path)).Ready) (sink : Nat → Bool) (size offset : Nat) :
    ∃ chunk, client.getRange files path sink size offset =
      rangeLoop (files (client.remotePath path)).calls sink chunk 0 offset size := by
  cases client with
  | sftp =>
    refine ⟨bufSize, ?_⟩
    show sftpGetRange files path sink size offset = _
    unfold sftpGetRange
    change (files path).Ready at h
    simp [h.opens, h.allocates, CopyClient.remotePath]
  | smb =>
    change (files (trim path (bytes "/"))).Ready at h
    show ∃ chunk, smbGetRange files path sink size offset = _
    unfold smbGetRange
    by_cases hs : size = 0
    · -- the loop of the others does not run either
      refine ⟨0, ?_⟩
      rw [hs]
      unfold rangeLoop
      simp [h.opens, RangeRun.early]
    · refine ⟨(files (trim path (bytes "/"))).chunkSize, ?_⟩
      simp only [h.opens, h.allocates, h.seeks, hs, Bool.not_true, Bool.false_eq_true, if_false]
      rfl
  | nfs =>
    refine ⟨bufSize, ?_⟩
    show nfsGetRange files path sink size offset = _
    unfold nfsGetRange
    change (files path).Ready at h
    simp [h.opens, h.allocates, h.seeks, CopyClient.remotePath]

/-- A run that serves the range from `pos` on: what it passed is the beginning
of the range, and 1 says that it is all of it and all was accepted. -/
structure ServesRange (R : Bytes) (sink : Nat → Bool) (k pos size : Nat) (run : RangeRun) :
    Prop where
  passed : run.passed.flatten <+: slice R pos size
  bounded : run.passed.flatten.length ≤ size
  ret : run.ret = 1 ↔
    run.passed.flatten.length = size ∧ ∀ i < run.passed.length, sink (k + i) = true

theorem servesRange_nothing (R : Bytes) (sink : Nat → Bool) (k pos : Nat) {size : Nat}
    (hs : 0 < size) (results : List RangeRead) : ServesRange R sink k pos size ⟨0, [], results⟩ := by
  refine ⟨List.nil_prefix, Nat.zero_le _, iff_of_false (fun h => by cases h) ?_⟩
  rintro ⟨hlen, -⟩
  change 0 = size at hlen
  omega

theorem slice_append (R : Bytes) (pos n m : Nat) :
    slice R pos n ++ slice R (pos + n) m = slice R pos (n + m) := by
  unfold slice
  rw [List.take_add, List.drop_drop]

theorem slice_eq_append {R : Bytes} {pos size : Nat} {buff : Bytes} (hle : buff.length ≤ size)
    (hbuff : buff = slice R pos buff.length) :
    slice R pos size = buff ++ slice R (pos + buff.length) (size - buff.length) :=
  calc slice R pos size
      = slice R pos (buff.length + (size - buff.length)) := by rw [Nat.add_sub_cancel' hle]
    _ = slice R pos buff.length ++ slice R (pos + buff.length) (size - buff.length) :=
        (slice_append _ _ _ _).symm
    _ = buff ++ slice R (pos + buff.length) (size - buff.length) := by rw [← hbuff]

theorem servesRange_cons {R : Bytes} {sink : Nat → Bool} {k pos size : Nat} {buff : Bytes}
    (hle : buff.length ≤ size) (hbuff : buff = slice R pos buff.length) (hk : sink k = true)
    {run : RangeRun}
    (h : ServesRange R sink (k + 1) (pos + buff.length) (size - buff.length) run)
    (results : List RangeRead) :
    ServesRange R sink k pos size ⟨run.ret, buff :: run.passed, results⟩ := by
  have hbound := h.bounded
  refine ⟨?_, ?_, ?_⟩
  · rw [slice_eq_append hle hbuff, List.flatten_cons, List.prefix_append_right_inj]
    exact h.passed
  · rw [List.flatten_cons, List.length_append]
    omega
  · rw [h.ret, List.flatten_cons, List.length_append, List.length_cons]
    constructor
    · rintro ⟨hlen, hall⟩
      refine ⟨by omega, ?_⟩
      intro i hi
      cases i with
      | zero => exact hk
      | succ i =>
        have := hall i (by omega)
        rwa [Nat.add_assoc, Nat.add_comm 1] at this
    · rintro ⟨hlen, hall⟩
      refine ⟨by omega, ?_⟩
      intro i hi
      have := hall (i + 1) (by omega)
      rwa [Nat.add_assoc, Nat.add_comm 1]

theorem servesRange_refused {R : Bytes} {sink : Nat → Bool} {k pos size : Nat} {buff : Bytes}
    (hle : buff.length ≤ size) (hbuff : buff = slice R pos buff.length) (hk : ¬ sink k = true)
    (results : List RangeRead) : ServesRange R sink k pos size ⟨0, [buff], results⟩ := by
  refine ⟨?_, ?_, iff_of_false (fun h => by cases h) ?_⟩
  · rw [List.flatten_singleton, slice_eq_append hle hbuff]
    exact List.prefix_append _ _
  · rwa [List.flatten_singleton]
  · rintro ⟨-, hall⟩
    exact hk (hall 0 (Nat.zero_lt_one))

theorem rangeLoop_serves {R : Bytes} (calls : RangeCalls R) (sink : Nat → Bool)
    (chunk k pos bytesRemaining : Nat) :
    ServesRange R sink k pos bytesRemaining
      (rangeLoop calls sink chunk k pos bytesRemaining) := by
  fun_induction rangeLoop calls sink chunk k pos bytesRemaining with
  | case1 k pos rem hpos hread => exact servesRange_nothing R sink k pos hpos _
  | case2 k pos rem hpos hread => exact servesRange_nothing R sink k pos hpos _
  | case3 k pos rem hpos b bs hread buff hsink run ih =>
    obtain ⟨hle, hbuff, -⟩ := calls.faithful _ _ _ _ hread
    exact servesRange_cons (Nat.le_trans hle (Nat.min_le_right _ _)) hbuff hsink ih _
  | case4 k pos rem hpos b bs hread buff hsink =>
    obtain ⟨hle, hbuff, -⟩ := calls.faithful _ _ _ _ hread
    exact servesRange_refused (Nat.le_trans hle (Nat.min_le_right _ _)) hbuff hsink _
  | case5 k pos rem hpos =>
    have hrem : rem = 0 := by omega
    rw [hrem]
    exact ⟨List.nil_prefix, Nat.le_refl _, iff_of_true rfl ⟨rfl, fun i hi => by cases hi⟩⟩

/-- What a run makes of the results of its reads, whatever the chunk. -/
def replay (sink : Nat → Bool) : Nat → List RangeRead → Int × List Bytes
  | _, [] => (1, [])
  | k, .data (b :: bs) :: results =>
    if sink k then
      let rest := replay sink (k + 1) results
      (rest.1, (b :: bs) :: rest.2)
    else (0, [b :: bs])
  | _, _ => (0, [])

theorem rangeLoop_replay {R : Bytes} (calls : RangeCalls R) (sink : Nat → Bool)
    (chunk k pos bytesRemaining : Nat) :
    let run := rangeLoop calls sink chunk k pos bytesRemaining
    (run.ret, run.passed) = replay sink k run.results := by
  fun_induction rangeLoop calls sink chunk k pos bytesRemaining with
  | case1 | case2 | case5 => rfl
  | case3 k pos rem hpos b bs hread buff hsink run ih =>
    dsimp only
    unfold replay
    rw [if_pos hsink, ← ih]
  | case4 k pos rem hpos b bs hread buff hsink =>
    dsimp only
    unfold replay
    rw [if_neg hsink]

/-- The client and the connection behind a response: the remote files as
provider call `n` finds them, whether write `i` of that call reaches the peer,
and whether the stream is writable and the server shutting down before it. -/
structure Response where
  client : CopyClient
  files : Nat → Bytes → RangeFile
  path : Bytes
  writes : Nat → Nat → Bool
  isWritable : Nat → Bool
  isShuttingDown : Nat → Bool

/-- `data_sink.write` refuses everything behind the first failure. -/
def Response.sink (r : Response) (n i : Nat) : Bool := (List.range (i + 1)).all (r.writes n)

/-- Provider call `n`. -/
def Response.contentProvider (r : Response) (n offset length : Nat) : RangeRun :=
  r.client.getRange (r.files n) r.path (r.sink n) length offset

/-- What the sink has added to the offset after a provider call. -/
def Response.accepted (r : Response) (n : Nat) (run : RangeRun) : Nat :=
  ((run.passed.zipIdx.filter fun p => r.sink n p.2).map Prod.fst).flatten.length

/-- `detail::write_content` from provider call `n` on: the offsets at which the
provider is asked, and the result; `none` when it still runs after `fuel`
calls. -/
def writeContent (r : Response) (endOffset : Nat) : Nat → Nat → Nat → List Nat × Option Bool
  | 0, _, _ => ([], none)
  | fuel + 1, n, offset =>
    if offset < endOffset ∧ !r.isShuttingDown n then
      if !r.isWritable n then ([], some false)
      else
        let run := r.contentProvider n offset (endOffset - offset)
        if run.ret ≠ 1 then ([offset], some false)
        else if (List.range run.passed.length).any fun i => !r.sink n i then ([offset], some false)
        else
          let rest := writeContent r endOffset fuel (n + 1) (offset + r.accepted n run)
          (offset :: rest.1, rest.2)
    else ([], some true)

theorem accepted_eq {r : Response} {n : Nat} {run : RangeRun}
    (h : ∀ i < run.passed.length, r.sink n i = true) :
    r.accepted n run = run.passed.flatten.length := by
  have hall : run.passed.zipIdx.filter (fun p => r.sink n p.2) = run.passed.zipIdx := by
    apply List.filter_eq_self.mpr
    intro p hp
    exact h p.2 (List.snd_lt_of_mem_zipIdx hp)
  unfold Response.accepted
  rw [hall, List.zipIdx_map_fst]

/-- A provider that succeeds has served everything that was missing. -/
theorem writeContent_asks {r : Response}
    (h : ∀ n, (r.files n (r.client.remotePath r.path)).Ready) (endOffset fuel n offset : Nat) :
    let asked := writeContent r endOffset fuel n offset
    (asked.1 = [] ∨ asked.1 = [offset]) ∧ (2 ≤ fuel → asked.2.isSome) := by
  cases fuel with
  | zero => exact ⟨.inl rfl, fun h => by omega⟩
  | succ fuel =>
    dsimp only
    unfold writeContent
    split
    · rename_i hlt
      split
      · exact ⟨.inl rfl, fun _ => rfl⟩
      · dsimp only
        split
        · exact ⟨.inr rfl, fun _ => rfl⟩
        · split
          · exact ⟨.inr rfl, fun _ => rfl⟩
          · rename_i hret hall
            -- the call has moved the offset to the end
            have hserves : ServesRange (r.files n (r.client.remotePath r.path)).content (r.sink n) 0
                offset (endOffset - offset)
                (r.contentProvider n offset (endOffset - offset)) := by
              obtain ⟨chunk, heq⟩ :=
                r.client.getRange_eq (h n) (r.sink n) (endOffset - offset) offset
              unfold Response.contentProvider
              rw [heq]
              exact rangeLoop_serves _ _ _ _ _ _
            obtain ⟨hlen, hsink⟩ := hserves.ret.mp (by simpa using hret)
            have hdone : ¬ offset + r.accepted n (r.contentProvider n offset (endOffset - offset)) <
                endOffset := by
              rw [accepted_eq fun i hi => by simpa using hsink i hi, hlen]
              omega
            cases fuel with
            | zero => exact ⟨.inr rfl, fun h => by omega⟩
            | succ fuel =>
              unfold writeContent
              rw [if_neg fun hc => hdone hc.1]
              exact ⟨.inr rfl, fun _ => rfl⟩
    · exact ⟨.inl rfl, fun _ => rfl⟩

/-- The three functions serve ranges exactly and alike, and httplib asks a
provider once. -/
theorem range_serving :
    (∀ (client : CopyClient) files path sink size offset,
      (files (client.remotePath path)).Ready →
      ServesRange (files (client.remotePath path)).content sink 0 offset size
        (client.getRange files path sink size offset)) ∧
    (∀ (client client' : CopyClient) files files' path path' sink size size' offset offset',
      (files (client.remotePath path)).Ready → (files' (client'.remotePath path')).Ready →
      let run := client.getRange files path sink size offset
      let run' := client'.getRange files' path' sink size' offset'
      run.results = run'.results → run.ret = run'.ret ∧ run.passed = run'.passed) ∧
    ∀ (r : Response) endOffset fuel n offset,
      (∀ n, (r.files n (r.client.remotePath r.path)).Ready) →
      let asked := writeContent r endOffset fuel n offset
      asked.1.Nodup ∧ (2 ≤ fuel → asked.2.isSome) := by
  refine ⟨?_, ?_, ?_⟩
  · intro client files path sink size offset h
    obtain ⟨chunk, heq⟩ := client.getRange_eq h sink size offset
    rw [heq]
    exact rangeLoop_serves _ _ _ _ _ _
  · intro client client' files files' path path' sink size size' offset offset' h h'
    obtain ⟨chunk, heq⟩ := client.getRange_eq h sink size offset
    obtain ⟨chunk', heq'⟩ := client'.getRange_eq h' sink size' offset'
    rw [heq, heq']
    intro run run' hres
    have hrun := rangeLoop_replay (files (client.remotePath path)).calls sink chunk 0 offset size
    have hrun' :=
      rangeLoop_replay (files' (client'.remotePath path')).calls sink chunk' 0 offset' size'
    change (run.ret, run.passed) = _ at hrun
    change (run'.ret, run'.passed) = _ at hrun'
    rw [show (rangeLoop _ sink chunk 0 offset size).results = run'.results from hres] at hrun
    exact Prod.mk.inj (hrun.trans hrun'.symm)
  · intro r endOffset fuel n offset h
    obtain ⟨hasked, hsome⟩ := writeContent_asks h endOffset fuel n offset
    refine ⟨?_, hsome⟩
    rcases hasked with heq | heq
    · rw [heq]
      exact .nil
    · rw [heq]
      exact List.pairwise_singleton _ _

/-- Reads that deliver all that is asked for, where the file has it. -/
def wholeReads (R : Bytes) : RangeCalls R where
  read _ pos want := if want = 0 then .failed else .data (slice R pos want)
  faithful := by
    intro k pos want buff h
    split at h
    · cases h
    · rename_i hwant
      cases h
      refine ⟨?_, (slice_length R pos want).symm, ?_⟩
      · rw [length_slice]
        exact Nat.min_le_left _ _
      · intro hnil
        have hlen := congrArg List.length hnil
        rw [length_slice, List.length_nil] at hlen
        omega

/-- A file of five bytes on a server that allows reads of two. -/
def smallRangeFile : RangeFile :=
  { content := [1, 2, 3, 4, 5], opens := true, seeks := true, allocates := true, negotiated := 2
    calls := wholeReads _ }

theorem range_serving_smb :
    let run := smbGetRange (fun _ => smallRangeFile) (bytes "/a") (fun _ => true) 3 1
    (run.passed = [[2, 3], [4]] ∧ run.ret = 1) ∧
      ServesRange [1, 2, 3, 4, 5] (fun _ => true) 0 1 3 run := by
  refine ⟨?_, range_serving.1 .smb (fun _ => smallRangeFile) (bytes "/a") (fun _ => true) 3 1
    ⟨rfl, rfl, rfl⟩⟩
  simp [smbGetRange, smallRangeFile, RangeFile.chunkSize, wholeReads, rangeLoop, slice, bufSize]

end EzRemote.Transfer

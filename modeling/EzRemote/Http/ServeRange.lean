import EzRemote.Transfer.Range
import EzRemote.Http.RangeHeader
import EzRemote.Lib.Emit

/-!
# Serving a package

What `/bg_install` sends for the ranges of a request: httplib turns each range
into an offset and a length, and has the content provider write them.  The package
is on an SFTP, SMB or NFS host, whose `GetRange` is the loop of
`EzRemote.Transfer.Range`; the FTP and HTTP classes have their own.
-/

namespace EzRemote.Http

open Transfer

def sizeMod : Nat := 18446744073709551616

/-- `static_cast<ssize_t>`. -/
def toSsize (n : Nat) : Int := if n < 9223372036854775808 then n else (n : Int) - sizeMod

/-- A number as `size_t`. -/
def toSize (n : Int) : Nat := (n % sizeMod).toNat

def getRangeOffsetAndLength (range : Range) (contentLength : Nat) : Nat × Nat :=
  if range.1 = -1 ∧ range.2 = -1 then (0, contentLength)
  else
    let slen := toSsize contentLength
    let range := if range.1 = -1 then (max 0 (slen - range.2), slen - 1) else range
    let last := if range.2 = -1 then slen - 1 else range.2
    (toSize range.1, (toSize (last - range.1) + 1) % sizeMod)

def makeContentRangeHeaderField (range : Range) (contentLength : Nat) : Bytes :=
  let ret := getRangeOffsetAndLength range contentLength
  let st := ret.1
  let ed := min (toSize (st + ret.2 - 1)) (toSize (contentLength - 1))
  bytes "bytes " ++ toDecimal st ++ bytes "-" ++ toDecimal ed ++ bytes "/" ++
    toDecimal contentLength

/-- What `process_multipart_ranges_data` hands to `stoken`, `ctoken` and `content`, in order. -/
def multipartRangesData (ranges : List Range) (contentLength : Nat) (boundary contentType : Bytes) :
    List (Emit.Item Bytes (Nat × Nat)) :=
  (ranges.flatMap fun range =>
    [.token (bytes "--"), .token boundary, .token crlf] ++
    (if contentType ≠ [] then
      [.token (bytes "Content-Type: "), .token contentType, .token crlf] else []) ++
    [.token (bytes "Content-Range: "),
      .token (makeContentRangeHeaderField range contentLength), .token crlf, .token crlf,
      .content (getRangeOffsetAndLength range contentLength), .token crlf]) ++
  [.token (bytes "--"), .token boundary, .token (bytes "--")]

/-- The callbacks of `get_multipart_ranges_data_length`. -/
def lengthSink : Emit.Sink Bytes (Nat × Nat) Nat where
  token t dataLength := (dataLength + t.length) % sizeMod
  content c dataLength := (true, (dataLength + c.2) % sizeMod)

def getMultipartRangesDataLength (ranges : List Range) (contentLength : Nat)
    (boundary contentType : Bytes) : Nat :=
  (Emit.run lengthSink (multipartRangesData ranges contentLength boundary contentType) 0).2

/-- A connection for a package of an SFTP, SMB or NFS host: how the calls of the
content provider come out, and how many bytes of direct write `k` the socket
takes, which nobody looks at. -/
structure Connection extends Transfer.Response where
  takes : Nat → Bytes → Nat

/-- The calls of the content provider and the direct writes so far, and what
the peer got of the body. -/
structure Sent where
  calls : Nat
  direct : Nat
  body : Bytes

/-- What the sink accepted of provider call `n`. -/
def acceptedBytes (r : Transfer.Response) (n : Nat) (run : RangeRun) : Bytes :=
  ((run.passed.zipIdx.filter fun p => r.sink n p.2).map Prod.fst).flatten

/-- What the provider calls at these offsets deliver, from call `n` on. -/
def delivered (r : Transfer.Response) (endOffset : Nat) : Nat → List Nat → Bytes
  | _, [] => []
  | n, offset :: asked =>
    acceptedBytes r n (r.contentProvider n offset (endOffset - offset)) ++
      delivered r endOffset (n + 1) asked

/-- `write_content` on the connection. -/
def writeRange (c : Connection) (offset length : Nat) (s : Sent) : Bool × Sent :=
  let endOffset := (offset + length) % sizeMod
  -- the second call of the provider would find nothing left to ask for
  let asked := writeContent c.toResponse endOffset 2 s.calls offset
  (asked.2 = some true,
    { s with
      calls := s.calls + asked.1.length
      body := s.body ++ delivered c.toResponse endOffset s.calls asked.1 })

/-- The callbacks of `write_multipart_ranges_data`. -/
def connectionSink (c : Connection) : Emit.Sink Bytes (Nat × Nat) Sent where
  token t s := { s with direct := s.direct + 1, body := s.body ++ t.take (c.takes s.direct t) }
  content range s := writeRange c range.1 range.2 s

/-- `Server::write_content_with_provider` for a content of known length. -/
def writeContentWithProvider (c : Connection) (ranges : List Range) (contentLength : Nat)
    (boundary contentType : Bytes) : Bool × Sent :=
  match ranges with
  | [] => writeRange c 0 contentLength ⟨0, 0, []⟩
  | [range] =>
    let ret := getRangeOffsetAndLength range contentLength
    writeRange c ret.1 ret.2 ⟨0, 0, []⟩
  | ranges =>
    Emit.run (connectionSink c) (multipartRangesData ranges contentLength boundary contentType)
      ⟨0, 0, []⟩

/-- What goes back for a request, and with what the pooled client is released. -/
structure Answer where
  contentLength : Nat
  contentRange : Option Bytes
  body : Bytes
  released : List Bool

/-- The content type under which `/bg_install` sets its provider. -/
def octetStream : Bytes := bytes "application/octet-stream"

/-- `Server::apply_ranges` on the headers of a content of known length. -/
def applyRanges (ranges : List Range) (contentLength : Nat) (boundary contentType : Bytes) :
    Nat × Option Bytes :=
  match ranges with
  | [] => (contentLength, none)
  | [range] =>
    ((getRangeOffsetAndLength range contentLength).2,
      some (makeContentRangeHeaderField range contentLength))
  | ranges => (getMultipartRangesDataLength ranges contentLength boundary contentType, none)

/-- `/bg_install` behind a parsed Range header, for a record of `size` bytes on such a
host whose client was acquired.  Without a provider, or for HEAD, nothing is written; the
destructor of the response releases the client in every case. -/
def bgInstall (c : Connection) (head : Bool) (ranges : List Range) (size : Nat)
    (boundary : Bytes) : Answer :=
  let headers := if 0 < size then applyRanges ranges size boundary octetStream else (0, none)
  let written :=
    if 0 < size ∧ !head then writeContentWithProvider c ranges size boundary octetStream
    else (false, ⟨0, 0, []⟩)
  ⟨headers.1, headers.2, written.2.body, [written.1]⟩

theorem getRange_serves (client : CopyClient) (files : Bytes → RangeFile) (path : Bytes)
    (sink : Nat → Bool) {size : Nat} (hs : 0 < size) (offset : Nat) :
    ServesRange (files (client.remotePath path)).content sink 0 offset size
      (client.getRange files path sink size offset) := by
  have hearly : ∀ R, ServesRange R sink 0 offset size (.early 0) :=
    fun R => servesRange_nothing R sink 0 offset hs []
  cases client with
  | sftp =>
    show ServesRange (files path).content sink 0 offset size (sftpGetRange files path sink size offset)
    unfold sftpGetRange
    dsimp only
    split
    · exact hearly _
    · split
      · exact hearly _
      · exact rangeLoop_serves _ _ _ _ _ _
  | smb =>
    show ServesRange (files (EzRemote.trim path (bytes "/"))).content sink 0 offset size
      (smbGetRange files path sink size offset)
    unfold smbGetRange
    dsimp only
    rw [if_neg (show ¬ size = 0 by omega)]
    split
    · exact hearly _
    · split
      · exact hearly _
      · split
        · exact hearly _
        · exact rangeLoop_serves _ _ _ _ _ _
  | nfs =>
    show ServesRange (files path).content sink 0 offset size (nfsGetRange files path sink size offset)
    unfold nfsGetRange
    dsimp only
    split
    · exact hearly _
    · split
      · exact hearly _
      · split
        · exact hearly _
        · exact rangeLoop_serves _ _ _ _ _ _

/-- The provider is asked once at most: a call that succeeds has served all. -/
theorem writeContent_eq (r : Transfer.Response) (endOffset n offset : Nat) :
    writeContent r endOffset 2 n offset =
      if offset < endOffset ∧ !r.isShuttingDown n then
        if !r.isWritable n then ([], some false)
        else ([offset],
          some (decide ((r.contentProvider n offset (endOffset - offset)).ret = 1)))
      else ([], some true) := by
  unfold writeContent
  by_cases hlt : offset < endOffset ∧ !r.isShuttingDown n
  · rw [if_pos hlt, if_pos hlt]
    by_cases hw : (!r.isWritable n) = true
    · rw [if_pos hw, if_pos hw]
    · rw [if_neg hw, if_neg hw]
      dsimp only
      have hserves : ServesRange (r.files n (r.client.remotePath r.path)).content (r.sink n) 0 offset
          (endOffset - offset) (r.contentProvider n offset (endOffset - offset)) :=
        getRange_serves _ _ _ _ (by omega) _
      by_cases hret : (r.contentProvider n offset (endOffset - offset)).ret = 1
      · obtain ⟨hlen, hsink⟩ := hserves.ret.mp hret
        -- every write was taken, so the loop is where it was to come to
        have hall : ¬ ((List.range (r.contentProvider n offset (endOffset - offset)).passed.length).any
            fun i => !r.sink n i) = true := by
          rw [List.any_eq_true]
          rintro ⟨i, hi, hfail⟩
          have := hsink i (List.mem_range.mp hi)
          rw [Nat.zero_add] at this
          rw [this] at hfail
          cases hfail
        have hdone : ¬ (offset + r.accepted n (r.contentProvider n offset (endOffset - offset)) <
            endOffset ∧ !r.isShuttingDown (n + 1)) := by
          rw [accepted_eq fun i hi => by simpa using hsink i hi, hlen]
          omega
        rw [if_neg (not_not.mpr hret), if_neg hall]
        unfold writeContent
        rw [if_neg hdone, decide_eq_true hret]
      · rw [if_pos hret, decide_eq_false hret]
  · rw [if_neg hlt, if_neg hlt]

theorem filter_zipIdx_isPrefix {α : Type*} {p : Nat → Bool}
    (hp : ∀ i j, i ≤ j → p j = true → p i = true) (l : List α) (k : Nat) :
    (((l.zipIdx k).filter fun x => p x.2).map Prod.fst) <+: l := by
  induction l generalizing k with
  | nil => exact List.nil_prefix
  | cons a l ih =>
    rw [List.zipIdx_cons]
    by_cases hk : p k = true
    · rw [List.filter_cons, if_pos hk, List.map_cons, List.cons_prefix_cons]
      exact ⟨rfl, ih (k + 1)⟩
    · have hnone : ∀ x ∈ (a, k) :: l.zipIdx (k + 1), ¬ p x.2 = true := by
        intro x hx hpx
        refine hk (hp k x.2 ?_ hpx)
        rcases List.mem_cons.mp hx with rfl | hx
        · exact Nat.le_refl k
        · have := List.le_snd_of_mem_zipIdx hx
          omega
      rw [List.filter_eq_nil_iff.mpr hnone]
      exact List.nil_prefix

theorem acceptedBytes_isPrefix (r : Transfer.Response) (n : Nat) (run : RangeRun) :
    acceptedBytes r n run <+: run.passed.flatten := by
  have hsink : ∀ i j, i ≤ j → r.sink n j = true → r.sink n i = true := by
    intro i j hij hj
    unfold Transfer.Response.sink at hj ⊢
    rw [List.all_eq_true] at hj ⊢
    intro k hk
    exact hj k (List.mem_range.mpr (by have := List.mem_range.mp hk; omega))
  obtain ⟨rest, hrest⟩ := filter_zipIdx_isPrefix hsink run.passed 0
  refine ⟨rest.flatten, ?_⟩
  unfold acceptedBytes
  rw [← List.flatten_append, hrest]

theorem acceptedBytes_eq {r : Transfer.Response} {n : Nat} {run : RangeRun}
    (h : ∀ i < run.passed.length, r.sink n i = true) :
    acceptedBytes r n run = run.passed.flatten := by
  have hall : run.passed.zipIdx.filter (fun p => r.sink n p.2) = run.passed.zipIdx := by
    apply List.filter_eq_self.mpr
    intro p hp
    exact h p.2 (List.snd_lt_of_mem_zipIdx hp)
  unfold acceptedBytes
  rw [hall, List.zipIdx_map_fst]

/-- The file that every call of the provider finds. -/
def Connection.Serves (c : Connection) (R : Bytes) : Prop :=
  ∀ n, (c.files n (c.client.remotePath c.path)).content = R

theorem Connection.Serves.provides {c : Connection} {R : Bytes} (hR : c.Serves R) (n offset : Nat)
    {size : Nat} (hs : 0 < size) :
    ServesRange R (c.sink n) 0 offset size (c.contentProvider n offset size) := by
  rw [← hR n]
  exact getRange_serves _ _ _ _ hs _

/-- Nothing but bytes of the range is written, and success means all of them,
unless the server is being stopped. -/
theorem writeRange_isPrefix {c : Connection} {R : Bytes} (hR : c.Serves R) (offset length : Nat)
    (s : Sent) :
    let endOffset := (offset + length) % sizeMod
    ∃ sent, (writeRange c offset length s).2.body = s.body ++ sent ∧
      sent <+: slice R offset (endOffset - offset) ∧
      ((writeRange c offset length s).1 = true →
        sent = slice R offset (endOffset - offset) ∨ ∃ n, c.isShuttingDown n = true) := by
  intro endOffset
  have hnone : slice R offset 0 = [] := rfl
  unfold writeRange
  dsimp only
  rw [writeContent_eq]
  by_cases hlt : offset < endOffset ∧ !c.isShuttingDown s.calls
  · rw [if_pos hlt]
    by_cases hw : (!c.isWritable s.calls) = true
    · rw [if_pos hw]
      exact ⟨[], rfl, List.nil_prefix, fun h => by cases h⟩
    · rw [if_neg hw]
      have hserves := hR.provides s.calls offset (show 0 < endOffset - offset by omega)
      refine ⟨_, rfl, ?_, ?_⟩
      · rw [delivered, delivered, List.append_nil]
        exact (acceptedBytes_isPrefix _ _ _).trans hserves.passed
      · intro hret
        obtain ⟨hlen, hsink⟩ := hserves.ret.mp (by simpa using hret)
        left
        rw [delivered, delivered, List.append_nil,
          acceptedBytes_eq fun i hi => by simpa using hsink i hi]
        refine hserves.passed.eq_of_length_le ?_
        rw [hlen, length_slice]
        exact Nat.min_le_left _ _
  · rw [if_neg hlt]
    refine ⟨[], rfl, List.nil_prefix, fun _ => ?_⟩
    by_cases hend : offset < endOffset
    · -- the server is being stopped
      right
      refine ⟨s.calls, ?_⟩
      simpa [hend] using hlt
    · left
      rw [show endOffset - offset = 0 by omega]
      exact hnone.symm

/-- Nothing fails: the file opens and its reads deliver, the peer takes what is
written and the server is not stopped. -/
structure Connection.Holds (c : Connection) (R : Bytes) : Prop where
  content : c.Serves R
  ready : ∀ n, (c.files n (c.client.remotePath c.path)).Ready
  reads : ∀ n k pos want, pos < R.length → 0 < want →
    (c.files n (c.client.remotePath c.path)).calls.read k pos want ≠ .failed
  writes : ∀ n i, c.writes n i = true
  writable : ∀ n, c.isWritable n = true
  running : ∀ n, c.isShuttingDown n = false
  takes : ∀ k t, c.takes k t = t.length

theorem rangeLoop_complete {R : Bytes} {calls : RangeCalls R} {sink : Nat → Bool} {chunk : Nat}
    (hreads : ∀ k pos want, pos < R.length → 0 < want → calls.read k pos want ≠ .failed)
    (hsink : ∀ i, sink i = true) (hchunk : 0 < chunk) (k pos rem : Nat) :
    (rangeLoop calls sink chunk k pos rem).passed.flatten = slice R pos rem := by
  have hend : ∀ {pos rem}, R.length ≤ pos → slice R pos rem = [] := by
    intro pos rem h
    unfold slice
    rw [List.drop_eq_nil_iff.mpr h, List.take_nil]
  fun_induction rangeLoop calls sink chunk k pos rem with
  | case1 k pos rem hpos hread =>
    -- a read fails at the end of the file only
    refine (hend ?_).symm
    by_contra hlt
    exact hreads k pos _ (by omega) (by omega) hread
  | case2 k pos rem hpos hread =>
    exact (hend ((calls.faithful _ _ _ _ hread).2.2 rfl)).symm
  | case3 k pos rem hpos b bs hread buff hsinkk run ih =>
    obtain ⟨hle, hbuff, -⟩ := calls.faithful _ _ _ _ hread
    show buff ++ run.passed.flatten = _
    rw [ih, ← slice_eq_append (Nat.le_trans hle (Nat.min_le_right _ _)) hbuff]
  | case4 k pos rem hpos b bs hread buff hsinkk => exact absurd (hsink k) hsinkk
  | case5 k pos rem hpos =>
    rw [show rem = 0 by omega]
    rfl

theorem chunkSize_pos (file : RangeFile) : 0 < file.chunkSize := by
  unfold RangeFile.chunkSize
  split
  · rename_i h
    exact h.1
  · decide

/-- On a connection that holds the three clients are the loop. -/
theorem getRange_eq_loop (client : CopyClient) {files : Bytes → RangeFile} {path : Bytes}
    (h : (files (client.remotePath path)).Ready) (sink : Nat → Bool) {size : Nat} (hs : 0 < size)
    (offset : Nat) :
    ∃ chunk, 0 < chunk ∧ client.getRange files path sink size offset =
      rangeLoop (files (client.remotePath path)).calls sink chunk 0 offset size := by
  cases client with
  | sftp =>
    change (files path).Ready at h
    refine ⟨bufSize, by decide, ?_⟩
    show sftpGetRange files path sink size offset = _
    unfold sftpGetRange
    simp [h.opens, h.allocates, CopyClient.remotePath]
  | smb =>
    change (files (EzRemote.trim path (bytes "/"))).Ready at h
    refine ⟨_, chunkSize_pos (files (EzRemote.trim path (bytes "/"))), ?_⟩
    show smbGetRange files path sink size offset = _
    unfold smbGetRange
    simp only [h.opens, h.allocates, h.seeks, show ¬ size = 0 by omega, Bool.not_true,
      Bool.false_eq_true, if_false]
    rfl
  | nfs =>
    change (files path).Ready at h
    refine ⟨bufSize, by decide, ?_⟩
    show nfsGetRange files path sink size offset = _
    unfold nfsGetRange
    simp [h.opens, h.allocates, h.seeks, CopyClient.remotePath]

theorem writeRange_holds {c : Connection} {R : Bytes} (h : c.Holds R) (offset length : Nat)
    (s : Sent) :
    let endOffset := (offset + length) % sizeMod
    (writeRange c offset length s).2.body = s.body ++ slice R offset (endOffset - offset) ∧
      ((writeRange c offset length s).1 = true ↔ (offset < endOffset → endOffset ≤ R.length)) := by
  intro endOffset
  have hnone : slice R offset 0 = [] := rfl
  unfold writeRange
  dsimp only
  rw [writeContent_eq]
  by_cases hlt : offset < endOffset
  · have hgo : offset < endOffset ∧ (!c.isShuttingDown s.calls) = true := by
      rw [h.running]
      exact ⟨hlt, rfl⟩
    have hw : ¬ (!c.isWritable s.calls) = true := by
      rw [h.writable]
      decide
    rw [if_pos hgo, if_neg hw]
    have hsink : ∀ i, c.sink s.calls i = true := by
      intro i
      unfold Transfer.Response.sink
      rw [List.all_eq_true]
      exact fun k _ => h.writes s.calls k
    have hpassed : (c.contentProvider s.calls offset (endOffset - offset)).passed.flatten =
        slice R offset (endOffset - offset) := by
      obtain ⟨chunk, hchunk, heq⟩ := getRange_eq_loop c.client (h.ready s.calls) (c.sink s.calls)
        (show 0 < endOffset - offset by omega) offset
      have hreads := h.reads s.calls
      have hR := h.content s.calls
      unfold Transfer.Response.contentProvider
      rw [heq]
      rw [← hR] at hreads ⊢
      exact rangeLoop_complete hreads hsink hchunk _ _ _
    have hserves := h.content.provides s.calls offset (show 0 < endOffset - offset by omega)
    refine ⟨?_, ?_⟩
    · rw [delivered, delivered, List.append_nil, acceptedBytes_eq fun i _ => hsink i, hpassed]
    · simp only [Option.some.injEq, decide_eq_true_eq]
      rw [hserves.ret, hpassed, length_slice]
      constructor
      · rintro ⟨hlen, -⟩ -
        omega
      · intro hle
        exact ⟨by have := hle hlt; omega, fun i _ => hsink _⟩
  · rw [if_neg fun hc => hlt hc.1, show endOffset - offset = 0 by omega, hnone]
    exact ⟨rfl, iff_of_true rfl fun hc => absurd hc hlt⟩

/-- The first position of a range. -/
def firstOf (r : Range) (size : Nat) : Nat :=
  if r.1 = -1 then (if r.2 = -1 then 0 else size - r.2.toNat) else r.1.toNat

/-- The position behind the last one of a range. -/
def pastOf (r : Range) (size : Nat) : Nat :=
  if r.1 = -1 ∨ r.2 = -1 then size else r.2.toNat + 1

theorem firstOf_lt {r : Range} (hr : Valid r) {size : Nat} (hs : size < 9223372036854775808) :
    firstOf r size < 9223372036854775808 := by
  have := hr.first
  unfold firstOf
  split
  · split <;> omega
  · omega

theorem pastOf_le {r : Range} (hr : Valid r) {size : Nat} (hs : size < 9223372036854775808) :
    pastOf r size ≤ 9223372036854775808 := by
  have := hr.last
  unfold pastOf
  split <;> omega

/-- The offset is the first position, and the length what is missing to the end
of the range, or that much less than `size_t` holds. -/
theorem getRangeOffsetAndLength_eq {r : Range} (hr : Valid r) {size : Nat}
    (hs : size < 9223372036854775808) :
    getRangeOffsetAndLength r size =
      (firstOf r size,
        if firstOf r size ≤ pastOf r size then pastOf r size - firstOf r size
        else sizeMod - (firstOf r size - pastOf r size)) := by
  obtain ⟨⟨hf, hf'⟩, ⟨hl, hl'⟩, horder⟩ := hr
  have hslen : toSsize size = size := if_pos hs
  by_cases h1 : r.1 = -1
  · have hpast : pastOf r size = size := if_pos (.inl h1)
    by_cases h2 : r.2 = -1
    · have hfirst : firstOf r size = 0 := by rw [firstOf, if_pos h1, if_pos h2]
      rw [getRangeOffsetAndLength, if_pos ⟨h1, h2⟩, hfirst, hpast, if_pos (Nat.zero_le _),
        Nat.sub_zero]
    · have hfirst : firstOf r size = size - r.2.toNat := by rw [firstOf, if_pos h1, if_neg h2]
      rw [getRangeOffsetAndLength, if_neg fun h => h2 h.2, hslen, hfirst, hpast,
        if_pos (Nat.sub_le _ _)]
      dsimp only
      rw [if_pos h1]
      dsimp only
      rw [ite_self]
      unfold toSize sizeMod
      refine Prod.ext ?_ ?_ <;> dsimp only <;> omega
  · have hfirst : firstOf r size = r.1.toNat := by rw [firstOf, if_neg h1]
    rw [getRangeOffsetAndLength, if_neg fun h => h1 h.1, hslen, hfirst]
    dsimp only
    rw [if_neg h1]
    unfold toSize sizeMod
    by_cases h2 : r.2 = -1
    · have hpast : pastOf r size = size := if_pos (.inr h2)
      rw [if_pos h2, hpast]
      refine Prod.ext ?_ ?_ <;> dsimp only
      · omega
      · split <;> omega
    · have hpast : pastOf r size = r.2.toNat + 1 := if_neg (by omega)
      rw [if_neg h2, hpast]
      refine Prod.ext ?_ ?_ <;> dsimp only
      · omega
      · split <;> omega

theorem endOffset_eq {r : Range} (hr : Valid r) {size : Nat} (hs : size < 9223372036854775808) :
    ((getRangeOffsetAndLength r size).1 + (getRangeOffsetAndLength r size).2) % sizeMod =
      pastOf r size := by
  have hfirst := firstOf_lt hr hs
  have hpast := pastOf_le hr hs
  rw [getRangeOffsetAndLength_eq hr hs]
  unfold sizeMod
  dsimp only
  split <;> omega

/-- A range that names positions of a content of this size. -/
structure Within (r : Range) (size : Nat) : Prop where
  some : 0 < size
  suffix : r.1 = -1 → r.2 ≠ 0
  bounds : r.1 ≠ -1 → r.1 < size ∧ r.2 < size

theorem within_iff {r : Range} (hr : Valid r) (size : Nat) :
    Within r size ↔ firstOf r size < pastOf r size ∧ pastOf r size ≤ size := by
  obtain ⟨⟨hf, hf'⟩, ⟨hl, hl'⟩, horder⟩ := hr
  by_cases h1 : r.1 = -1
  · have hpast : pastOf r size = size := if_pos (.inl h1)
    have hfirst : firstOf r size = if r.2 = -1 then 0 else size - r.2.toNat := if_pos h1
    rw [hfirst, hpast]
    constructor
    · rintro ⟨hs, hsuffix, -⟩
      have := hsuffix h1
      split <;> omega
    · intro h
      refine ⟨by omega, fun _ h2 => ?_, fun hne => absurd h1 hne⟩
      rw [h2, if_neg (by decide)] at h
      omega
  · have hfirst : firstOf r size = r.1.toNat := if_neg h1
    have hpast : pastOf r size = if r.2 = -1 then size else r.2.toNat + 1 := by
      unfold pastOf
      simp only [h1, false_or]
    rw [hfirst, hpast]
    constructor
    · rintro ⟨hs, -, hbounds⟩
      have := hbounds h1
      split <;> omega
    · intro h
      refine ⟨by omega, fun heq => absurd heq h1, fun _ => ?_⟩
      split at h <;> omega

/-- The Content-Range of these positions of a content of this size. -/
def contentRangeText (first last size : Nat) : Bytes :=
  bytes "bytes " ++ toDecimal first ++ bytes "-" ++ toDecimal last ++ bytes "/" ++ toDecimal size

theorem contentRangeText_inj {first last first' last' size : Nat}
    (h : contentRangeText first last size = contentRangeText first' last' size) :
    first = first' ∧ last = last' := by
  have hhyphen : ∀ x : Bytes, ∀ b ∈ (bytes "-" ++ x).head?, Decimal.isDigit b = false := by
    rintro x b ⟨⟩
    decide
  have hslash : ∀ x : Bytes, ∀ b ∈ (bytes "/" ++ x).head?, Decimal.isDigit b = false := by
    rintro x b ⟨⟩
    decide
  simp only [contentRangeText, List.append_assoc, toDecimal_natCast,
    List.append_cancel_left_eq] at h
  obtain ⟨hfirst, h⟩ := Decimal.ofNat_append_inj (hhyphen _) (hhyphen _) h
  rw [List.append_cancel_left_eq] at h
  exact ⟨hfirst, (Decimal.ofNat_append_inj (hslash _) (hslash _) h).1⟩

/-- An answer that is a part of the content: it names its positions, announces
as many bytes, and has these bytes. -/
structure PartialContent (R : Bytes) (first last : Nat) (a : Answer) : Prop where
  ordered : first ≤ last
  inside : last < R.length
  contentRange : a.contentRange = some (contentRangeText first last R.length)
  contentLength : a.contentLength = last - first + 1
  body : a.body = slice R first (last - first + 1)

theorem contentRange_field {r : Range} (hr : Valid r) {size : Nat} (hpos : 0 < size)
    (hs : size < 9223372036854775808) :
    ∃ last, makeContentRangeHeaderField r size = contentRangeText (firstOf r size) last size ∧
      last < size ∧ (firstOf r size < pastOf r size → last = min (pastOf r size) size - 1) := by
  have hfirst := firstOf_lt hr hs
  have hpast := pastOf_le hr hs
  unfold makeContentRangeHeaderField
  rw [getRangeOffsetAndLength_eq hr hs]
  refine ⟨_, rfl, ?_, ?_⟩
  · unfold toSize sizeMod
    omega
  · intro hlt
    rw [if_pos (Nat.le_of_lt hlt)]
    unfold toSize sizeMod
    omega

theorem bgInstall_range (c : Connection) (r : Range) {size : Nat} (hpos : 0 < size)
    (boundary : Bytes) :
    let ret := getRangeOffsetAndLength r size
    let written := writeRange c ret.1 ret.2 ⟨0, 0, []⟩
    bgInstall c false [r] size boundary =
      ⟨ret.2, some (makeContentRangeHeaderField r size), written.2.body, [written.1]⟩ := by
  unfold bgInstall
  rw [if_pos hpos, if_pos ⟨hpos, rfl⟩]
  rfl

theorem partialContent_iff {c : Connection} {R : Bytes} (hc : c.Holds R)
    (hR : R.length < 9223372036854775808) {r : Range} (hr : Valid r) (boundary : Bytes) :
    ((∃ first last, PartialContent R first last (bgInstall c false [r] R.length boundary)) ↔
      Within r R.length) ∧
    (Within r R.length → (bgInstall c false [r] R.length boundary).released = [true]) := by
  rw [within_iff hr]
  have hfirst := firstOf_lt hr hR
  have hpast := pastOf_le hr hR
  by_cases hpos : 0 < R.length
  · obtain ⟨last, hfield, hlast, hlast_eq⟩ := contentRange_field hr hpos hR
    obtain ⟨hbody, hok⟩ := writeRange_holds hc (getRangeOffsetAndLength r R.length).1
      (getRangeOffsetAndLength r R.length).2 ⟨0, 0, []⟩
    rw [endOffset_eq hr hR] at hbody hok
    rw [bgInstall_range c r hpos]
    dsimp only
    rw [hfield, hbody]
    rw [getRangeOffsetAndLength_eq hr hR] at hok ⊢
    dsimp only at hok ⊢
    refine ⟨⟨?_, ?_⟩, ?_⟩
    · rintro ⟨first', last', hordered, hinside, hrange, hlength, -⟩
      obtain ⟨rfl, rfl⟩ := contentRangeText_inj (Option.some.inj hrange)
      dsimp only at hlength
      split at hlength
      · have := hlast_eq (by omega)
        omega
      · unfold sizeMod at hlength
        omega
    · rintro ⟨hlt, hle⟩
      have hlast := hlast_eq hlt
      refine ⟨firstOf r R.length, last, by omega, by omega, rfl, ?_, ?_⟩
      · dsimp only
        rw [if_pos (Nat.le_of_lt hlt)]
        omega
      · dsimp only
        rw [List.nil_append, show last - firstOf r R.length + 1 =
          pastOf r R.length - firstOf r R.length by omega]
    · rintro ⟨-, hle⟩
      exact congrArg (fun b => [b]) (hok.mpr fun _ => hle)
  · refine ⟨iff_of_false ?_ ?_, ?_⟩
    · rintro ⟨first, last, -, hinside, -⟩
      omega
    · omega
    · omega

/-- Whatever fails, the peer gets a beginning of what it asked for, and the
client is released once, as successful only with all of it sent or the server
being stopped.  Where nothing fails the answer is a part of the package exactly
for ranges within it; the server does not cut a range that reaches past the end. -/
theorem bg_install_range_iff {c : Connection} {R : Bytes} (hc : c.Serves R)
    (hR : R.length < 9223372036854775808) {r : Range} (hr : Valid r) (head : Bool)
    (boundary : Bytes) :
    let wanted := slice R (firstOf r R.length) (pastOf r R.length - firstOf r R.length)
    let a := bgInstall c head [r] R.length boundary
    (a.body <+: wanted ∧ ∃ ok, a.released = [ok] ∧
      (ok = true → a.body = wanted ∨ ∃ n, c.isShuttingDown n = true)) ∧
    (c.Holds R → head = false →
      ((∃ first last, PartialContent R first last a) ↔ Within r R.length) ∧
      (Within r R.length → a.released = [true])) := by
  intro wanted a
  refine ⟨?_, ?_⟩
  · by_cases hgo : 0 < R.length ∧ head = false
    · obtain ⟨hpos, rfl⟩ := hgo
      obtain ⟨sent, hbody, hsent, hok⟩ := writeRange_isPrefix hc
        (getRangeOffsetAndLength r R.length).1 (getRangeOffsetAndLength r R.length).2 ⟨0, 0, []⟩
      rw [endOffset_eq hr hR] at hsent hok
      have hoffset : (getRangeOffsetAndLength r R.length).1 = firstOf r R.length := by
        rw [getRangeOffsetAndLength_eq hr hR]
      rw [hoffset] at hsent hok
      have ha : a = _ := bgInstall_range c r hpos boundary
      rw [ha]
      dsimp only
      rw [hbody, List.nil_append]
      rw [hoffset]
      exact ⟨hsent, _, rfl, hok⟩
    · have ha : a.body = [] ∧ a.released = [false] := by
        show (bgInstall c head [r] R.length boundary).body = [] ∧ _
        have hgo' : ¬ (0 < R.length ∧ (!head) = true) := by
          simpa using hgo
        unfold bgInstall
        rw [if_neg hgo']
        exact ⟨rfl, by
          show (bgInstall c head [r] R.length boundary).released = [false]
          unfold bgInstall
          rw [if_neg hgo']⟩
      rw [ha.1]
      exact ⟨List.nil_prefix, false, ha.2, fun h => by cases h⟩
  · rintro hholds rfl
    exact partialContent_iff hholds hR hr boundary

/-- A package of five bytes, on a connection that holds. -/
def smallConnection : Connection where
  client := .smb
  files _ _ := smallRangeFile
  path := bytes "/a"
  writes _ _ := true
  isWritable _ := true
  isShuttingDown _ := false
  takes _ t := t.length

theorem smallConnection_holds : smallConnection.Holds [1, 2, 3, 4, 5] where
  content _ := rfl
  ready _ := ⟨rfl, rfl, rfl⟩
  reads := by
    intro n k pos want hpos hwant hread
    change (if want = 0 then RangeRead.failed else _) = _ at hread
    rw [if_neg (by omega)] at hread
    cases hread
  writes _ _ := rfl
  writable _ := rfl
  running _ := rfl
  takes _ _ := rfl

theorem bg_install_range_middle :
    (∃ first last, PartialContent [1, 2, 3, 4, 5] first last
      (bgInstall smallConnection false [(1, 3)] 5 (bytes "b"))) ∧
    ¬ ∃ first last, PartialContent [1, 2, 3, 4, 5] first last
      (bgInstall smallConnection false [(1, 9)] 5 (bytes "b")) := by
  have hvalid : ∀ n : Nat, 0 < n → n < 10 → Valid (1, n) := by
    intro n hn hle
    refine ⟨?_, ?_, .inr (.inr ?_)⟩ <;> dsimp only <;> omega
  have hserves : smallConnection.Serves [1, 2, 3, 4, 5] := fun _ => rfl
  constructor
  · have h := bg_install_range_iff hserves (by decide) (hvalid 3 (by decide) (by decide)) false
      (bytes "b")
    exact (h.2 smallConnection_holds rfl).1.mpr ⟨by decide, by decide, fun _ => by decide⟩
  · have h := bg_install_range_iff hserves (by decide) (hvalid 9 (by decide) (by decide)) false
      (bytes "b")
    intro hpart
    have hwithin := (h.2 smallConnection_holds rfl).1.mp hpart
    exact absurd (hwithin.bounds (by decide)).2 (by decide)

theorem past_le_iff {r : Range} (hr : Valid r) (size : Nat) :
    (firstOf r size < pastOf r size → pastOf r size ≤ size) ↔ (r.1 ≠ -1 → r.2 < size) := by
  obtain ⟨⟨hf, hf'⟩, ⟨hl, hl'⟩, horder⟩ := hr
  by_cases h : r.1 = -1 ∨ r.2 = -1
  · have hpast : pastOf r size = size := if_pos h
    rw [hpast]
    refine iff_of_true (fun _ => Nat.le_refl _) fun h1 => ?_
    rcases h with h | h <;> omega
  · have hfirst : firstOf r size = r.1.toNat := if_neg fun h1 => h (.inl h1)
    have hpast : pastOf r size = r.2.toNat + 1 := if_neg h
    rw [hfirst, hpast]
    omega

theorem content_mem_iff {ranges : List Range} {size : Nat} {boundary contentType : Bytes}
    {range : Nat × Nat} :
    .content range ∈ multipartRangesData ranges size boundary contentType ↔
      ∃ r ∈ ranges, range = getRangeOffsetAndLength r size := by
  unfold multipartRangesData
  constructor
  · intro h
    rcases List.mem_append.mp h with h | h
    · obtain ⟨r, hr, h⟩ := List.mem_flatMap.mp h
      refine ⟨r, hr, ?_⟩
      split at h <;> simpa using h
    · simp at h
  · rintro ⟨r, hr, rfl⟩
    refine List.mem_append_left _ (List.mem_flatMap.mpr ⟨r, hr, ?_⟩)
    simp

end EzRemote.Http

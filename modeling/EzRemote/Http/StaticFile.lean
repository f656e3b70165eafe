import EzRemote.Http.ServeRange
import EzRemote.Http.SocketStream
import EzRemote.Lib.Tokens
import EzRemote.Lib.Walk

/-!
# Static files

Which file of the mount points a request path opens, and what the provider of a
mapped file reads for the ranges of a request.
-/

namespace EzRemote.Http

open Transfer

theorem length_behind_component {path : Bytes} (h : path ≠ []) :
    ((path.dropWhile (· ≠ slash)).dropWhile (· = slash)).length < path.length := by
  cases path with
  | nil => exact absurd rfl h
  | cons b path =>
    have hrest := (List.dropWhile_sublist (· = slash) (l := path)).length_le
    by_cases hb : b = slash
    · rw [List.dropWhile_cons_of_neg (by simpa using hb), List.dropWhile_cons_of_pos (by simpa using hb)]
      exact Nat.lt_succ_of_le hrest
    · have hbehind := (List.dropWhile_sublist (· ≠ slash) (l := path)).length_le
      rw [List.dropWhile_cons_of_pos (by simpa using hb)]
      exact Nat.lt_succ_of_le (((List.dropWhile_sublist _).length_le).trans hbehind)

/-- The loop of `is_valid_path`, behind the slashes in front of a component. -/
def isValidFrom (level : Nat) (path : Bytes) : Bool :=
  if path = [] then true
  else
    let component := path.takeWhile (· ≠ slash)
    let rest := (path.dropWhile (· ≠ slash)).dropWhile (· = slash)
    if 0 ∈ component then false
    else if component = [46] then isValidFrom level rest
    else if component = [46, 46] then
      if level = 0 then false else isValidFrom (level - 1) rest
    else isValidFrom (level + 1) rest
termination_by path.length
decreasing_by all_goals exact length_behind_component ‹_›

def isValidPath (path : Bytes) : Bool := isValidFrom 0 (path.dropWhile (· = slash))

/-- A directory of the server's disk under a path of its requests. -/
structure MountPointEntry where
  mountPoint : Bytes
  baseDir : Bytes

/-- The disk: which names are regular files, and what `mmap` maps of one. -/
structure Disk where
  isFile : Bytes → Bool
  mapped : Bytes → Option Bytes

/-- The file name that `handle_file_request` tries for a path. -/
def filePath (baseDir subPath : Bytes) : Bytes :=
  let path := baseDir ++ subPath
  if path.getLast? = some slash then path ++ bytes "index.html" else path

/-- `Server::handle_file_request`: the name of the file and its content. -/
def handleFileRequest (disk : Disk) (path : Bytes) : List MountPointEntry → Option (Bytes × Bytes)
  | [] => none
  | entry :: entries =>
    let subPath := slash :: path.drop entry.mountPoint.length
    let file := filePath entry.baseDir subPath
    if entry.mountPoint.isPrefixOf path ∧ isValidPath subPath ∧ disk.isFile (cStr file) then
      (disk.mapped (cStr file)).map (file, ·)
    else handleFileRequest disk path entries

/-- The directory or file that an absolute name leads to, where no name is a
symbolic link. -/
def resolve (path : Bytes) : List Bytes := Walk.walk [46] [46, 46] [] (tokens slash path)

theorem head_behind_slashes (path : Bytes) :
    (path.dropWhile (· = slash)).head? ≠ some slash := by
  intro h
  have hnot := List.head?_dropWhile_not (· = slash) path
  rw [h] at hnot
  simp at hnot

theorem zero_mem_behind_slashes (path : Bytes) : 0 ∈ path.dropWhile (· = slash) ↔ 0 ∈ path := by
  have hjoin := List.takeWhile_append_dropWhile (p := (· = slash)) (l := path)
  have hfront : 0 ∉ path.takeWhile (· = slash) := by
    intro h
    have := List.mem_takeWhile_imp h
    revert this
    decide
  conv_rhs => rw [← hjoin]
  rw [List.mem_append, or_iff_right hfront]

theorem isValidFrom_iff (level : Nat) {path : Bytes} (hpath : path.head? ≠ some slash) :
    isValidFrom level path = true ↔
      0 ∉ path ∧ Walk.admits [46] [46, 46] level (tokens slash path) = true := by
  have hsplit : ∀ path : Bytes, path ≠ [] → path.head? ≠ some slash →
      (0 ∉ path ↔ 0 ∉ path.takeWhile (· ≠ slash) ∧
        0 ∉ (path.dropWhile (· ≠ slash)).dropWhile (· = slash)) ∧
      tokens slash path = path.takeWhile (· ≠ slash) ::
        tokens slash ((path.dropWhile (· ≠ slash)).dropWhile (· = slash)) := by
    intro path hne hpath
    have hjoin := List.takeWhile_append_dropWhile (p := (· ≠ slash)) (l := path)
    rw [zero_mem_behind_slashes, tokens_dropWhile]
    constructor
    · conv_lhs => rw [← hjoin]
      rw [List.mem_append, not_or]
    · obtain ⟨b, rest, rfl⟩ := List.exists_cons_of_ne_nil hne
      exact tokens_of_ne (fun hb => hpath (congrArg some hb)) rest
  fun_induction isValidFrom level path with
  | case1 => exact iff_of_true rfl ⟨List.not_mem_nil, by rw [tokens_nil]; rfl⟩
  | case2 level path hne component hzero =>
    refine iff_of_false Bool.false_ne_true fun h => ?_
    exact ((hsplit path hne hpath).1.mp h.1).1 hzero
  | case3 level path hne component rest hzero hdot ih =>
    obtain ⟨hmem, htokens⟩ := hsplit path hne hpath
    refine (ih (head_behind_slashes _)).trans ?_
    rw [hmem, htokens, Walk.admits_cons, if_pos hdot]
    exact and_congr_left fun _ => (and_iff_right hzero).symm
  | case4 path hne component hzero hdot hparent =>
    obtain ⟨-, htokens⟩ := hsplit path hne hpath
    refine iff_of_false Bool.false_ne_true fun h => ?_
    have := h.2
    rw [htokens, Walk.admits_cons, if_neg hdot, if_pos hparent] at this
    cases this
  | case5 level path hne component rest hzero hdot hparent hlevel ih =>
    obtain ⟨hmem, htokens⟩ := hsplit path hne hpath
    obtain ⟨n, rfl⟩ := Nat.exists_eq_succ_of_ne_zero hlevel
    refine (ih (head_behind_slashes _)).trans ?_
    rw [hmem, htokens, Walk.admits_cons, if_neg hdot, if_pos hparent]
    exact and_congr_left fun _ => (and_iff_right hzero).symm
  | case6 level path hne component rest hzero hdot hparent ih =>
    obtain ⟨hmem, htokens⟩ := hsplit path hne hpath
    refine (ih (head_behind_slashes _)).trans ?_
    rw [hmem, htokens, Walk.admits_cons, if_neg hdot, if_neg hparent]
    exact and_congr_left fun _ => (and_iff_right hzero).symm

/-- A path is valid if it has no NUL and its walk never leaves the directory it
begins in. -/
theorem isValidPath_iff (path : Bytes) {dir : List Bytes} (hdir : dir ≠ []) :
    isValidPath path = true ↔ 0 ∉ path ∧ Walk.Stays [46] [46, 46] dir (tokens slash path) := by
  unfold isValidPath
  rw [isValidFrom_iff 0 (head_behind_slashes path), zero_mem_behind_slashes, tokens_dropWhile,
    Walk.admits_iff hdir]

theorem resolve_append (baseDir subPath : Bytes) :
    resolve (baseDir ++ slash :: subPath) =
      Walk.walk [46] [46, 46] (resolve baseDir) (tokens slash subPath) := by
  unfold resolve
  rw [tokens_append_cons, Walk.walk_append]

/-- The file that is tried for a valid path is below the directory. -/
theorem filePath_below {baseDir subPath : Bytes} (hdir : resolve baseDir ≠ [])
    (hvalid : isValidPath (slash :: subPath) = true) :
    resolve baseDir <+: resolve (filePath baseDir (slash :: subPath)) := by
  obtain ⟨-, hstays⟩ := (isValidPath_iff _ hdir).mp hvalid
  rw [tokens_cons_self] at hstays
  unfold filePath
  dsimp only
  split
  · rename_i hlast
    -- the walk ends with one more name
    have hindex : bytes "index.html" ≠ [46, 46] := by decide
    have hfile : baseDir ++ slash :: subPath ++ bytes "index.html" =
        baseDir ++ slash :: (subPath ++ bytes "index.html") := by
      rw [List.append_assoc, List.cons_append]
    have htokens : tokens slash (subPath ++ bytes "index.html") =
        tokens slash subPath ++ [bytes "index.html"] := by
      have hone : tokens slash (bytes "index.html") = [bytes "index.html"] :=
        tokens_of_notMem (by decide) (by decide)
      cases subPath using List.reverseRecOn with
      | nil => rw [List.nil_append, hone, tokens_nil, List.nil_append]
      | append_singleton front last =>
        have hslash : last = slash := by
          rw [← List.cons_append, ← List.append_assoc, List.getLast?_concat] at hlast
          exact Option.some.inj hlast
        rw [hslash, List.append_assoc, List.singleton_append, tokens_append_cons, tokens_append_cons,
          hone, tokens_nil, List.append_nil]
    rw [hfile, resolve_append, htokens]
    exact (hstays.concat hindex).isPrefix
  · rw [resolve_append]
    exact hstays.isPrefix

theorem handleFileRequest_eq_some {disk : Disk} {path : Bytes} {entries : List MountPointEntry}
    {file content : Bytes} (h : handleFileRequest disk path entries = some (file, content)) :
    ∃ entry ∈ entries, ∃ subPath, file = filePath entry.baseDir (slash :: subPath) ∧
      isValidPath (slash :: subPath) = true ∧ disk.isFile (cStr file) = true ∧
      disk.mapped (cStr file) = some content := by
  induction entries with
  | nil => cases h
  | cons entry entries ih =>
    unfold handleFileRequest at h
    dsimp only at h
    split at h
    · rename_i hgo
      obtain ⟨-, hvalid, hfile⟩ := hgo
      obtain ⟨mapped, hmapped, heq⟩ := Option.map_eq_some_iff.mp h
      cases heq
      exact ⟨entry, List.mem_cons_self, _, rfl, hvalid, hfile, hmapped⟩
    · obtain ⟨entry', hentry', hrest⟩ := ih h
      exact ⟨entry', List.mem_cons_of_mem _ hentry', hrest⟩

/-- No request reads a file outside of the directories of the mount points, the
name that is opened is the one that was checked, and the check refuses no more
than it has to. -/
theorem static_files_contained (disk : Disk) (entries : List MountPointEntry)
    (hdirs : ∀ entry ∈ entries, resolve entry.baseDir ≠ [] ∧ 0 ∉ entry.baseDir) (path : Bytes) :
    (∀ file content, handleFileRequest disk path entries = some (file, content) →
      cStr file = file ∧ ∃ entry ∈ entries, resolve entry.baseDir <+: resolve file) ∧
    (∀ entry ∈ entries, isValidPath path = true ↔
      0 ∉ path ∧ ∀ front, front <+: tokens slash path →
        resolve entry.baseDir <+: Walk.walk [46] [46, 46] (resolve entry.baseDir) front) := by
  constructor
  · intro file content h
    obtain ⟨entry, hentry, subPath, rfl, hvalid, -, -⟩ := handleFileRequest_eq_some h
    obtain ⟨hdir, hzero⟩ := hdirs entry hentry
    refine ⟨cStr_of_notMem ?_, entry, hentry, filePath_below hdir hvalid⟩
    have hsub := ((isValidPath_iff _ hdir).mp hvalid).1
    have hpath : 0 ∉ entry.baseDir ++ slash :: subPath :=
      fun h => (List.mem_append.mp h).elim hzero hsub
    unfold filePath
    dsimp only
    split
    · intro hmem
      rcases List.mem_append.mp hmem with hmem | hmem
      · exact hpath hmem
      · revert hmem
        decide
    · exact hpath
  · intro entry hentry
    exact isValidPath_iff path (hdirs entry hentry).1

/-- The mount point of the server. -/
def assets : MountPointEntry :=
  ⟨bytes "/", bytes "/data/homebrew/ezremote-client/assets/"⟩

/-- A disk where every name is a file of one byte. -/
def smallDisk : Disk := ⟨fun _ => true, fun _ => some [60]⟩

theorem static_files_contained_parent :
    ∃ file, handleFileRequest smallDisk (bytes "/a/../b") [assets] = some (file, [60]) ∧
      cStr file = file ∧ ∃ entry ∈ [assets], resolve entry.baseDir <+: resolve file := by
  have hbase : resolve assets.baseDir ≠ [] ∧ 0 ∉ assets.baseDir := ⟨by decide, by decide⟩
  have hdirs : ∀ entry ∈ [assets], resolve entry.baseDir ≠ [] ∧ 0 ∉ entry.baseDir :=
    List.forall_mem_singleton.mpr hbase
  have hstays : Walk.Stays [46] [46, 46] (resolve assets.baseDir)
      (tokens slash (bytes "/a/../b")) :=
    (Walk.admits_iff hbase.1).mp (by decide)
  have hvalid : isValidPath (bytes "/a/../b") = true :=
    (isValidPath_iff _ hbase.1).mpr ⟨by decide, hstays⟩
  have hserved : handleFileRequest smallDisk (bytes "/a/../b") [assets] =
      some (filePath assets.baseDir (bytes "/a/../b"), [60]) := by
    unfold handleFileRequest
    dsimp only
    rw [if_pos ⟨by decide, hvalid, rfl⟩]
    rfl
  exact ⟨_, hserved, (static_files_contained smallDisk [assets] hdirs _).1 _ _ hserved⟩

/-- `write_content` with the provider of a mapped file, which hands `sink.write`
what stands at the offset; without a result it hands over what stands behind the
mapping.  A write that succeeds brings the loop to its end. -/
def writeMapped (c : PeerSocket) (R : Bytes) (offset length : Nat) (s : Written) :
    Option (Bool × Written) :=
  let endOffset := (offset + length) % sizeMod
  if offset < endOffset ∧ !c.isShuttingDown s.calls then
    if !c.isWritable s.called.calls then some (false, s.called.called)
    -- `sink.write` asks once more
    else if !c.isWritable s.called.called.calls then some (false, s.called.called.called)
    else if endOffset ≤ R.length then
      some (writeData c (slice R offset (endOffset - offset)) s.called.called.called)
    else none
  else some (true, s.called)

/-- The callbacks of `write_multipart_ranges_data` with that provider; nobody looks
at what becomes of the direct writes. -/
def mappedSink (c : PeerSocket) (R : Bytes) : Emit.Sink Bytes (Nat × Nat) (Option Written) where
  token t s := s.map fun s =>
    ⟨s.calls + 1, s.body ++ t.take ((c.send s.calls).elim 0 (· + 1))⟩
  content range s :=
    (s.bind (writeMapped c R range.1 range.2)).elim (true, none) fun r => (r.1, some r.2)

/-- `Server::write_content_with_provider` for a mapped file. -/
def serveMapped (c : PeerSocket) (R : Bytes) (ranges : List Range)
    (boundary contentType : Bytes) : Option (Bool × Written) :=
  match ranges with
  | [] => writeMapped c R 0 R.length ⟨0, []⟩
  | [range] =>
    let ret := getRangeOffsetAndLength range R.length
    writeMapped c R ret.1 ret.2 ⟨0, []⟩
  | ranges =>
    let ret := Emit.run (mappedSink c R)
      (multipartRangesData ranges R.length boundary contentType) (some ⟨0, []⟩)
    ret.2.map fun s => (ret.1, s)

/-- The body that `Server::write_response_core` writes for a mapped file.
`set_content_provider` sets no provider for a file without bytes. -/
def writeFileBody (c : PeerSocket) (head : Bool) (R : Bytes) (ranges : List Range)
    (boundary contentType : Bytes) : Option (Bool × Written) :=
  if 0 < R.length ∧ !head then serveMapped c R ranges boundary contentType
  else some (true, ⟨0, []⟩)

theorem writeMapped_isSome {R : Bytes} {offset length : Nat}
    (h : offset < (offset + length) % sizeMod → (offset + length) % sizeMod ≤ R.length)
    (c : PeerSocket) (s : Written) : (writeMapped c R offset length s).isSome = true := by
  unfold writeMapped
  dsimp only
  split
  · rename_i hgo
    split
    · rfl
    · split
      · rfl
      · rw [if_pos (h hgo.1)]
        rfl
  · rfl

theorem writeMapped_holds {c : PeerSocket} (hc : c.Holds) (R : Bytes) (offset length : Nat)
    (s : Written) :
    ((writeMapped c R offset length s).isSome = true ↔
      (offset < (offset + length) % sizeMod → (offset + length) % sizeMod ≤ R.length)) ∧
    ∀ r, writeMapped c R offset length s = some r → r.1 = true := by
  by_cases hlt : offset < (offset + length) % sizeMod
  · have heq : writeMapped c R offset length s =
        if (offset + length) % sizeMod ≤ R.length then
          some (writeData c (slice R offset ((offset + length) % sizeMod - offset))
            s.called.called.called)
        else none := by
      unfold writeMapped
      dsimp only
      rw [if_pos ⟨hlt, by rw [hc.running]; rfl⟩, if_neg (by rw [hc.writable]; decide),
        if_neg (by rw [hc.writable]; decide)]
    rw [heq]
    split
    · rename_i hle
      refine ⟨iff_of_true rfl fun _ => hle, fun r h => ?_⟩
      obtain rfl := Option.some.inj h
      exact (writeData_isPrefix c _ _).choose_spec.2.2.2 hc
    · rename_i hle
      exact ⟨iff_of_false Bool.false_ne_true fun h => hle (h hlt), fun r h => by cases h⟩
  · have heq : writeMapped c R offset length s = some (true, s.called) :=
      if_neg fun h => hlt h.1
    rw [heq]
    refine ⟨iff_of_true rfl fun h => absurd h hlt, fun r h => ?_⟩
    obtain rfl := Option.some.inj h
    rfl

/-- The offset and length of a range are within the file if the last position that
it names is. -/
theorem range_inside_iff {R : Bytes} (hR : R.length < 9223372036854775808) {r : Range}
    (hr : Valid r) :
    let ret := getRangeOffsetAndLength r R.length
    (ret.1 < (ret.1 + ret.2) % sizeMod → (ret.1 + ret.2) % sizeMod ≤ R.length) ↔
      (r.1 ≠ -1 → r.2 < R.length) := by
  dsimp only
  rw [endOffset_eq hr hR, getRangeOffsetAndLength_eq hr hR]
  exact past_le_iff hr R.length

theorem whole_inside {R : Bytes} (hR : R.length < 9223372036854775808) :
    (0 + R.length) % sizeMod ≤ R.length := by
  rw [Nat.zero_add, Nat.mod_eq_of_lt (by unfold sizeMod; omega)]

theorem serveMapped_isSome {R : Bytes} (hR : R.length < 9223372036854775808)
    {ranges : List Range} (hv : ∀ r ∈ ranges, Valid r)
    (hinside : ∀ r ∈ ranges, r.1 ≠ -1 → r.2 < R.length) (c : PeerSocket)
    (boundary contentType : Bytes) :
    (serveMapped c R ranges boundary contentType).isSome = true := by
  match ranges, hv, hinside with
  | [], _, _ => exact writeMapped_isSome (fun _ => whole_inside hR) c _
  | [r], hv, hinside =>
    exact writeMapped_isSome ((range_inside_iff hR (hv r List.mem_cons_self)).mpr
      (hinside r List.mem_cons_self)) c _
  | r :: q :: ranges, hv, hinside =>
    show (Option.map _ _).isSome = true
    rw [Option.isSome_map]
    refine Emit.run_keeps (mappedSink c R) (fun s => s.isSome = true) ?_ ?_ rfl
    · rintro t (- | s) h
      · cases h
      · rfl
    · intro range hrange s hs
      obtain ⟨p, hp, rfl⟩ := content_mem_iff.mp hrange
      obtain ⟨s, rfl⟩ := Option.isSome_iff_exists.mp hs
      obtain ⟨r, hr⟩ := Option.isSome_iff_exists.mp
        (writeMapped_isSome ((range_inside_iff hR (hv p hp)).mpr (hinside p hp)) c s)
      show ((writeMapped c R _ _ s).elim (true, none) fun r => (r.1, some r.2)).2.isSome = true
      rw [hr]
      rfl

theorem serveMapped_isSome_iff {R : Bytes} (hR : R.length < 9223372036854775808)
    {ranges : List Range} (hv : ∀ r ∈ ranges, Valid r) {c : PeerSocket} (hc : c.Holds)
    (boundary contentType : Bytes) :
    (serveMapped c R ranges boundary contentType).isSome = true ↔
      ∀ r ∈ ranges, r.1 ≠ -1 → r.2 < R.length := by
  match ranges, hv with
  | [], _ =>
    exact iff_of_true (writeMapped_isSome (fun _ => whole_inside hR) c _) fun r hr =>
      absurd hr List.not_mem_nil
  | [r], hv =>
    rw [List.forall_mem_singleton]
    exact (writeMapped_holds hc R _ _ _).1.trans (range_inside_iff hR (hv r List.mem_cons_self))
  | r :: q :: ranges, hv =>
    have hrun : (Emit.run (mappedSink c R)
        (multipartRangesData (r :: q :: ranges) R.length boundary contentType)
          (some ⟨0, []⟩)).2.isSome = true ↔
        (some (⟨0, []⟩ : Written)).isSome = true ∧
          ∀ range, .content range ∈ multipartRangesData (r :: q :: ranges) R.length boundary
            contentType → (range.1 < (range.1 + range.2) % sizeMod →
              (range.1 + range.2) % sizeMod ≤ R.length) := by
      refine Emit.run_keeps_iff (mappedSink c R) (fun s => s.isSome = true)
        (fun range => range.1 < (range.1 + range.2) % sizeMod →
          (range.1 + range.2) % sizeMod ≤ R.length) ?_ ?_ _
      · rintro t (- | s) <;> exact Iff.rfl
      · rintro range (- | s)
        · exact ⟨rfl, iff_of_false Bool.false_ne_true fun h => Bool.false_ne_true h.1⟩
        · obtain ⟨hsome, htrue⟩ := writeMapped_holds hc R range.1 range.2 s
          have hcontent : (mappedSink c R).content range (some s) =
              (writeMapped c R range.1 range.2 s).elim (true, none) fun r => (r.1, some r.2) := rfl
          rw [hcontent, ← hsome]
          cases hw : writeMapped c R range.1 range.2 s with
          | none => exact ⟨rfl, iff_of_false Bool.false_ne_true fun h => Bool.false_ne_true h.2⟩
          | some r => exact ⟨htrue r hw, iff_of_true rfl ⟨rfl, rfl⟩⟩
    show (Option.map _ _).isSome = true ↔ _
    rw [Option.isSome_map, hrun]
    constructor
    · rintro ⟨-, h⟩ p hp
      exact (range_inside_iff hR (hv p hp)).mp (h _ (content_mem_iff.mpr ⟨p, hp, rfl⟩))
    · intro h
      refine ⟨rfl, fun range hrange => ?_⟩
      obtain ⟨p, hp, rfl⟩ := content_mem_iff.mp hrange
      exact (range_inside_iff hR (hv p hp)).mpr (h p hp)

/-- A range within the file: the peer gets a beginning of it, and all of it if the
writing succeeds and the server is not being stopped. -/
theorem serveMapped_single {R : Bytes} (hR : R.length < 9223372036854775808) {r : Range}
    (hr : Valid r) (hw : Within r R.length) (c : PeerSocket) (boundary contentType : Bytes) :
    let wanted := slice R (firstOf r R.length) (pastOf r R.length - firstOf r R.length)
    ∃ ok s, serveMapped c R [r] boundary contentType = some (ok, s) ∧ s.body <+: wanted ∧
      (ok = true → s.body = wanted ∨ ∃ n, c.isShuttingDown n = true) ∧
      (c.Holds → ok = true ∧ s.body = wanted) := by
  intro wanted
  obtain ⟨hlt, hle⟩ := (within_iff hr _).mp hw
  have heq : serveMapped c R [r] boundary contentType =
      writeMapped c R (getRangeOffsetAndLength r R.length).1
        (getRangeOffsetAndLength r R.length).2 ⟨0, []⟩ := rfl
  rw [heq]
  unfold writeMapped
  dsimp only
  rw [endOffset_eq hr hR, getRangeOffsetAndLength_eq hr hR]
  dsimp only
  by_cases hdown : c.isShuttingDown 0 = true
  · rw [if_neg (fun h => by rw [hdown] at h; exact absurd h.2 (by decide))]
    refine ⟨_, _, rfl, List.nil_prefix, fun _ => .inr ⟨0, hdown⟩, fun hc => ?_⟩
    rw [hc.running] at hdown
    cases hdown
  rw [if_pos ⟨hlt, by simpa using hdown⟩]
  have hrefused : ∀ n, (!c.isWritable n) = true → ¬ c.Holds := by
    intro n hn hc
    rw [hc.writable] at hn
    cases hn
  split
  · rename_i hfirst
    exact ⟨_, _, rfl, List.nil_prefix, fun h => (by cases h), fun hc => absurd hc (hrefused _ hfirst)⟩
  split
  · rename_i hsecond
    exact ⟨_, _, rfl, List.nil_prefix, fun h => (by cases h), fun hc => absurd hc (hrefused _ hsecond)⟩
  obtain ⟨sent, hbody, hsent, hall, hholds⟩ := writeData_isPrefix c wanted ⟨3, []⟩
  rw [List.nil_append] at hbody
  refine ⟨_, _, rfl, hbody ▸ hsent, fun hok => .inl (hbody.trans (hall hok)), fun hc => ?_⟩
  exact ⟨hholds hc, hbody.trans (hall (hholds hc))⟩

/-- Serving a static file stays within its mapping if every last position that a
range names is within the file, and on a socket that holds only then: the library
does not cut ranges, and the provider does not check what it is asked for.  A file
without bytes, or HEAD, is never read.  A single range within the file is sent as
it is. -/
theorem static_file_inside_iff {R : Bytes} (hR : R.length < 9223372036854775808)
    {ranges : List Range} (hv : ∀ r ∈ ranges, Valid r) (c : PeerSocket) (head : Bool)
    (boundary contentType : Bytes) :
    let a := writeFileBody c head R ranges boundary contentType
    (R = [] ∨ head = true → a = some (true, ⟨0, []⟩)) ∧
    ((∀ r ∈ ranges, r.1 ≠ -1 → r.2 < R.length) → a.isSome = true) ∧
    (c.Holds → R ≠ [] → head = false →
      (a.isSome = true ↔ ∀ r ∈ ranges, r.1 ≠ -1 → r.2 < R.length)) ∧
    ∀ r, ranges = [r] → Within r R.length → head = false →
      let wanted := slice R (firstOf r R.length) (pastOf r R.length - firstOf r R.length)
      ∃ ok s, a = some (ok, s) ∧ s.body <+: wanted ∧
        (ok = true → s.body = wanted ∨ ∃ n, c.isShuttingDown n = true) ∧
        (c.Holds → ok = true ∧ s.body = wanted) := by
  intro a
  have hread : R ≠ [] → head = false → a = serveMapped c R ranges boundary contentType := by
    rintro hne rfl
    exact if_pos ⟨List.length_pos_iff.mpr hne, rfl⟩
  have hunread : R = [] ∨ head = true → a = some (true, ⟨0, []⟩) := by
    rintro (rfl | rfl)
    · exact if_neg fun h => absurd h.1 (by decide)
    · exact if_neg fun h => Bool.false_ne_true h.2
  refine ⟨hunread, fun hinside => ?_, fun hc hne hhead => ?_, ?_⟩
  · by_cases hgo : R = [] ∨ head = true
    · rw [hunread hgo]
      rfl
    · obtain ⟨hne, hhead⟩ := not_or.mp hgo
      rw [hread hne (Bool.eq_false_iff.mpr hhead)]
      exact serveMapped_isSome hR hv hinside c boundary contentType
  · rw [hread hne hhead]
    exact serveMapped_isSome_iff hR hv hc boundary contentType
  · rintro r rfl hw hhead
    rw [hread (List.length_pos_iff.mp hw.some) hhead]
    exact serveMapped_single hR (hv r List.mem_cons_self) hw c boundary contentType

theorem static_file_inside_iff_small :
    (∃ s, writeFileBody twoAtATime false [1, 2, 3] [(0, 2)] (bytes "b") (bytes "text/css") =
      some (true, s) ∧ s.body = [1, 2, 3]) ∧
    ¬ (writeFileBody twoAtATime false [1, 2, 3] [(1, 9)] (bytes "b")
      (bytes "text/css")).isSome = true := by
  have hvalid : ∀ m n : Int, 0 ≤ m → m ≤ n → n < 10 → ∀ r ∈ [((m, n) : Range)], Valid r := by
    intro m n hm hmn hn r hr
    rw [List.mem_singleton.mp hr]
    refine ⟨?_, ?_, .inr (.inr ?_)⟩ <;> dsimp only <;> omega
  constructor
  · obtain ⟨-, -, -, h⟩ := static_file_inside_iff (R := [1, 2, 3]) (by decide)
      (hvalid 0 2 (by decide) (by decide) (by decide)) twoAtATime false (bytes "b")
      (bytes "text/css")
    obtain ⟨ok, s, hs, -, -, hall⟩ := h (0, 2) rfl
      ⟨by decide, fun h => absurd h (by decide), fun _ => by decide⟩ rfl
    obtain ⟨rfl, hbody⟩ := hall twoAtATime_holds
    exact ⟨s, hs, hbody⟩
  · obtain ⟨-, -, h, -⟩ := static_file_inside_iff (R := [1, 2, 3]) (by decide)
      (hvalid 1 9 (by decide) (by decide) (by decide)) twoAtATime false (bytes "b")
      (bytes "text/css")
    rw [h twoAtATime_holds (List.cons_ne_nil _ _) rfl]
    intro h
    exact absurd (h (1, 9) List.mem_cons_self (by decide)) (by decide)

end EzRemote.Http

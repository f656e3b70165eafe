import EzRemote.Ftp.Frame
import EzRemote.Ftp.Reuse

/-!
# The file of an FTP download

What `FtpClient::Get` leaves in its output file: nothing between `fopen` and the
read loop touches it, and the loop stops at a write that reports 0.
-/

namespace EzRemote.Ftp

open Transfer (LocalDisk)

/-- The output file after some events, newest first. -/
def fileAfter (before : Option Bytes) : List Event → Option Bytes
  | [] => before
  | .openFile _ append opened :: older =>
    if opened then some (if append then (fileAfter before older).getD [] else [])
    else fileAfter before older
  | .write stored _ :: older => some ((fileAfter before older).getD [] ++ stored)
  | _ :: older => fileAfter before older

section Frame

variable {before content : Option Bytes}

/-- The output file is `content`. -/
def FileIs (before content : Option Bytes) (s : Session) : Prop :=
  fileAfter before s.trace = content

theorem emit_keeps {e : Event}
    (he : ∀ older, fileAfter before (e :: older) = fileAfter before older) :
    Keeps (FileIs before content) (emit e) :=
  Keeps.modify fun s h => (he s.trace).trans h

theorem fileIs_framed : Framed (FileIs before content) where
  readline := by
    intro s a s' h hr
    unfold readline at hr
    split at hr
    · cases hr
    · cases hr
      unfold FileIs
      dsimp only
      split
      · exact h
      · exact h
  command _ _ := emit_keeps fun _ => rfl
  arrive _ _ h := h
  closeControl := emit_keeps fun _ => rfl
  dial _ _ := emit_keeps fun _ => rfl
  response _ _ h := h

end Frame

/-- The loop goes on after a write that reports any bytes at all. -/
def goesOn (disk : LocalDisk) (k : Nat) (data : Bytes) : Bool :=
  decide (disk.reported k data.length ≠ 0)

/-- The callback of a download never cancels it. -/
def NeverCancels (w : World) : Prop :=
  ∀ trace xfercb xfered cbarg, w.callback trace xfercb xfered cbarg ≠ 0

theorem ftpRead_data {w : World} (hcb : NeverCancels w) {max : Nat} {data : Bytes}
    (hmax : data.length ≤ max) {d : DataHandle} (hdir : d.dir = .read) (s : Session) :
    ∃ e trace, ftpRead w max (.data data) d s =
        some (((data.length : Int), e), { s with trace := trace }) ∧ SameKind d e ∧
      ∀ before, fileAfter before trace = fileAfter before s.trace := by
  unfold ftpRead
  rw [if_neg (by rw [hdir]; simp)]
  dsimp only
  rw [if_neg (Nat.not_lt.mpr hmax)]
  cases d.transfer.xfercb with
  | none => exact ⟨_, s.trace, rfl, ⟨rfl, rfl⟩, fun _ => rfl⟩
  | some xfercb =>
    dsimp only
    by_cases hbytes : d.transfer.cbbytes = 0
    · rw [if_pos hbytes]
      exact ⟨_, s.trace, rfl, ⟨rfl, rfl⟩, fun _ => rfl⟩
    rw [if_neg hbytes]
    by_cases hlt : d.xfered1 + data.length < d.transfer.cbbytes
    · rw [if_pos hlt]
      exact ⟨_, s.trace, rfl, ⟨rfl, rfl⟩, fun _ => rfl⟩
    rw [if_neg hlt]
    let xfered := d.xfered + data.length
    let result := w.callback s.trace xfercb xfered d.transfer.cbarg
    refine ⟨{ d with xfered := xfered, xfered1 := 0 },
      .progress xfercb xfered d.transfer.cbarg result :: s.trace, ?_, ⟨rfl, rfl⟩, fun _ => rfl⟩
    show (if result = 0 then _ else _ : Run (Int × DataHandle)) _ = _
    rw [if_neg (hcb _ _ _ _)]
    rfl

/-- The loop leaves in the file what reaches the disk up to a write that
reports 0. -/
theorem ftpXferLoop_written {w : World} (hcb : NeverCancels w) (pieces : List Bytes)
    (hpieces : ∀ p ∈ pieces, p ≠ [] ∧ p.length ≤ ftpClientBufsiz) (k : Nat) {d : DataHandle}
    (hdir : d.dir = .read) {before : Option Bytes} {content : Bytes} {s : Session}
    (hs : fileAfter before s.trace = some content) :
    ∃ e trace, ftpXferLoop w (pieces.map .data) k d s = some (e, { s with trace := trace }) ∧
      SameKind d e ∧
      fileAfter before trace = some (content ++ w.disk.written (goesOn w.disk) k pieces) := by
  induction pieces generalizing k d content s with
  | nil =>
    have hmax : ([] : Bytes).length ≤ ftpClientBufsiz := Nat.zero_le _
    obtain ⟨e, trace, hread, hkind, hfile⟩ := ftpRead_data hcb hmax hdir s
    refine ⟨e, trace, ?_, hkind, ?_⟩
    · show (ftpRead w ftpClientBufsiz (.data []) d s).bind _ = _
      rw [hread]
      rfl
    · rw [hfile, hs, LocalDisk.written, List.append_nil]
  | cons data pieces ih =>
    obtain ⟨hne, hlen⟩ := hpieces data List.mem_cons_self
    obtain ⟨e, trace, hread, hkind, hfile⟩ := ftpRead_data hcb hlen hdir s
    have hpos : 0 < data.length := List.length_pos_iff.mpr hne
    let next : Session :=
      { s with
        trace := .write (w.disk.store k data) (w.disk.reported k data.length) :: trace }
    have hnext : fileAfter before next.trace = some (content ++ w.disk.store k data) := by
      show some ((fileAfter before trace).getD [] ++ w.disk.store k data) = _
      rw [hfile, hs, Option.getD_some]
    have hstep : ftpXferLoop w ((data :: pieces).map .data) k d s =
        (if w.disk.reported k data.length = 0 then pure e
        else ftpXferLoop w (pieces.map .data) (k + 1) e : Run DataHandle) next := by
      show (ftpRead w ftpClientBufsiz (.data data) d s).bind _ = _
      rw [hread, Option.bind_some]
      show (if (data.length : Int) ≤ 0 then _ else _ : Run DataHandle) _ = _
      rw [if_neg (by omega)]
      rfl
    rw [hstep]
    unfold LocalDisk.written
    by_cases hz : w.disk.reported k data.length = 0
    · rw [if_pos hz, if_neg (by simp [goesOn, hz]), List.append_nil]
      exact ⟨e, next.trace, rfl, hkind, hnext⟩
    · rw [if_neg hz, if_pos (by simp [goesOn, hz])]
      obtain ⟨e', trace', hloop, hkind', hfile'⟩ :=
        ih (fun p hp => hpieces p (List.mem_cons_of_mem _ hp)) (k + 1) (hkind.1.trans hdir) hnext
      refine ⟨e', trace', hloop, hkind'.trans hkind, ?_⟩
      rw [hfile', List.append_assoc]

/-- The session behind the `fopen` of a `Get`. -/
def afterOpen (tempFile : Bytes) (offset : UInt64) (opened : Bool) (s : Session) : Session :=
  { s with
    h := { s.h with offset := offset.toInt64.toInt }
    trace := .openFile (cStr tempFile) (offset ≠ 0) opened :: s.trace }

/-- The server accepts the transfer, delivers `pieces` and confirms its end. -/
structure Serves (w : World) (srv : Server) (path tempFile : Bytes) (offset : UInt64)
    (pieces : List Bytes) (s : Session) : Prop where
  accepted : ∃ d t f rest,
    ftpAccess w srv path (afterOpen tempFile offset true s) = some ((1, some d), t) ∧
      d.dir = .read ∧ d.ctrl = true ∧ Buffered (Reply.encode f ++ rest) t.h t.wire ∧
      WellFormed f ∧ f.Fits ∧ f.digit = 50
  incoming : w.incoming = pieces.map .data
  pieces : ∀ p ∈ pieces, p ≠ [] ∧ p.length ≤ ftpClientBufsiz

theorem openLocal_opens {w : World} (h : w.disk.opens = true) {name : Bytes} (hname : name ≠ [])
    (type : AccessType) (s : Session) :
    openLocal w name type s = some (true,
      { s with trace := .openFile (cStr name) (type = .filereadappend) true :: s.trace }) := by
  unfold openLocal
  rw [if_neg hname, h]
  rfl

theorem openLocal_fails {w : World} (h : w.disk.opens = false) {name : Bytes} (hname : name ≠ [])
    (type : AccessType) (s : Session) :
    openLocal w name type s = some (false,
      { s with
        h := { s.h with response := strncpy w.openError responseSize }
        trace := .openFile (cStr name) (type = .filereadappend) false :: s.trace }) := by
  unfold openLocal
  rw [if_neg hname, h]
  rfl

theorem appends_iff (offset : UInt64) :
    decide ((if offset = 0 then AccessType.fileread else .filereadappend) = .filereadappend) =
      decide (offset ≠ 0) := by
  by_cases h0 : offset = 0
  · rw [if_pos h0, h0]
    rfl
  · rw [if_neg h0, decide_eq_true h0]
    rfl

theorem get_fails {w : World} (h : w.disk.opens = false) (srv : Server) (path : Bytes)
    {tempFile : Bytes} (htemp : tempFile ≠ []) (offset : UInt64) {s : Session}
    (htrace : s.trace = []) (before : Option Bytes) :
    ∃ t, get w srv tempFile path offset s = some (0, t) ∧ fileAfter before t.trace = before := by
  refine ⟨{ s with
      h := { s.h with
        offset := offset.toInt64.toInt
        response := strncpy w.openError responseSize }
      trace := .openFile (cStr tempFile) (offset ≠ 0) false :: s.trace }, ?_, ?_⟩
  · show (openLocal w tempFile _ _).bind _ = _
    rw [openLocal_fails h htemp, Option.bind_some, appends_iff]
    rfl
  · show fileAfter before s.trace = before
    rw [htrace]
    rfl

/-- A `Get` on a file that opens returns 1 with what was written, however little
that is. -/
theorem get_written {w : World} (h : w.disk.opens = true) (hcb : NeverCancels w) {srv : Server}
    {path tempFile : Bytes} (htemp : tempFile ≠ []) {offset : UInt64} {pieces : List Bytes}
    {s : Session} (hs : Serves w srv path tempFile offset pieces s) (htrace : s.trace = [])
    (before : Option Bytes) :
    ∃ t, get w srv tempFile path offset s = some (1, t) ∧
      fileAfter before t.trace = some ((if offset = 0 then [] else before.getD []) ++
        w.disk.written (goesOn w.disk) 0 pieces) := by
  obtain ⟨d, t, f, rest, hacc, hdir, hctrl, hbuf, hwf, hfit, hdigit⟩ := hs.accepted
  have hopened : fileAfter before (afterOpen tempFile offset true s).trace =
      some (if offset = 0 then [] else before.getD []) := by
    show some (if decide (offset ≠ 0) then (fileAfter before s.trace).getD [] else []) = _
    rw [htrace]
    by_cases h0 : offset = 0 <;> simp [h0, fileAfter]
  have hkeep : fileAfter before t.trace = some (if offset = 0 then [] else before.getD []) :=
    fileIs_framed.ftpAccess_keeps w srv path _ _ _ hopened hacc
  obtain ⟨e, trace, hloop, hkind, hfile⟩ :=
    ftpXferLoop_written hcb pieces hs.pieces 0 hdir hkeep
  obtain ⟨g, wire, hread, -, -, -⟩ :=
    readResponse_reply (s := { t with trace := .closeFile :: trace }) hbuf hwf hfit (bytes "2")
  refine ⟨_, ?_, readResponse_keeps fileIs_framed.readline _ _ _ _ ?_ hread⟩
  · show (openLocal w tempFile _ _).bind _ = _
    rw [openLocal_opens h htemp, Option.bind_some, appends_iff]
    show (ftpAccess w srv path (afterOpen tempFile offset true s)).bind _ = _
    rw [hacc, Option.bind_some]
    show (ftpXferLoop w w.incoming 0 d t).bind _ = _
    rw [hs.incoming, hloop, Option.bind_some]
    show (closeLocal tempFile { t with trace := trace }).bind _ = _
    unfold closeLocal
    rw [if_neg htemp]
    show ftpClose e { t with trace := .closeFile :: trace } = _
    unfold ftpClose
    rw [if_neg (by rw [hkind.1, hdir]; simp), if_pos (hkind.2.trans hctrl), hread,
      if_pos (by rw [hdigit]; decide)]
  · exact hfile

/-- What a login and the commands of a download leave. -/
def accessed (path tempFile : Bytes) : Option (Int × (Int × Option DataHandle) × Session) :=
  loggedIn.bind fun r =>
    (ftpAccess idealWorld (whole (transferReplies (bytes "226 done"))) path
      (afterOpen tempFile 0 true { r.2 with trace := [] })).map fun x => (r.1, x)

theorem loggedIn_serves : ∃ s, loggedIn = some (1, s) ∧
    Serves idealWorld (whole (transferReplies (bytes "226 done"))) (bytes "/a") (bytes "f.tmp") 0
      [[1, 2], [3]] { s with trace := [] } := by
  have hrun : (accessed (bytes "/a") (bytes "f.tmp")).map (fun x =>
      (x.1, x.2.1.1, x.2.1.2.map fun d => (d.dir, d.ctrl))) =
        some (1, 1, some (.read, true)) ∧
      (accessed (bytes "/a") (bytes "f.tmp")).map (fun x =>
        (x.2.2.h.cget + x.2.2.h.cavail - x.2.2.h.buf.length,
          x.2.2.h.buf.length - (x.2.2.h.cget + x.2.2.h.cavail), x.2.2.h.response.length)) =
        some (0, 0, responseSize) ∧
      (accessed (bytes "/a") (bytes "f.tmp")).map (fun x => (x.2.2.h.unread, x.2.2.wire)) =
        some (Reply.encode [bytes "226 done"], []) := by
    decide +kernel
  obtain ⟨hret, hbal, htext⟩ := hrun
  obtain ⟨⟨x, ⟨y, nData⟩, t⟩, hacc, hx⟩ := Option.map_eq_some_iff.mp hret
  rw [hacc, Option.map_some, Option.some.injEq] at hbal htext
  obtain ⟨⟨_, s⟩, hlog, hmap⟩ := Option.bind_eq_some_iff.mp hacc
  obtain ⟨_, haccess, he⟩ := Option.map_eq_some_iff.mp hmap
  cases he
  cases nData with
  | none => simp at hx
  | some d =>
    simp only [Option.map_some, Prod.mk.injEq, Option.some.injEq] at hx hbal htext
    obtain ⟨rfl, rfl, hdir, hctrl⟩ := hx
    refine ⟨s, hlog, ⟨d, t, [bytes "226 done"], [], haccess, hdir, hctrl,
      ⟨⟨by omega, hbal.2.2⟩, ?_, ?_⟩, ?_, fits_short (by decide), by decide⟩, rfl, by decide⟩
    · rw [htext.2]
      intro r hr
      cases hr
    · rw [htext.1, htext.2]
      rfl
    · have hfinal : Final anyReply [bytes "226 done"] := final_done trivial
      exact hfinal.wellFormed

end EzRemote.Ftp

import EzRemote.Ftp.Commands

/-!
# A reused session

A session that has served downloads and one that was just connected run in
lockstep: every call that returns 1 has read every reply that it caused, and
what it leaves on the handle is set again or not looked at.
-/

namespace EzRemote.Ftp

open FtpHandle
open Pool (TransferState)
open Transfer (LocalDisk)

variable {core : Core} {rs : List Reply}

/-- What `FtpClose` looks at. -/
def SameKind (d e : DataHandle) : Prop := e.dir = d.dir ∧ e.ctrl = d.ctrl

theorem SameKind.trans {d e f : DataHandle} (h : SameKind e f) (he : SameKind d e) :
    SameKind d f := ⟨h.1.trans he.1, h.2.trans he.2⟩

theorem ftpRead_agree (w : World) (max : Nat) (r : Recv) (d : DataHandle) :
    Lockstep (Agree core rs) (ftpRead w max r d) (ftpRead w max r d)
      fun x s t => SameKind d x.2 ∧ Agree core rs s t := by
  apply Lockstep.ite
  · intro _
    exact Lockstep.pure fun _ _ h => ⟨⟨rfl, rfl⟩, h⟩
  intro _
  cases r with
  | error => exact Lockstep.pure fun _ _ h => ⟨⟨rfl, rfl⟩, h⟩
  | data b =>
    apply Lockstep.ite
    · intro _
      exact Lockstep.failure
    intro _
    dsimp only
    cases d.transfer.xfercb with
    | none => exact Lockstep.pure fun _ _ h => ⟨⟨rfl, rfl⟩, h⟩
    | some xfercb =>
      apply Lockstep.ite
      · intro _
        exact Lockstep.pure fun _ _ h => ⟨⟨rfl, rfl⟩, h⟩
      intro _
      apply Lockstep.ite
      · intro _
        exact Lockstep.pure fun _ _ h => ⟨⟨rfl, rfl⟩, h⟩
      intro _
      apply Lockstep.get_bind
      intro s t h
      rw [h.trace]
      apply (emit_agree _).bind
      intro _
      apply Lockstep.ite
      · intro _
        exact Lockstep.pure fun _ _ h => ⟨⟨rfl, rfl⟩, h⟩
      · intro _
        exact Lockstep.pure fun _ _ h => ⟨⟨rfl, rfl⟩, h⟩

theorem ftpXferLoop_agree (w : World) (incoming : List Recv) (k : Nat) (d : DataHandle) :
    Lockstep (Agree core rs) (ftpXferLoop w incoming k d) (ftpXferLoop w incoming k d)
      fun e s t => SameKind d e ∧ Agree core rs s t := by
  induction incoming generalizing k d with
  | nil =>
    apply (ftpRead_agree w _ _ d).bind
    intro x
    exact Lockstep.pure fun _ _ h => h
  | cons r incoming ih =>
    apply (ftpRead_agree w _ r d).bind
    rintro ⟨l, e⟩
    dsimp only
    apply Lockstep.of_and
    intro he
    apply Lockstep.ite
    · intro _
      exact Lockstep.pure fun _ _ h => ⟨he, h⟩
    intro _
    apply (emit_agree _).bind
    intro _
    apply Lockstep.ite
    · intro _
      exact Lockstep.pure fun _ _ h => ⟨he, h⟩
    · intro _
      exact (ih (k + 1) e).mono (fun _ _ h => h) fun _ _ _ h => ⟨h.1.trans he, h.2⟩

theorem getRangeLoop_agree (w : World) (incoming : List Recv) (remaining : Nat) (d : DataHandle) :
    Lockstep (Agree core rs) (getRangeLoop w incoming remaining d)
      (getRangeLoop w incoming remaining d) fun x s t => SameKind d x.2.2 ∧ Agree core rs s t := by
  induction incoming generalizing remaining d with
  | nil =>
    apply Lockstep.ite
    · intro _
      exact Lockstep.pure fun _ _ h => ⟨⟨rfl, rfl⟩, h⟩
    intro _
    apply (ftpRead_agree w _ _ d).bind
    intro x
    exact Lockstep.pure fun _ _ h => h
  | cons r incoming ih =>
    apply Lockstep.ite
    · intro _
      exact Lockstep.pure fun _ _ h => ⟨⟨rfl, rfl⟩, h⟩
    intro _
    apply (ftpRead_agree w _ r d).bind
    rintro ⟨count, e⟩
    dsimp only
    apply Lockstep.of_and
    intro he
    apply Lockstep.ite
    · intro _
      exact Lockstep.pure fun _ _ h => ⟨he, h⟩
    intro _
    apply Lockstep.get_bind
    intro s t h
    rw [h.trace]
    apply (emit_agree _).bind
    intro _
    apply Lockstep.ite
    · intro _
      exact Lockstep.pure fun _ _ h => ⟨he, h⟩
    · intro _
      exact (ih _ e).mono (fun _ _ h => h) fun _ _ _ h => ⟨h.1.trans he, h.2⟩

theorem getRangeBufferLoop_agree (w : World) (incoming : List Recv) (remaining : Nat)
    (d : DataHandle) :
    Lockstep (Agree core rs) (getRangeBufferLoop w incoming remaining d)
      (getRangeBufferLoop w incoming remaining d) fun e s t => SameKind d e ∧ Agree core rs s t := by
  induction incoming generalizing remaining d with
  | nil =>
    apply (ftpRead_agree w _ _ d).bind
    intro x
    exact Lockstep.pure fun _ _ h => h
  | cons r incoming ih =>
    apply (ftpRead_agree w _ r d).bind
    rintro ⟨l, e⟩
    dsimp only
    apply Lockstep.of_and
    intro he
    apply Lockstep.ite
    · intro _
      exact Lockstep.pure fun _ _ h => ⟨he, h⟩
    intro _
    apply Lockstep.ite
    · intro _
      apply (emit_agree _).bind
      intro _
      exact (ih _ e).mono (fun _ _ h => h) fun _ _ _ h => ⟨h.1.trans he, h.2⟩
    · intro _
      apply (emit_agree _).bind
      intro _
      exact Lockstep.pure fun _ _ h => ⟨he, h⟩

theorem ftpClose_agree {d : DataHandle} {f : Reply} (hdir : d.dir = .read) (hctrl : d.ctrl = true)
    (hf : Final Reply.Fits f) :
    Lockstep (Agree core [f]) (ftpClose d) (ftpClose d) fun _ => Agree core [] := by
  unfold ftpClose
  rw [hdir, hctrl]
  exact (readResponse_agree hf.wellFormed hf.admitted _).mono (fun _ _ h => h) fun _ _ _ h => h.2.1

theorem openLocal_agree (w : World) (localfile : Bytes) (type : AccessType) :
    Lockstep (Agree core rs) (openLocal w localfile type) (openLocal w localfile type)
      fun opened s t => if opened then Agree core rs s t else SameTrace s t := by
  apply Lockstep.ite
  · intro _
    exact Lockstep.pure fun _ _ h => h
  intro _
  apply (emit_agree _).bind
  intro _
  apply Lockstep.ite
  · intro _
    exact Lockstep.pure fun _ _ h => h
  intro _
  apply ((modifyHandle_sameTrace _).mono (fun _ _ h => h.trace) fun _ _ _ h => h).bind
  intro _
  exact Lockstep.pure fun _ _ h => h

theorem closeLocal_agree (localfile : Bytes) :
    Lockstep (Agree core rs) (closeLocal localfile) (closeLocal localfile)
      fun _ => Agree core rs := by
  apply Lockstep.ite
  · intro _
    exact Lockstep.pure fun _ _ h => h
  · intro _
    exact emit_agree _

theorem closeLocal_sameTrace (localfile : Bytes) :
    Lockstep SameTrace (closeLocal localfile) (closeLocal localfile) fun _ => SameTrace := by
  apply Lockstep.ite
  · intro _
    exact Lockstep.pure fun _ _ h => h
  · intro _
    exact emit_sameTrace _

/-- Two logged in sessions with nothing outstanding and the same callback. -/
structure Idle (transfer : TransferState) (s : Session) : Prop where
  buffered : Buffered [] s.h s.wire
  handle : s.h.handle = true
  dir : s.h.dir = .control
  correctpasv : s.h.correctpasv = false
  transfer : s.h.transfer = transfer

/-- The settings of a session during a call. -/
def callCore (transfer : TransferState) (offset : UInt64) : Core :=
  ⟨true, .control, offset.toInt64.toInt, false, transfer⟩

/-- Two idle sessions; their offsets may differ. -/
structure Primed (transfer : TransferState) (s t : Session) : Prop where
  left : Idle transfer s
  right : Idle transfer t
  trace : s.trace = t.trace

theorem setOffset_agree (transfer : TransferState) (offset : UInt64) :
    Lockstep (Primed transfer) (setOffset offset) (setOffset offset)
      fun _ => Agree (callCore transfer offset) [] := by
  have hidle : ∀ s : Session, Idle transfer s →
      FtpHandle.core { s.h with offset := offset.toInt64.toInt } = callCore transfer offset := by
    intro s h
    rw [FtpHandle.core, callCore, h.handle, h.dir, h.correctpasv, h.transfer]
  apply Lockstep.modify
  intro s t h
  exact ⟨⟨⟨h.left.buffered.balanced.buffer, h.left.buffered.balanced.response⟩,
      h.left.buffered.stream, h.left.buffered.text⟩,
    ⟨⟨h.right.buffered.balanced.buffer, h.right.buffered.balanced.response⟩,
      h.right.buffered.stream, h.right.buffered.text⟩,
    hidle s h.left, hidle t h.right, h.trace⟩

theorem Agree.primed {transfer : TransferState} {offset : UInt64} {s t : Session}
    (h : Agree (callCore transfer offset) [] s t) : Primed transfer s t := by
  have hidle : ∀ s : Session, Buffered [] s.h s.wire → s.h.core = callCore transfer offset →
      Idle transfer s := fun s hb hc =>
    ⟨hb, congrArg Core.handle hc, congrArg Core.dir hc, congrArg Core.correctpasv hc,
      congrArg Core.transfer hc⟩
  exact ⟨hidle s h.left h.coreLeft, hidle t h.right h.coreRight, h.trace⟩

/-- How a call leaves two sessions: with the same events, and idle again if it
returned 1. -/
def Called (transfer : TransferState) (x : Int) (s t : Session) : Prop :=
  SameTrace s t ∧ (x = 1 → Primed transfer s t)

theorem Opened.lockstep {α : Type} {d : DataHandle} {m m' : Run α}
    {Q : α → Session → Session → Prop}
    (h : ∀ f, d.dir = .read → d.ctrl = true → Final Reply.Fits f →
      Lockstep (Agree core [f]) m m' Q) :
    Lockstep (Opened core d) m m' Q := by
  intro s t hopen
  obtain ⟨hdir, hctrl, f, hf, hagree⟩ := hopen
  exact h f hdir hctrl hf s t hagree

theorem return_zero (transfer : TransferState) :
    Lockstep SameTrace (pure 0) (pure 0) (Called transfer) :=
  Lockstep.pure fun _ _ h => ⟨h, fun hx => absurd hx (by decide)⟩

theorem report_zero (transfer : TransferState) (f : FtpHandle → FtpHandle) :
    Lockstep SameTrace (modifyHandle f >>= fun _ => pure 0) (modifyHandle f >>= fun _ => pure 0)
      (Called transfer) :=
  (modifyHandle_sameTrace f).bind fun _ => return_zero transfer

section Server

variable {replies : Replies} {srv srv' : Server} (hd : Delivers srv replies)
  (hd' : Delivers srv' replies) (hp : Protocol Reply.Fits replies) {path : Bytes} (hcr : cr ∉ path)
  (hlf : lf ∉ path)

include hd hd' hp hcr hlf

/-- After `FtpAccess`: the call ends, or a transfer goes on from its handle. -/
theorem access_called (w : World) {transfer : TransferState} {offset : UInt64}
    {refused : Run Int} {next : DataHandle → Run Int}
    (hrefused : Lockstep SameTrace refused refused (Called transfer))
    (hnext : ∀ d, Lockstep (Opened (callCore transfer offset) d) (next d) (next d)
      (Called transfer)) :
    Lockstep (Agree (callCore transfer offset) [])
      (do
        let (ok, nData) ← ftpAccess w srv path
        if ok = 0 then refused
        else
          match nData with
          | none => failure
          | some d => next d)
      (do
        let (ok, nData) ← ftpAccess w srv' path
        if ok = 0 then refused
        else
          match nData with
          | none => failure
          | some d => next d)
      (Called transfer) := by
  apply (ftpAccess_agree hd hd' hp w hcr hlf).bind
  rintro ⟨ok, nData⟩
  dsimp only
  apply Lockstep.ite
  · intro _
    exact hrefused.mono (fun _ _ h => h.1) fun _ _ _ h => h
  intro _
  cases nData with
  | none => exact Lockstep.failure
  | some d => exact (hnext d).mono (fun _ _ h => h.2 d rfl) fun _ _ _ h => h

theorem get_called (w : World) (transfer : TransferState) (outputfile : Bytes) (offset : UInt64) :
    Lockstep (Primed transfer) (get w srv outputfile path offset)
      (get w srv' outputfile path offset) (Called transfer) := by
  apply (setOffset_agree transfer offset).bind
  intro _
  apply (openLocal_agree w outputfile _).bind
  intro opened
  cases opened with
  | false => exact return_zero transfer
  | true =>
    apply access_called hd hd' hp hcr hlf w
    · exact (closeLocal_sameTrace outputfile).bind fun _ => return_zero transfer
    intro d
    apply Opened.lockstep
    intro f hdir hctrl hf
    apply (ftpXferLoop_agree w _ _ d).bind
    intro e
    apply Lockstep.of_and
    intro he
    apply (closeLocal_agree outputfile).bind
    intro _
    exact (ftpClose_agree (he.1.trans hdir) (he.2.trans hctrl) hf).mono (fun _ _ h => h)
      fun _ _ _ h => ⟨h.trace, fun _ => h.primed⟩

theorem getRange_called (w : World) (transfer : TransferState) (size offset : UInt64) :
    Lockstep (Primed transfer) (getRange w srv path size offset)
      (getRange w srv' path size offset) (Called transfer) := by
  apply (setOffset_agree transfer offset).bind
  intro _
  apply access_called hd hd' hp hcr hlf w (return_zero transfer)
  intro d
  apply Opened.lockstep
  intro f hdir hctrl hf
  have hreset : Lockstep (Agree (callCore transfer offset) []) (setOffset 0) (setOffset 0)
      fun _ => Agree (callCore transfer 0) [] :=
    (setOffset_agree transfer 0).mono (fun _ _ h => h.primed) fun _ _ _ h => h
  have hreport : ∀ g, Lockstep (Agree (callCore transfer 0) [])
      (modifyHandle g >>= fun _ => pure 0) (modifyHandle g >>= fun _ => pure 0)
      (Called transfer) := fun g =>
    (report_zero transfer g).mono (fun _ _ h => h.trace) fun _ _ _ h => h
  apply Lockstep.ite
  · intro _
    apply (ftpClose_agree hdir hctrl hf).bind
    intro _
    apply hreset.bind
    intro _
    exact hreport _
  intro _
  apply (getRangeLoop_agree w _ _ d).bind
  rintro ⟨remaining, taken, e⟩
  dsimp only
  apply Lockstep.of_and
  intro he
  apply (ftpClose_agree (he.1.trans hdir) (he.2.trans hctrl) hf).bind
  intro completed
  apply hreset.bind
  intro _
  apply Lockstep.ite
  · intro _
    exact (return_zero transfer).mono (fun _ _ h => h.trace) fun _ _ _ h => h
  intro _
  apply Lockstep.ite
  · intro _
    exact hreport _
  intro _
  apply Lockstep.ite
  · intro _
    exact hreport _
  · intro _
    exact Lockstep.pure fun _ _ h => ⟨h.trace, fun _ => h.primed⟩

theorem getRangeBuffer_called (w : World) (transfer : TransferState) (size offset : UInt64) :
    Lockstep (Primed transfer) (getRangeBuffer w srv path size offset)
      (getRangeBuffer w srv' path size offset) (Called transfer) := by
  apply (setOffset_agree transfer offset).bind
  intro _
  apply access_called hd hd' hp hcr hlf w (return_zero transfer)
  intro d
  apply Opened.lockstep
  intro f hdir hctrl hf
  apply (getRangeBufferLoop_agree w _ _ d).bind
  intro e
  apply Lockstep.of_and
  intro he
  apply (ftpClose_agree (he.1.trans hdir) (he.2.trans hctrl) hf).bind
  intro _
  apply ((setOffset_agree transfer 0).mono (fun _ _ h => h.primed) fun _ _ _ h => h).bind
  intro _
  exact Lockstep.pure fun _ _ h => ⟨h.trace, fun _ => h.primed⟩

end Server

/-- A call on two idle sessions: the same value and events, and idle sessions
again where it returns 1. -/
theorem call_agree {replies : Replies} {srv srv' : Server} (hd : Delivers srv replies)
    (hd' : Delivers srv' replies) (hp : Protocol Reply.Fits replies) (w : World)
    (settings : List Setting) {op : Op} (hcr : cr ∉ op.path) (hlf : lf ∉ op.path) :
    Lockstep (fun s t => Idle {} s ∧ Idle {} t) (call w srv settings op) (call w srv' settings op)
      (Called (settings.foldl (fun t x => x.apply t) {})) := by
  apply Lockstep.bind (Q := fun _ => Primed (settings.foldl (fun t x => x.apply t) {}))
  · apply Lockstep.modify
    intro s t h
    have hidle : ∀ s : Session, Idle {} s → Idle (settings.foldl (fun t x => x.apply t) {})
        { s with
          h := { s.h with transfer := settings.foldl (fun t x => x.apply t) s.h.transfer }
          trace := [] } := by
      intro s h
      refine ⟨⟨⟨h.buffered.balanced.buffer, h.buffered.balanced.response⟩, h.buffered.stream,
        h.buffered.text⟩, h.handle, h.dir, h.correctpasv, ?_⟩
      show settings.foldl _ s.h.transfer = _
      rw [h.transfer]
    exact ⟨hidle s h.1, hidle t h.2, rfl⟩
  intro _
  cases op with
  | get outputfile path offset => exact get_called hd hd' hp hcr hlf w _ outputfile offset
  | getRange path size offset => exact getRange_called hd hd' hp hcr hlf w _ size offset
  | getRangeBuffer path size offset =>
    exact getRangeBuffer_called hd hd' hp hcr hlf w _ size offset

/-- Each line that `Connect` sends is answered by one final reply. -/
def LoginProtocol (ok : Reply → Prop) (replies : Replies) : Prop :=
  ∀ trace line rs, replies trace line = some rs → ∃ f, Final ok f ∧ rs = [f]

/-- A client that has just logged in, on any server, with any account. -/
def Fresh (ok : Reply → Prop) (s : Session) : Prop :=
  ∃ (replies : Replies) (srv : Server) (greeting : Reply) (wire : List Recv) (user pass : Bytes),
    LoginProtocol ok replies ∧ Delivers srv replies ∧ Final ok greeting ∧
      Carries wire greeting.encode ∧ connect srv user pass ⟨ftpClient, wire, []⟩ = some (1, s)

/-- A client that has served any number of downloads that returned 1, each
followed by `ResetTransferState`, with replies that `ok` admits. -/
inductive Reused (ok : Reply → Prop) : Session → Prop
  | fresh {s : Session} : Fresh ok s → Reused ok s
  | next {s s' : Session} {replies : Replies} {srv : Server} {w : World}
      {settings : List Setting} {op : Op} : Reused ok s → Protocol ok replies →
      Delivers srv replies → cr ∉ op.path → lf ∉ op.path →
      call w srv settings op s = some (1, s') →
      Reused ok { s' with h := s'.h.resetTransferState }

theorem failed_ne_one {m : Run Unit} {s s' : Session} {x : Int} (hx : x ≠ 1) :
    (m >>= fun _ => pure x) s ≠ some (1, s') := by
  intro h
  obtain ⟨_, _, -, hpure⟩ := bind_eq_some h
  cases hpure
  exact hx rfl

theorem Agree.idle_connected {s : Session} (h : Agree (callCore {} 0) [] s s) (b : Bool) :
    Idle {} { s with h := { s.h with isConnected := b } } := by
  obtain ⟨hb, hh, hdir, hpasv, htr⟩ := h.primed.left
  exact ⟨⟨⟨hb.balanced.buffer, hb.balanced.response⟩, hb.stream, hb.text⟩, hh, hdir, hpasv, htr⟩

/-- `Connect` leaves no reply behind. -/
theorem Fresh.idle {s : Session} (h : Fresh Reply.Fits s) : Idle {} s := by
  obtain ⟨replies, srv, greeting, wire, user, pass, hp, hd, hg, hw, hc⟩ := h
  have hone : ∀ cmd trace rs, replies trace (cStr cmd ++ crlf) = some rs →
      ∃ f, Final Reply.Fits f ∧ rs = [f] := fun cmd trace rs h => hp trace _ rs h
  obtain ⟨_, s₁, h₁, hc⟩ := bind_eq_some hc
  cases h₁
  obtain ⟨greeted, s₂, h₂, hc⟩ := bind_eq_some hc
  have hstart : Buffered (encodeAll [greeting])
      { ftpClient with
        dir := .control, offset := 0, response := List.replicate responseSize 0, handle := true }
      wire := by
    refine ⟨⟨rfl, List.length_replicate⟩, hw.stream, ?_⟩
    rw [encodeAll, List.flatMap_singleton]
    exact hw.text
  have hagree : Agree (callCore {} 0) [] s₂ s₂ :=
    ((readResponse_agree hg.wellFormed hg.admitted _).self ⟨hstart, hstart, rfl, rfl, rfl⟩ h₂).2.1
  split at hc
  · exact absurd hc (failed_ne_one (by decide))
  obtain ⟨named, s₃, h₃, hc⟩ := bind_eq_some hc
  have hagree := ((ftpSendCmd_agree hd hd (hone _) _).self hagree h₃).1
  split at hc
  · obtain ⟨_, _, hget, hc⟩ := bind_eq_some hc
    cases hget
    split at hc
    · obtain ⟨_, _, hset, hc⟩ := bind_eq_some hc
      cases hset
      cases hc
      exact hagree.idle_connected true
    · obtain ⟨_, _, -, hc⟩ := bind_eq_some hc
      exact absurd hc (failed_ne_one (by decide))
  · obtain ⟨ret, s₄, h₄, hc⟩ := bind_eq_some hc
    have hagree := ((ftpSendCmd_agree hd hd (hone _) _).self hagree h₄).1
    split at hc
    · obtain ⟨_, _, hset, hc⟩ := bind_eq_some hc
      cases hset
      cases hc
      exact hagree.idle_connected true
    · rename_i hret
      obtain ⟨_, _, -, hc⟩ := bind_eq_some hc
      exact absurd hc (failed_ne_one fun h => hret (by rw [h]; decide))

theorem Reused.idle {s : Session} (h : Reused Reply.Fits s) : Idle {} s := by
  induction h with
  | fresh h => exact h.idle
  | next _ hp hd hcr hlf hcall ih =>
    have hcalled := (call_agree hd hd hp _ _ hcr hlf).self ⟨ih, ih⟩ hcall
    obtain ⟨hb, hh, hdir, hpasv, -⟩ := (hcalled.2 rfl).left
    exact ⟨⟨⟨hb.balanced.buffer, hb.balanced.response⟩, hb.stream, hb.text⟩, hh, hdir, hpasv, rfl⟩

/-- On a reused session a download sends the same commands, reads the same
replies, returns the same value and does the same to the file, the sink and the
callback as on a fresh one, however the replies are cut on either. -/
theorem reused_like_fresh {s t : Session} (hs : Reused Reply.Fits s)
    (ht : Fresh Reply.Fits t) {replies : Replies} (hp : Protocol Reply.Fits replies) {srv srv' : Server} (hd : Delivers srv replies)
    (hd' : Delivers srv' replies) (w : World) (settings : List Setting) {op : Op}
    (hcr : cr ∉ op.path) (hlf : lf ∉ op.path) :
    (call w srv settings op s).map (fun r => (r.1, r.2.trace)) =
      (call w srv' settings op t).map fun r => (r.1, r.2.trace) :=
  (call_agree hd hd' hp w settings hcr hlf).observe (fun _ _ _ h => h.1) ⟨hs.idle, ht.idle⟩

/-- The replies to a command arrive in one piece. -/
def whole (replies : Replies) : Server := fun trace line =>
  (replies trace line).map fun rs => [.data (encodeAll rs)]

theorem delivers_whole {replies : Replies}
    (h : ∀ trace line rs, replies trace line = some rs →
      encodeAll rs ≠ [] ∧ (encodeAll rs).length ≤ ftpClientBufsiz) :
    Delivers (whole replies) replies := by
  intro trace line
  unfold whole
  cases hr : replies trace line with
  | none => exact .none
  | some rs =>
    refine .some ⟨?_, List.append_nil _⟩
    intro r hm
    exact ⟨_, List.mem_singleton.mp hm, h trace line rs hr⟩

/-- A server whose transfers end with the reply `ending`. -/
def transferReplies (ending : Bytes) : Replies := fun _ line =>
  if (line.take (line.length - 2)).take 5 = bytes "RETR " then some [[bytes "150 go"], [ending]]
  else if line.take 4 = bytes "PASV" then some [[bytes "227 (10,0,0,1,4,1)"]]
  else if line.take 4 = bytes "REST" then some [[bytes "350 ok"]]
  else some [[bytes "200 ok"]]

theorem transferReplies_protocol {ok : Reply → Prop} {ending : Bytes}
    (hok : ∀ line, line ∈ [bytes "150 go", bytes "227 (10,0,0,1,4,1)", bytes "350 ok",
      bytes "200 ok"] → ok [line]) (hending : Final ok [ending]) :
    Protocol ok (transferReplies ending) := by
  have hline : ∀ l ∈ [bytes "150 go", bytes "227 (10,0,0,1,4,1)", bytes "350 ok",
      bytes "200 ok"], (lf ∉ l ∧ (0 : UInt8) ∉ l) ∧ 3 ≤ l.length ∧ l[3]? ≠ some 45 := by
    decide
  have hwf : ∀ line ∈ [bytes "150 go", bytes "227 (10,0,0,1,4,1)", bytes "350 ok",
      bytes "200 ok"], WellFormed [line] := fun line hm =>
    .single ⟨(hline line hm).1.1, (hline line hm).1.2⟩ (hline line hm).2.1 (hline line hm).2.2
  intro trace cmd rs _ _ hrs
  have hcmd : (cmd ++ crlf).take ((cmd ++ crlf).length - 2) = cmd := by
    rw [List.length_append]
    exact List.take_left
  unfold transferReplies at hrs
  rw [hcmd] at hrs
  split at hrs
  · rename_i hretr
    cases hrs
    exact .inr ⟨hretr, _, _, ⟨hwf _ (by decide), by decide, hok _ (by decide)⟩, hending, rfl⟩
  split at hrs
  · cases hrs
    exact .inl ⟨_, ⟨hwf _ (by decide), by decide, hok _ (by decide)⟩, rfl⟩
  split at hrs
  · cases hrs
    exact .inl ⟨_, ⟨hwf _ (by decide), by decide, hok _ (by decide)⟩, rfl⟩
  · cases hrs
    exact .inl ⟨_, ⟨hwf _ (by decide), by decide, hok _ (by decide)⟩, rfl⟩

theorem delivers_transferReplies {ending : Bytes} (h : ending.length ≤ 1000) :
    Delivers (whole (transferReplies ending)) (transferReplies ending) := by
  apply delivers_whole
  intro trace line rs hrs
  unfold transferReplies at hrs
  split at hrs
  · cases hrs
    refine ⟨List.cons_ne_nil _ _, ?_⟩
    have hgo : (bytes "150 go").length = 6 := by decide
    have hcrlf : crlf.length = 2 := by decide
    simp only [encodeAll, Reply.encode, List.flatMap_cons, List.flatMap_nil, List.length_append,
      List.length_nil, hgo, hcrlf, ftpClientBufsiz]
    omega
  split at hrs
  · cases hrs
    decide
  split at hrs
  · cases hrs
    decide
  · cases hrs
    decide

def loginReplies : Replies := fun _ _ => some [[bytes "230 in"]]

/-- An anonymous login. -/
def loggedIn : Option (Int × Session) :=
  connect (whole loginReplies) [] [] ⟨ftpClient, [.data (Reply.encode [bytes "220 hi"])], []⟩

theorem fresh_loggedIn {ok : Reply → Prop} (hgreeting : ok [bytes "220 hi"])
    (hlogin : ok [bytes "230 in"]) {s : Session} (h : loggedIn = some (1, s)) : Fresh ok s := by
  have hline : ∀ l ∈ [bytes "220 hi", bytes "230 in"],
      (lf ∉ l ∧ (0 : UInt8) ∉ l) ∧ 3 ≤ l.length ∧ l[3]? ≠ some 45 := by
    decide
  have hwf : ∀ line ∈ [bytes "220 hi", bytes "230 in"], WellFormed [line] := fun line hm =>
    .single ⟨(hline line hm).1.1, (hline line hm).1.2⟩ (hline line hm).2.1 (hline line hm).2.2
  refine ⟨loginReplies, whole loginReplies, [bytes "220 hi"], _, [], [], ?_, ?_,
    ⟨hwf _ (by decide), by decide, hgreeting⟩, ⟨?_, List.append_nil _⟩, h⟩
  · intro trace line rs hrs
    cases hrs
    exact ⟨_, ⟨hwf _ (by decide), by decide, hlogin⟩, rfl⟩
  · apply delivers_whole
    intro trace line rs hrs
    cases hrs
    decide
  · intro r hm
    exact ⟨_, List.mem_singleton.mp hm, by decide⟩

def idealWorld : World where
  socketOpens := true
  optionsSet := true
  connects := true
  peer := none
  allocates := true
  allocatesBuffer := true
  incoming := [.data [1, 2], .data [3]]
  disk := LocalDisk.ideal
  openError := []
  callback := fun _ _ _ _ => 1
  sink := fun _ _ => true

/-- A login, a download and `ResetTransferState`. -/
def served (ending : Bytes) (settings : List Setting) (op : Op) : Option (Int × Session) :=
  loggedIn.bind fun r => (call idealWorld (whole (transferReplies ending)) settings op r.2).map
    fun r => (r.1, { r.2 with h := r.2.h.resetTransferState })

theorem reused_served {ok : Reply → Prop} (hgreeting : ok [bytes "220 hi"])
    (hlogin : ok [bytes "230 in"]) {ending : Bytes} (hp : Protocol ok (transferReplies ending))
    (hlen : ending.length ≤ 1000) {settings : List Setting} {op : Op} (hcr : cr ∉ op.path)
    (hlf : lf ∉ op.path) (hin : loggedIn.map Prod.fst = some 1) {s : Session}
    (h : served ending settings op = some (1, s)) : Reused ok s := by
  obtain ⟨⟨x, s₀⟩, hlog, hcall⟩ := Option.bind_eq_some_iff.mp h
  obtain ⟨⟨y, s₁⟩, hrun, hend⟩ := Option.map_eq_some_iff.mp hcall
  cases hend
  rw [hlog] at hin
  cases hin
  exact .next (.fresh (fresh_loggedIn hgreeting hlogin hlog)) hp (delivers_transferReplies hlen)
    hcr hlf hrun

theorem final_done {ok : Reply → Prop} (hok : ok [bytes "226 done"]) :
    Final ok [bytes "226 done"] :=
  ⟨.single ⟨by decide, by decide⟩ (by decide) (by decide), by decide, hok⟩

theorem protocol_done {ok : Reply → Prop} (hok : ∀ line : Bytes, line.length ≤ 30 → ok [line]) :
    Protocol ok (transferReplies (bytes "226 done")) := by
  refine transferReplies_protocol ?_ (final_done (hok _ (by decide)))
  have hlen : ∀ line ∈ [bytes "150 go", bytes "227 (10,0,0,1,4,1)", bytes "350 ok",
      bytes "200 ok"], line.length ≤ 30 := by decide
  exact fun line hm => hok line (hlen line hm)

theorem fits_short {line : Bytes} (h : line.length ≤ 30) : Reply.Fits [line] := by
  intro l hl
  rw [List.mem_singleton.mp hl, FitsLine, responseSize]
  omega

/-- After a `Get` with a progress callback, a `GetRange` without one. -/
theorem reused_like_fresh_afterGet : ∃ s t, Reused Reply.Fits s ∧ Fresh Reply.Fits t ∧
    (call idealWorld (whole (transferReplies (bytes "226 done"))) []
      (.getRange (bytes "/a") 3 7) s).map (fun r => (r.1, r.2.trace)) =
    (call idealWorld (whole (transferReplies (bytes "226 done"))) []
      (.getRange (bytes "/a") 3 7) t).map fun r => (r.1, r.2.trace) := by
  have hin : loggedIn.map Prod.fst = some 1 := by decide +kernel
  have hserved : (served (bytes "226 done")
      [.setCallbackXferFunction (some 1), .setCallbackBytes 1]
      (.get (bytes "f") (bytes "/a") 5)).map Prod.fst = some 1 := by decide +kernel
  obtain ⟨⟨x, t⟩, hlog, rfl⟩ := Option.map_eq_some_iff.mp hin
  obtain ⟨⟨y, s⟩, hrun, hy⟩ := Option.map_eq_some_iff.mp hserved
  cases hy
  have hs : Reused Reply.Fits s := reused_served (fits_short (by decide)) (fits_short (by decide))
    (protocol_done fun _ => fits_short) (by decide) (by decide) (by decide) hin hrun
  have ht : Fresh Reply.Fits t := fresh_loggedIn (fits_short (by decide)) (fits_short (by decide)) hlog
  exact ⟨s, t, hs, ht, reused_like_fresh hs ht (protocol_done fun _ => fits_short)
    (delivers_transferReplies (by decide)) (delivers_transferReplies (by decide)) idealWorld []
    (by decide) (by decide)⟩

end EzRemote.Ftp

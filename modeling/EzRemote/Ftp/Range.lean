import EzRemote.Lib.Total
import EzRemote.Ftp.Reuse
import EzRemote.Transfer.Range

/-!
# A range over FTP

`GetRange` with a sink on a server that serves the file: the range arrives, and
the reply that `FtpClose` reads decides what is returned.
-/

namespace EzRemote.Ftp

open FtpHandle
open Pool (TransferState)
open Transfer (slice slice_eq_append)

/-- A well-formed reply whose lines fit `response`, of the kind `digit`. -/
structure OfKind (digit : UInt8) (r : Reply) : Prop where
  wellFormed : WellFormed r
  fits : r.Fits
  digit : r.digit = digit

/-- A reply to `PASV`: six numbers behind the first parenthesis. -/
def Passive (r : Reply) : Prop :=
  ∃ before numbers v, r.getLastD [] = before ++ 40 :: numbers ∧ 40 ∉ before ∧
    scanNumbers 6 (numbers ++ [lf]) = some v

/-- The server takes `REST` at `offset` and opens the transfer of `path`;
`ending` is what it says when the data connection is closed. -/
structure ServesFrom (replies : Replies) (path : Bytes) (offset : UInt64) (ending : Reply) :
    Prop where
  type : ∀ trace, ∃ r, OfKind 50 r ∧ replies trace (bytes "TYPE I" ++ crlf) = some [r]
  pasv : ∀ trace, ∃ r, OfKind 50 r ∧ Passive r ∧ replies trace (bytes "PASV" ++ crlf) = some [r]
  rest : ∀ trace, ∃ r, OfKind 51 r ∧
    replies trace (bytes "REST " ++ toDecimal offset.toInt64.toInt ++ crlf) = some [r]
  retr : ∀ trace, ∃ r, OfKind 49 r ∧
    replies trace (bytes "RETR " ++ cStr path ++ crlf) = some [r, ending]

/-- The code that ends a transfer of which the server has sent all, or not. -/
def endingCode (complete : Prop) [Decidable complete] : Bytes :=
  if complete then bytes "226" else bytes "426"

/-- The reply that ends a transfer. -/
structure Ends (complete : Prop) [Decidable complete] (r : Reply) : Prop where
  wellFormed : WellFormed r
  fits : r.Fits
  code : (r.headD []).take 3 = endingCode complete

/-- A transfer of `R` from `offset` that the client closes after `size` bytes:
how much of the file the server had sent by then. -/
structure Retrieval (R : Bytes) (offset size : Nat) where
  sent : Nat
  received : offset + size ≤ sent
  bounded : sent ≤ R.length

def Retrieval.Complete {R : Bytes} {offset size : Nat} (t : Retrieval R offset size) : Prop :=
  t.sent = R.length

instance {R : Bytes} {offset size : Nat} (t : Retrieval R offset size) : Decidable t.Complete :=
  inferInstanceAs (Decidable (t.sent = _))

/-- The data connection carries `data`, of which `remaining` bytes are asked
for: a `recv` returns some of them, at most what the buffer holds. -/
inductive Chunks : Bytes → Nat → List Recv → Prop
  | done {data : Bytes} {rest : List Recv} : Chunks data 0 rest
  | recv {data b : Bytes} {remaining : Nat} {rest : List Recv} : b ≠ [] →
    b.length ≤ min ftpClientBufsiz remaining → b <+: data →
    Chunks (data.drop b.length) (remaining - b.length) rest →
    Chunks data remaining (.data b :: rest)

/-- The sockets and allocations succeed, the sink accepts everything, and the
callback, if there is one, does not break the transfer off. -/
structure Unhindered (w : World) (transfer : TransferState) : Prop where
  socketOpens : w.socketOpens = true
  optionsSet : w.optionsSet = true
  connects : w.connects = true
  allocates : w.allocates = true
  allocatesBuffer : w.allocatesBuffer = true
  sink : ∀ trace data, w.sink trace data = true
  callback : ∀ xfercb, transfer.xfercb = some xfercb →
    ∀ trace xfered cbarg, w.callback trace xfercb xfered cbarg ≠ 0

/-- `RETR` with this path fits `buf` of `FtpAccess`. -/
def Sendable (path : Bytes) : Prop := path ≠ [] ∧ path.length + 5 < 512

instance (path : Bytes) : Decidable (Sendable path) :=
  inferInstanceAs (Decidable (path ≠ [] ∧ _))

def Event.passed : Event → Bytes
  | .sink data _ => data
  | _ => []

def passed (trace : List Event) : Bytes := trace.reverse.flatMap Event.passed

@[simp] theorem passed_cons (e : Event) (trace : List Event) :
    passed (e :: trace) = passed trace ++ e.passed := by
  simp [passed]

theorem passed_events (r : Reply) (trace : List Event) :
    passed (r.events.reverse ++ trace) = passed trace := by
  have hnone : r.events.flatMap Event.passed = [] := by
    apply List.flatMap_eq_nil_iff.mpr
    intro e he
    obtain ⟨l, -, rfl⟩ := List.mem_map.mp he
    rfl
  rw [passed, List.reverse_append, List.reverse_reverse, List.flatMap_append, hnone,
    List.append_nil]
  rfl

/-- A session that waits for the replies `rs` and has passed `data`. -/
structure Awaits (core : Core) (rs : List Reply) (data : Bytes) (s : Session) : Prop where
  buffered : Buffered (encodeAll rs) s.h s.wire
  core : s.h.core = core
  passed : passed s.trace = data

/-- `response` holds the last line of a reply that `P` admits. -/
def LastReply (P : Reply → Prop) (s : Session) : Prop :=
  ∃ r, P r ∧ cStr s.h.response = r.getLastD [] ++ [lf]

variable {core : Core} {rs : List Reply} {data : Bytes}

theorem emit_total {e : Event} :
    Total (Awaits core rs data) (emit e) fun _ => Awaits core rs (data ++ e.passed) := by
  apply Total.modify
  intro s h
  refine ⟨h.buffered, h.core, ?_⟩
  rw [passed_cons, h.passed]

theorem emit_silent {e : Event} (he : e.passed = []) :
    Total (Awaits core rs data) (emit e) fun _ => Awaits core rs data := by
  have h : Total (Awaits core rs data) (emit e) fun _ => Awaits core rs (data ++ e.passed) :=
    emit_total
  rwa [he, List.append_nil] at h

theorem readResponse_total {digit : UInt8} {r : Reply} (hr : OfKind digit r) (c : Bytes) :
    Total (Awaits core (r :: rs) data) (readResponse c) fun x s =>
      x = (if digit ∈ c then 1 else 0) ∧ Awaits core rs data s ∧
        cStr s.h.response = r.getLastD [] ++ [lf] := by
  intro s h
  obtain ⟨g, wire, hs, hg, hc, htext⟩ := readResponse_reply h.buffered hr.wellFormed hr.fits c
  rw [hr.digit] at hs
  exact ⟨_, _, hs, rfl, ⟨hg, hc.trans h.core, (passed_events r s.trace).trans h.passed⟩, htext⟩

section Server

variable {replies : Replies} {srv : Server} (hd : Delivers srv replies)

include hd

theorem send_total {line : Bytes} {P : List Reply → Prop}
    (h : ∀ trace, ∃ rs, P rs ∧ replies trace line = some rs) :
    Total (Awaits core [] data) (send srv line) fun sent s =>
      sent = true ∧ ∃ rs, P rs ∧ Awaits core rs data s := by
  apply Total.get_bind
  intro s hs
  obtain ⟨rs, hP, hr⟩ := h s.trace
  have hrel := hd s.trace line
  rw [hr] at hrel
  cases hsrv : srv s.trace line with
  | none => rw [hsrv] at hrel; cases hrel
  | some segments =>
    rw [hsrv] at hrel
    cases hrel with
    | some hcarries =>
      apply Total.bind (Q := fun _ => Awaits core rs data)
      · apply Total.modify
        rintro t rfl
        exact ⟨hs.buffered.append hcarries, hs.core, hs.passed⟩
      · intro _
        apply (emit_silent rfl).bind
        intro _
        exact Total.pure fun s h => ⟨rfl, rs, hP, h⟩

theorem ftpSendCmd_total {cmd expected : Bytes} (digit : UInt8) (P : Reply → Prop)
    (hh : core.handle = true) (hdir : core.dir = .control)
    (hlen : (cStr cmd).length + 2 < 512) (hdigit : digit ∈ expected)
    (hone : ∀ trace, ∃ r, (OfKind digit r ∧ P r) ∧ replies trace (cStr cmd ++ crlf) = some [r]) :
    Total (Awaits core [] data) (ftpSendCmd srv cmd expected) fun x s =>
      x = 1 ∧ Awaits core [] data s ∧ LastReply P s := by
  apply Total.get_bind
  intro s hs
  have hsh : s.h.handle = true := (congrArg Core.handle hs.core).trans hh
  have hsdir : s.h.dir = .control := (congrArg Core.dir hs.core).trans hdir
  have hbuf : ¬ 512 ≤ (cStr cmd ++ crlf).length := by
    have hcrlf : crlf.length = 2 := by decide
    rw [List.length_append]
    omega
  rw [hsh, hsdir, if_neg (by decide), if_neg (by decide), if_neg hbuf]
  have hsent : Total (Awaits core [] data) (send srv (cStr cmd ++ crlf)) fun sent s =>
      sent = true ∧ ∃ rs, (∃ r, (OfKind digit r ∧ P r) ∧ rs = [r]) ∧ Awaits core rs data s := by
    apply send_total hd
    intro trace
    obtain ⟨r, hr, heq⟩ := hone trace
    exact ⟨[r], ⟨r, hr, rfl⟩, heq⟩
  apply Total.bind_eq (hsent.of_state hs)
  rintro t ⟨rs, ⟨r, ⟨hr, hP⟩, rfl⟩, ht⟩
  obtain ⟨x, t', hx, hval, haw, htext⟩ := readResponse_total hr expected t ht
  rw [if_pos hdigit] at hval
  exact ⟨x, t', hx, hval, haw, r, hP, htext⟩

end Server

section Access

variable {w : World} {transfer : TransferState} {offset : UInt64}

/-- The data handle of a download. -/
def readHandle (transfer : TransferState) : DataHandle :=
  { dir := .read, ctrl := true, transfer := inherited transfer }

theorem pasvAddress_total :
    Total (fun s => Awaits (callCore transfer offset) [] data s ∧ LastReply Passive s)
      (pasvAddress w) fun address s =>
        address.isSome ∧ Awaits (callCore transfer offset) [] data s := by
  apply Total.get_bind
  rintro s ⟨hs, r, ⟨before, numbers, v, hlast, hbefore, hscan⟩, htext⟩
  have hbehind : (cStr s.h.response).dropWhile (· ≠ 40) = 40 :: (numbers ++ [lf]) := by
    have hskip : ∀ b ∈ before, decide (b ≠ 40) = true := by
      intro b hb
      exact decide_eq_true fun heq => hbefore (heq ▸ hb)
    rw [htext, hlast, List.append_assoc, List.dropWhile_append_of_pos hskip, List.cons_append,
      List.dropWhile_cons_of_neg (by simp)]
  have hcorrect : s.h.correctpasv = false := congrArg Core.correctpasv hs.core
  rw [hbehind]
  dsimp only
  rw [hscan, hcorrect]
  apply Total.pure
  rintro t rfl
  exact ⟨rfl, hs⟩

theorem ftpDial_total (hw : Unhindered w transfer) {r ending : Reply} (hr : OfKind 49 r)
    (address : Bytes) :
    Total (Awaits (callCore transfer offset) [r, ending] data) (ftpDial w address) fun x s =>
      x = (1, some (readHandle transfer)) ∧
        Awaits (callCore transfer offset) [ending] data s := by
  apply (emit_silent rfl).bind
  intro _
  rw [hw.connects, if_neg (by decide)]
  have hopen : (49 : UInt8) ∈ bytes "1" := by decide
  have hread : Total (Awaits (callCore transfer offset) [r, ending] data) (readResponse (bytes "1"))
      fun x s => x = 1 ∧ Awaits (callCore transfer offset) [ending] data s := by
    apply (readResponse_total hr _).mono (fun _ h => h)
    rintro x s ⟨hx, hs, -⟩
    rw [if_pos hopen] at hx
    exact ⟨hx, hs⟩
  apply Total.bind_eq hread
  rw [if_neg (by decide), hw.allocates, if_neg (by decide)]
  apply Total.get_bind
  intro s hs
  have htransfer : s.h.transfer = transfer := congrArg Core.transfer hs.core
  rw [htransfer]
  apply Total.pure
  rintro t rfl
  exact ⟨rfl, hs⟩

variable {replies : Replies} {srv : Server} (hd : Delivers srv replies) {path : Bytes}
  {ending : Reply} (hserves : ServesFrom replies path offset ending)

include hd hserves

theorem ftpRest_total :
    Total (Awaits (callCore transfer offset) [] data) (ftpRest srv) fun x s =>
      x = 1 ∧ Awaits (callCore transfer offset) [] data s := by
  apply Total.get_bind
  intro s hs
  have hoffset : s.h.offset = offset.toInt64.toInt := congrArg Core.offset hs.core
  rw [hoffset]
  have hcmd : cStr (bytes "REST " ++ toDecimal offset.toInt64.toInt) =
      bytes "REST " ++ toDecimal offset.toInt64.toInt := by
    apply cStr_of_notMem
    intro hm
    rcases List.mem_append.mp hm with hm | hm
    · exact absurd hm (by decide)
    · exact absurd (mem_toDecimal hm).1 (by decide)
  have hlen : (toDecimal offset.toInt64.toInt).length ≤ 20 := by
    apply length_toDecimal_le
    have := offset.toInt64.le_toInt
    have := offset.toInt64.toInt_lt
    omega
  have hbuf : (cStr (bytes "REST " ++ toDecimal offset.toInt64.toInt)).length + 2 < 512 := by
    have hrest : (bytes "REST ").length = 5 := by decide
    rw [hcmd, List.length_append]
    omega
  have hsend : Total (Awaits (callCore transfer offset) [] data)
      (ftpSendCmd srv (bytes "REST " ++ toDecimal offset.toInt64.toInt) (bytes "3")) fun x s =>
        x = 1 ∧ Awaits (callCore transfer offset) [] data s ∧ LastReply (fun _ => True) s := by
    refine ftpSendCmd_total hd 51 _ rfl rfl hbuf (by decide) ?_
    intro trace
    obtain ⟨r, hr, heq⟩ := hserves.rest trace
    exact ⟨r, ⟨hr, trivial⟩, by rw [hcmd, heq]⟩
  by_cases h0 : offset.toInt64.toInt ≠ 0
  · rw [if_pos h0]
    exact (hsend.mono (fun _ h => h) fun _ _ h => ⟨h.1, h.2.1⟩).of_state hs
  · rw [if_neg h0]
    apply Total.pure
    rintro t rfl
    exact ⟨rfl, hs⟩

theorem ftpOpenData_total (hw : Unhindered w transfer) (address : Bytes) :
    Total (Awaits (callCore transfer offset) [] data)
      (ftpOpenData w srv (bytes "RETR " ++ cStr path) address) fun x s =>
        x = (1, some (readHandle transfer)) ∧
          Awaits (callCore transfer offset) [ending] data s := by
  unfold ftpOpenData
  rw [hw.socketOpens, if_neg (by decide), hw.optionsSet, if_neg (by decide)]
  apply Total.get_bind
  intro s hs
  have hdir : s.h.dir = .control := congrArg Core.dir hs.core
  rw [hdir, if_neg (by decide)]
  have hsent : Total (Awaits (callCore transfer offset) [] data)
      (send srv (bytes "RETR " ++ cStr path ++ crlf)) fun sent s =>
        sent = true ∧ ∃ rs, (∃ r, OfKind 49 r ∧ rs = [r, ending]) ∧
          Awaits (callCore transfer offset) rs data s := by
    apply send_total hd
    intro trace
    obtain ⟨r, hr, heq⟩ := hserves.retr trace
    exact ⟨[r, ending], ⟨r, hr, rfl⟩, heq⟩
  apply Total.bind_eq (hsent.of_state hs)
  rintro t ⟨rs, ⟨r, hr, rfl⟩, ht⟩
  exact ftpDial_total hw hr address t ht

theorem ftpOpenPasv_total (hw : Unhindered w transfer) :
    Total (Awaits (callCore transfer offset) [] data)
      (ftpOpenPasv w srv (bytes "RETR " ++ cStr path)) fun x s =>
        x = (1, some (readHandle transfer)) ∧
          Awaits (callCore transfer offset) [ending] data s := by
  apply Total.get_bind
  intro s hs
  have hdir : s.h.dir = .control := congrArg Core.dir hs.core
  rw [hdir, if_neg (by decide)]
  have hsend : Total (Awaits (callCore transfer offset) [] data)
      (ftpSendCmd srv (bytes "PASV") (bytes "2")) fun x s =>
        x = 1 ∧ Awaits (callCore transfer offset) [] data s ∧ LastReply Passive s := by
    refine ftpSendCmd_total hd 50 _ rfl rfl (by decide) (by decide) ?_
    intro trace
    obtain ⟨r, hr, hpassive, heq⟩ := hserves.pasv trace
    exact ⟨r, ⟨hr, hpassive⟩, heq⟩
  apply Total.bind_eq (hsend.of_state hs)
  rw [if_neg (by decide)]
  apply pasvAddress_total.bind
  intro address
  cases address with
  | none =>
    rintro s ⟨hnone, -⟩
    cases hnone
  | some address =>
    dsimp only
    apply Total.bind_eq ((ftpRest_total hd hserves).mono (fun _ h => h.2) fun _ _ h => h)
    rw [if_neg (by decide)]
    exact ftpOpenData_total hd hserves hw address

theorem ftpAccess_total (hw : Unhindered w transfer) :
    Total (Awaits (callCore transfer offset) [] data) (ftpAccess w srv path) fun x s =>
      if Sendable path then
        x = (1, some (readHandle transfer)) ∧ Awaits (callCore transfer offset) [ending] data s
      else x = (0, none) := by
  unfold ftpAccess
  by_cases hnil : path = []
  · have hno : ¬ Sendable path := fun h => h.1 hnil
    simp only [hno, if_false]
    rw [if_pos hnil]
    apply Total.bind (Q := fun _ _ => True) (Total.modify fun _ _ => trivial)
    intro _
    exact Total.pure fun _ _ => rfl
  rw [if_neg hnil]
  have hsend : Total (Awaits (callCore transfer offset) [] data)
      (ftpSendCmd srv (bytes "TYPE I") (bytes "2")) fun x s =>
        x = 1 ∧ Awaits (callCore transfer offset) [] data s ∧ LastReply (fun _ => True) s := by
    refine ftpSendCmd_total hd 50 _ rfl rfl (by decide) (by decide) ?_
    intro trace
    obtain ⟨r, hr, heq⟩ := hserves.type trace
    exact ⟨r, ⟨hr, trivial⟩, heq⟩
  apply Total.bind_eq (hsend.mono (fun _ h => h) fun _ _ h => ⟨h.1, h.2.1⟩)
  rw [if_neg (by decide)]
  by_cases hlen : 512 ≤ path.length + 5
  · have hno : ¬ Sendable path := fun h => absurd h.2 (by omega)
    simp only [hno, if_false]
    rw [if_pos hlen]
    exact Total.pure fun _ _ => rfl
  · have hyes : Sendable path := ⟨hnil, by omega⟩
    simp only [hyes, if_true]
    rw [if_neg hlen]
    apply Total.bind_eq (ftpOpenPasv_total hd hserves hw)
    exact Total.pure fun _ h => ⟨rfl, h⟩

end Access

/-- A data handle that `FtpRead` and `FtpClose` can use. -/
structure Serving (w : World) (d : DataHandle) : Prop where
  dir : d.dir = .read
  ctrl : d.ctrl = true
  callback : ∀ xfercb, d.transfer.xfercb = some xfercb →
    ∀ trace xfered cbarg, w.callback trace xfercb xfered cbarg ≠ 0

theorem Unhindered.serving {w : World} {transfer : TransferState} (hw : Unhindered w transfer) :
    Serving w (readHandle transfer) := by
  refine ⟨rfl, rfl, ?_⟩
  intro xfercb hx
  apply hw.callback
  change (if transfer.cbbytes ≠ 0 then transfer.xfercb else none) = some xfercb at hx
  split at hx
  · exact hx
  · cases hx

theorem ftpRead_total {w : World} {max : Nat} {b : Bytes} {d : DataHandle} (hd : Serving w d)
    (hlen : b.length ≤ max) :
    Total (Awaits core rs data) (ftpRead w max (.data b) d) fun x s =>
      x.1 = b.length ∧ Serving w x.2 ∧ Awaits core rs data s := by
  obtain ⟨hdir, hctrl, hcallback⟩ := hd
  unfold ftpRead
  rw [if_neg fun h => h hdir]
  dsimp only
  rw [if_neg (by omega)]
  cases hx : d.transfer.xfercb with
  | none => exact Total.pure fun _ h => ⟨rfl, ⟨hdir, hctrl, hcallback⟩, h⟩
  | some xfercb =>
    dsimp only
    split
    · exact Total.pure fun _ h => ⟨rfl, ⟨hdir, hctrl, hcallback⟩, h⟩
    split
    · exact Total.pure fun _ h => ⟨rfl, ⟨hdir, hctrl, hcallback⟩, h⟩
    apply Total.get_bind
    intro s hs
    refine Total.bind (Q := fun _ => Awaits core rs data) ((emit_silent rfl).of_state hs) ?_
    intro _
    rw [if_neg (hcallback xfercb hx _ _ _)]
    exact Total.pure fun _ h => ⟨rfl, ⟨hdir, hctrl, hcallback⟩, h⟩

/-- The loop passes on what is asked for, wherever the chunks are cut. -/
theorem getRangeLoop_total {w : World} (hsink : ∀ trace data, w.sink trace data = true)
    {file : Bytes} {remaining : Nat} {incoming : List Recv}
    (hc : Chunks file remaining incoming) {d : DataHandle} (hd : Serving w d) :
    Total (Awaits core rs data) (getRangeLoop w incoming remaining d) fun x s =>
      (x.1 = 0 ∧ x.2.1 = true) ∧ Serving w x.2.2 ∧
        Awaits core rs (data ++ file.take remaining) s := by
  induction hc generalizing data d with
  | @done file rest =>
    rw [List.take_zero, List.append_nil]
    cases rest with
    | nil => exact Total.pure fun _ h => ⟨⟨rfl, rfl⟩, hd, h⟩
    | cons r rest => exact Total.pure fun _ h => ⟨⟨rfl, rfl⟩, hd, h⟩
  | @recv file b remaining rest hne hlen hpre hc ih =>
    have hpos : 0 < b.length := List.length_pos_iff.mpr hne
    unfold getRangeLoop
    rw [if_neg (by omega)]
    apply (ftpRead_total hd hlen).bind
    rintro ⟨count, e⟩ s ⟨hcount, he, hs⟩
    change count = b.length at hcount
    dsimp only
    rw [if_neg (by omega)]
    -- the chunk is a part of the range, and the rest of it follows
    have htake : file.take remaining =
        b ++ (file.drop b.length).take (remaining - b.length) := by
      obtain ⟨more, rfl⟩ := hpre
      rw [List.drop_left, List.take_append, List.take_of_length_le (by omega)]
    have hrun : Total (· = s) (MonadState.get >>= fun s => do
        let taken := w.sink s.trace b
        emit (.sink b taken)
        if taken = false then return (remaining - b.length, false, e)
        else getRangeLoop w rest (remaining - b.length) e) fun x s =>
          (x.1 = 0 ∧ x.2.1 = true) ∧ Serving w x.2.2 ∧
            Awaits core rs (data ++ file.take remaining) s := by
      apply Total.get_bind
      rintro t rfl
      rw [hsink]
      refine Total.bind (Q := fun _ => Awaits core rs (data ++ b)) (emit_total.of_state hs) ?_
      intro _
      rw [if_neg (by decide), htake, ← List.append_assoc]
      exact ih he
    exact hrun s rfl

/-- `FtpClose` tells the code by its first digit. -/
theorem ftpClose_total {complete : Prop} [Decidable complete] {ending : Reply} {w : World}
    {d : DataHandle} (hd : Serving w d) (he : Ends complete ending) :
    Total (Awaits core [ending] data) (ftpClose d) fun x s =>
      x = (if complete then 1 else 0) ∧ Awaits core [] data s := by
  have hdigit : ending.digit = if complete then 50 else 52 := by
    have hhead : (endingCode complete).headD 0 = if complete then 50 else 52 := by
      unfold endingCode
      split
      · rfl
      · rfl
    rw [← hhead, ← he.code, Reply.digit]
    cases ending.headD [] with
    | nil => rfl
    | cons x line => rfl
  have hread : Total (Awaits core [ending] data) (readResponse (bytes "2")) fun x s =>
      x = (if ending.digit ∈ bytes "2" then 1 else 0) ∧ Awaits core [] data s ∧
        cStr s.h.response = ending.getLastD [] ++ [lf] :=
    readResponse_total ⟨he.wellFormed, he.fits, rfl⟩ _
  unfold ftpClose
  rw [hd.dir, hd.ctrl, if_neg (by decide), if_pos rfl]
  apply hread.mono (fun _ h => h)
  rintro x s ⟨hx, hs, -⟩
  refine ⟨?_, hs⟩
  rw [hx, hdigit]
  by_cases hcomplete : complete
  · rw [if_pos hcomplete, if_pos hcomplete, if_pos (by decide)]
  · rw [if_neg hcomplete, if_neg hcomplete, if_neg (by decide)]

theorem setOffset_total (transfer : TransferState) (offset : UInt64) :
    Total (fun s => Idle transfer s ∧ passed s.trace = data) (setOffset offset)
      fun _ => Awaits (callCore transfer offset) [] data := by
  apply Total.modify
  rintro s ⟨h, hpassed⟩
  refine ⟨⟨⟨h.buffered.balanced.buffer, h.buffered.balanced.response⟩, h.buffered.stream,
    h.buffered.text⟩, ?_, hpassed⟩
  show FtpHandle.core { s.h with offset := offset.toInt64.toInt } = _
  rw [FtpHandle.core, callCore, h.handle, h.dir, h.correctpasv, h.transfer]

theorem Awaits.idle {transfer : TransferState} {offset : UInt64} {s : Session}
    (h : Awaits (callCore transfer offset) [] data s) : Idle transfer s :=
  ⟨h.buffered, congrArg Core.handle h.core, congrArg Core.dir h.core,
    congrArg Core.correctpasv h.core, congrArg Core.transfer h.core⟩

/-- `GetRange` passes the range on, and returns what `FtpClose` makes of the
reply that ends the transfer. -/
theorem getRange_total {w : World} {transfer : TransferState} {replies : Replies} {srv : Server}
    (hd : Delivers srv replies) {path : Bytes} {size offset : UInt64} {ending : Reply}
    (hserves : ServesFrom replies path offset ending) (hw : Unhindered w transfer) {R : Bytes}
    (hc : Chunks (R.drop offset.toNat) size.toNat w.incoming) {complete : Prop}
    [Decidable complete] (he : Ends complete ending) :
    Total (fun s => Idle transfer s ∧ passed s.trace = []) (getRange w srv path size offset)
      fun x s => if Sendable path then
          x = (if complete then 1 else 0) ∧ passed s.trace = slice R offset.toNat size.toNat
        else x = 0 := by
  apply (setOffset_total transfer offset).bind
  intro _
  apply (ftpAccess_total hd hserves hw).bind
  rintro ⟨ok, nData⟩
  by_cases hsend : Sendable path
  · simp only [hsend, if_true]
    rintro s ⟨hx, hs⟩
    cases hx
    refine Total.of_state ?_ hs s rfl
    show Total _ (if w.allocatesBuffer = false then _ else _) _
    rw [hw.allocatesBuffer, if_neg (by decide)]
    apply (getRangeLoop_total hw.sink hc hw.serving).bind
    rintro ⟨remaining, taken, d⟩ t ⟨⟨hremaining, htaken⟩, hserving, ht⟩
    cases hremaining
    cases htaken
    rw [List.nil_append] at ht
    refine Total.of_state ?_ ht t rfl
    apply (ftpClose_total hserving he).bind
    rintro completed t ⟨hcompleted, ht⟩
    refine Total.of_state (Total.bind ((setOffset_total transfer 0).of_state
      ⟨ht.idle, ht.passed⟩) ?_) rfl t rfl
    intro _
    rw [if_neg Bool.true_eq_false.mp, if_neg (Nat.lt_irrefl 0), hcompleted]
    by_cases hcomplete : complete
    · simp only [hcomplete, if_true]
      exact Total.pure fun _ h => ⟨rfl, h.passed⟩
    · simp only [hcomplete, if_false]
      refine Total.bind (Q := fun _ s => passed s.trace = slice R offset.toNat size.toNat)
        (Total.modify fun _ h => h.passed) ?_
      intro _
      exact Total.pure fun _ h => ⟨rfl, h⟩
  · simp only [hsend, if_false]
    intro s hx
    cases hx
    exact ⟨0, s, rfl, rfl⟩

/-- On a server that serves the file the range always arrives at the sink, and
`GetRange` returns 1 where the server had sent the whole file, as it has for a
range that reaches the end. -/
theorem range_returned_iff {R : Bytes} {size offset : UInt64}
    (t : Retrieval R offset.toNat size.toNat) {w : World} {settings : List Setting} {s : Session}
    (hs : Idle {} s) {replies : Replies} {srv : Server} (hd : Delivers srv replies) {path : Bytes}
    {ending : Reply} (hserves : ServesFrom replies path offset ending)
    (he : Ends t.Complete ending) (hw : Unhindered w (settings.foldl (fun t x => x.apply t) {}))
    (hc : Chunks (R.drop offset.toNat) size.toNat w.incoming) :
    ∃ x s', call w srv settings (.getRange path size offset) s = some (x, s') ∧
      (Sendable path → passed s'.trace = slice R offset.toNat size.toNat) ∧
      (x = 1 ∧ passed s'.trace = slice R offset.toNat size.toNat ↔ Sendable path ∧ t.Complete) ∧
      (offset.toNat + size.toNat = R.length → t.Complete) := by
  have hend : offset.toNat + size.toNat = R.length → t.Complete := by
    intro h
    exact Nat.le_antisymm t.bounded (h ▸ t.received)
  have hrun := getRange_total hd hserves hw hc he
  have hidle : Idle (settings.foldl (fun t x => x.apply t) {}) { s with
      h := { s.h with transfer := settings.foldl (fun t x => x.apply t) s.h.transfer }
      trace := [] } := by
    refine ⟨⟨⟨hs.buffered.balanced.buffer, hs.buffered.balanced.response⟩, hs.buffered.stream,
      hs.buffered.text⟩, hs.handle, hs.dir, hs.correctpasv, ?_⟩
    show settings.foldl _ s.h.transfer = _
    rw [hs.transfer]
  obtain ⟨x, s', hx, hpost⟩ := hrun _ ⟨hidle, rfl⟩
  refine ⟨x, s', hx, ?_⟩
  by_cases hsend : Sendable path
  · simp only [hsend, if_true] at hpost
    obtain ⟨hval, hpassed⟩ := hpost
    refine ⟨fun _ => hpassed, ?_, hend⟩
    constructor
    · rintro ⟨hone, -⟩
      refine ⟨hsend, ?_⟩
      by_contra hcomplete
      rw [hval, if_neg hcomplete] at hone
      cases hone
    · rintro ⟨-, hcomplete⟩
      rw [hval, if_pos hcomplete]
      exact ⟨rfl, hpassed⟩
  · simp only [hsend, if_false] at hpost
    refine ⟨fun h => absurd h hsend, ?_, hend⟩
    constructor
    · rintro ⟨hone, -⟩
      rw [hpost] at hone
      cases hone
    · rintro ⟨h, -⟩
      exact absurd h hsend

/-- Bytes 1 and 2 of a file in two chunks. -/
def rangeWorld : World := { idealWorld with incoming := [.data [2], .data [3]] }

theorem unhindered_rangeWorld : Unhindered rangeWorld {} :=
  ⟨rfl, rfl, rfl, rfl, rfl, fun _ _ => rfl, fun _ h => nomatch h⟩

theorem chunks_rangeWorld : Chunks (([1, 2, 3, 4, 5] : Bytes).drop 1) 2 rangeWorld.incoming :=
  .recv (by decide) (by decide) (by decide) (.recv (by decide) (by decide) (by decide) .done)

theorem servesFrom_transferReplies (ending : Bytes) :
    ServesFrom (transferReplies ending) (bytes "/a") 1 [ending] := by
  have hline : ∀ l ∈ [bytes "150 go", bytes "227 (10,0,0,1,4,1)", bytes "350 ok",
      bytes "200 ok"], ((lf ∉ l ∧ (0 : UInt8) ∉ l) ∧ 3 ≤ l.length ∧ l[3]? ≠ some 45) ∧
        l.length ≤ 30 := by
    decide
  have hkind : ∀ l ∈ [bytes "150 go", bytes "227 (10,0,0,1,4,1)", bytes "350 ok",
      bytes "200 ok"], OfKind (l.headD 0) [l] := fun l hm =>
    ⟨.single ⟨(hline l hm).1.1.1, (hline l hm).1.1.2⟩ (hline l hm).1.2.1 (hline l hm).1.2.2,
      fits_short (hline l hm).2, rfl⟩
  refine ⟨?_, ?_, ?_, ?_⟩
  · intro _
    exact ⟨_, hkind (bytes "200 ok") (by decide), rfl⟩
  · intro _
    exact ⟨_, hkind (bytes "227 (10,0,0,1,4,1)") (by decide),
      ⟨bytes "227 ", bytes "10,0,0,1,4,1)", [10, 0, 0, 1, 4, 1], by decide, by decide, by decide⟩,
      rfl⟩
  · intro _
    exact ⟨_, hkind (bytes "350 ok") (by decide), rfl⟩
  · intro _
    exact ⟨_, hkind (bytes "150 go") (by decide), rfl⟩

theorem ends_line {complete : Prop} [Decidable complete] {l : Bytes} (hlf : lf ∉ l)
    (hzero : 0 ∉ l) (hlen : l.length ≤ 30) (hdash : l[3]? ≠ some 45)
    (hcode : l.take 3 = endingCode complete) : Ends complete [l] := by
  refine ⟨.single ⟨hlf, hzero⟩ ?_ hdash, fits_short hlen, hcode⟩
  have h := congrArg List.length hcode
  have hthree : (endingCode complete).length = 3 := by
    unfold endingCode
    split
    · rfl
    · rfl
  rw [List.length_take, hthree] at h
  omega

theorem idle_loggedIn {s : Session} (h : loggedIn = some (1, s)) : Idle {} s :=
  Fresh.idle (fresh_loggedIn (fits_short (by decide)) (fits_short (by decide)) h)

/-- The file lay in the buffers of the sockets. -/
def allSent : Retrieval [1, 2, 3, 4, 5] (1 : UInt64).toNat (2 : UInt64).toNat :=
  ⟨5, by decide, by decide⟩

/-- The client closed when the server was at the fourth byte. -/
def cutShort : Retrieval [1, 2, 3, 4, 5] (1 : UInt64).toNat (2 : UInt64).toNat :=
  ⟨3, by decide, by decide⟩

theorem ends_allSent : Ends allSent.Complete [bytes "226 done"] :=
  ends_line (by decide) (by decide) (by decide) (by decide) (by decide)

theorem ends_cutShort : Ends cutShort.Complete [bytes "426 aborted"] :=
  ends_line (by decide) (by decide) (by decide) (by decide) (by decide)

theorem range_returned_iff_allSent : ∃ s x s',
    call rangeWorld (whole (transferReplies (bytes "226 done"))) [] (.getRange (bytes "/a") 2 1) s =
      some (x, s') ∧
    (Sendable (bytes "/a") → passed s'.trace = [2, 3]) ∧
    (x = 1 ∧ passed s'.trace = [2, 3] ↔ Sendable (bytes "/a") ∧ allSent.Complete) ∧
    ((1 : UInt64).toNat + (2 : UInt64).toNat = 5 → allSent.Complete) := by
  have hin : loggedIn.map Prod.fst = some 1 := by decide +kernel
  obtain ⟨⟨x, s⟩, hlog, rfl⟩ := Option.map_eq_some_iff.mp hin
  exact ⟨s, range_returned_iff allSent (idle_loggedIn hlog) (delivers_transferReplies (by decide))
    (servesFrom_transferReplies _) ends_allSent unhindered_rangeWorld chunks_rangeWorld⟩

/-- The range was passed to the sink, and the 426 of the transfer that the client
itself cut short makes the call fail; SFTPClient returns 1 for the same range. -/
theorem range_returned_iff_cutShort : ∃ s x s', Idle {} s ∧
    Delivers (whole (transferReplies (bytes "426 aborted"))) (transferReplies (bytes "426 aborted")) ∧
    ServesFrom (transferReplies (bytes "426 aborted")) (bytes "/a") 1 [bytes "426 aborted"] ∧
    Ends cutShort.Complete [bytes "426 aborted"] ∧ Unhindered rangeWorld {} ∧
    Chunks (([1, 2, 3, 4, 5] : Bytes).drop 1) 2 rangeWorld.incoming ∧
    call rangeWorld (whole (transferReplies (bytes "426 aborted"))) []
      (.getRange (bytes "/a") 2 1) s = some (x, s') ∧
    passed s'.trace = [2, 3] ∧ x = 0 ∧
    (Transfer.sftpGetRange (fun _ => Transfer.smallRangeFile) (bytes "/a") (fun _ => true) 2 1).ret
      = 1 := by
  have hin : loggedIn.map Prod.fst = some 1 := by decide +kernel
  have hcall : (loggedIn.bind fun r =>
      (call rangeWorld (whole (transferReplies (bytes "426 aborted"))) []
        (.getRange (bytes "/a") 2 1) r.2).map fun r => (passed r.2.trace, r.1)) =
      some ([2, 3], 0) := by decide +kernel
  obtain ⟨⟨x, s⟩, hlog, rfl⟩ := Option.map_eq_some_iff.mp hin
  rw [hlog, Option.bind_some] at hcall
  obtain ⟨⟨x, s'⟩, hrun, hres⟩ := Option.map_eq_some_iff.mp hcall
  obtain ⟨hpassed, rfl⟩ := Prod.mk.inj hres
  refine ⟨s, _, s', idle_loggedIn hlog, delivers_transferReplies (by decide),
    servesFrom_transferReplies _, ends_cutShort, unhindered_rangeWorld, chunks_rangeWorld, hrun,
    hpassed, rfl, ?_⟩
  simp [Transfer.sftpGetRange, Transfer.smallRangeFile, Transfer.wholeReads, Transfer.rangeLoop,
    slice, Transfer.bufSize]

end EzRemote.Ftp

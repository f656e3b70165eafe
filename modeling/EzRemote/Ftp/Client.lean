import EzRemote.Ftp.Handle
import EzRemote.Transfer.Local

/-!
# FtpClient

`Connect`, `Get`, `GetRange` and `ResetTransferState` of
`clients/ftpclient.cpp`, with the functions they call.  The client is in
passive mode, as `ClearHandle` leaves it, and transfers in image mode.
-/

namespace EzRemote.Ftp

open Pool (TransferState)
open Transfer (LocalDisk)

/-- What a call does to the outside, and the replies that it reads. -/
inductive Event
  | command (line : Bytes) (sent : Bool)
  | reply (line : Bytes)
  | closeControl
  | dial (address : Bytes) (connected : Bool)
  | openFile (name : Bytes) (append opened : Bool)
  | write (stored : Bytes) (reported : Nat)
  | closeFile
  | sink (data : Bytes) (taken : Bool)
  | copied (data : Bytes)
  | progress (xfercb : Nat) (xfered : Int) (cbarg : Option Nat) (result : Int)
  deriving DecidableEq, Repr

/-- A client: its handle, what the `recv` calls on the control connection will
return, and the events of the current call, newest first. -/
structure Session where
  h : FtpHandle
  wire : List Recv
  trace : List Event
  deriving DecidableEq, Repr

/-- What arrives once a line is sent after the events listed; `none` is a `send`
that fails. -/
abbrev Server := List Event → Bytes → Option (List Recv)

/-- What a call meets besides the server's replies: the outcomes of the socket
calls, of the allocations and of the local file, the data connection, the
callback and the sink. -/
structure World where
  socketOpens : Bool
  optionsSet : Bool
  connects : Bool
  peer : Option Bytes
  allocates : Bool
  allocatesBuffer : Bool
  incoming : List Recv
  disk : LocalDisk
  openError : Bytes
  callback : List Event → Nat → Int → Option Nat → Int
  sink : List Event → Bytes → Bool

abbrev Run := StateT Session Option

def emit (e : Event) : Run Unit := modify fun s => { s with trace := e :: s.trace }

def modifyHandle (f : FtpHandle → FtpHandle) : Run Unit := modify fun s => { s with h := f s.h }

def readline : Run Int := fun s =>
  match readlineLoop s.wire responseSize 0 0 s.h with
  | none => none
  | some (retval, h, wire) =>
    let trace := if retval = -1 then s.trace else .reply (cStr h.response) :: s.trace
    some (retval, { h := h, wire := wire, trace := trace })

def strncpy (src : Bytes) (n : Nat) : Bytes := ((cStr src).take n ++ List.replicate n 0).take n

/-- `strncmp(a, b, n) == 0`. -/
def strncmpEq (a b : Bytes) (n : Nat) : Prop := (cStr a).take n = (cStr b).take n

instance (a b : Bytes) (n : Nat) : Decidable (strncmpEq a b n) :=
  inferInstanceAs (Decidable (_ = _))

/-- The `do` loop of `ReadResponse`. -/
def readUntil (matching : Bytes) : Nat → Run Bool
  | 0 => failure
  | fuel + 1 => do
    let x ← readline
    if x = -1 then return false
    else
      let s ← get
      if strncmpEq s.h.response matching 4 then return true
      else readUntil matching fuel

/-- Each call of `Readline` that does not return -1 takes a byte off this. -/
def Session.pending (s : Session) : Nat :=
  s.h.cavail + (s.wire.map fun r => match r with | .error => 1 | .data b => b.length + 1).sum

/-- The end of `ReadResponse`: whether `response[0]` is in `c`. -/
def expects (c : Bytes) : Run Int := do
  let s ← get
  if s.h.response.headD 0 ∈ c then return 1 else return 0

def readResponse (c : Bytes) : Run Int := do
  let x ← readline
  if x = -1 then return 0
  else
    let s ← get
    if s.h.response[3]? = some 45 then
      let matching := strncpy s.h.response 3 ++ [32, 0]
      let found ← readUntil matching (s.pending + 1)
      if found then expects c else return 0
    else expects c

/-- `send` on the control connection: whether it returns more than 0. -/
def send (srv : Server) (line : Bytes) : Run Bool := do
  let s ← get
  match srv s.trace line with
  | none => do
    emit (.command line false)
    return false
  | some answer => do
    modify fun s => { s with wire := s.wire ++ answer }
    emit (.command line true)
    return true

/-- `FtpSendCmd`; `sprintf` writes into 512 bytes. -/
def ftpSendCmd (srv : Server) (cmd expectedResp : Bytes) : Run Int := do
  let s ← get
  if s.h.handle = false then return 0
  else if s.h.dir ≠ .control then return 0
  else
    let buf := cStr cmd ++ crlf
    if 512 ≤ buf.length then failure
    else
      let sent ← send srv buf
      if sent then readResponse expectedResp else return 0

/-- `struct ftphandle` as a data handle; `ctrl` tells a pointer from `NULL`. -/
structure DataHandle where
  dir : Direction
  ctrl : Bool
  xfered : Int := 0
  xfered1 : Int := 0
  transfer : TransferState
  deriving DecidableEq, Repr

/-- The callback fields of a new data handle. -/
def inherited (t : TransferState) : TransferState :=
  { t with xfercb := if t.cbbytes ≠ 0 then t.xfercb else none }

def isSpace (b : UInt8) : Bool := b = 32 || (9 ≤ b && b ≤ 13)
def isDigit (b : UInt8) : Bool := 48 ≤ b && b ≤ 57

/-- `%u` of `sscanf`: the number and the text behind it; `none` where there is
no number, or none that an `unsigned` can hold. -/
def scanUnsigned (text : Bytes) : Option (Nat × Bytes) :=
  let text := text.dropWhile isSpace
  let negative := text.head? = some 45
  let text := if text.head? = some 45 ∨ text.head? = some 43 then text.tail else text
  let n := (text.takeWhile isDigit).foldl (fun n b => 10 * n + (b.toNat - 48)) 0
  if text.takeWhile isDigit = [] ∨ 2 ^ 32 ≤ n then none
  else some (if negative then (2 ^ 32 - n) % 2 ^ 32 else n, text.dropWhile isDigit)

/-- `k` numbers with commas between them. -/
def scanNumbers : Nat → Bytes → Option (List Nat)
  | 0, _ => some []
  | 1, text => (scanUnsigned text).map fun r => [r.1]
  | k + 2, text =>
    match scanUnsigned text with
    | some (n, 44 :: rest) => (scanNumbers (k + 1) rest).map (n :: ·)
    | _ => none

/-- `CorrectPasvResponse`: the address of the peer in place of the first four
numbers. -/
def correctPasvResponse (w : World) (v : Bytes) : Run (Option Bytes) :=
  match w.peer with
  | none => do
    emit .closeControl
    return none
  | some address => return some (address.take 4 ++ v.drop 4)

/-- The end of `FtpOpenPasv`, from `connect` on. -/
def ftpDial (w : World) (address : Bytes) : Run (Int × Option DataHandle) := do
  emit (.dial address w.connects)
  if w.connects = false then return (-1, none)
  else
    let ok ← readResponse (bytes "1")
    if ok = 0 then return (-1, none)
    else if w.allocates = false then return (-1, none)
    else
      let s ← get
      return (1, some { dir := .read, ctrl := true, transfer := inherited s.h.transfer })

/-- The part of `FtpOpenPasv` from `socket` on. -/
def ftpOpenData (w : World) (srv : Server) (cmd address : Bytes) :
    Run (Int × Option DataHandle) := do
  if w.socketOpens = false then return (-1, none)
  else if w.optionsSet = false then return (-1, none)
  else
    let s ← get
    if s.h.dir ≠ .control then return (-1, none)
    else
      let sent ← send srv (cmd ++ crlf)
      if sent then ftpDial w address else return (-1, none)

/-- The `REST` command of `FtpOpenPasv`. -/
def ftpRest (srv : Server) : Run Int := do
  let s ← get
  if s.h.offset ≠ 0 then ftpSendCmd srv (bytes "REST " ++ toDecimal s.h.offset) (bytes "3")
  else return 1

/-- The address in a reply to `PASV`: -1 without a parenthesis, and undefined
where fewer than six numbers follow it. -/
def pasvAddress (w : World) : Run (Option Bytes) := do
  let s ← get
  match (cStr s.h.response).dropWhile (· ≠ 40) with
  | [] => return none
  | _ :: cp =>
    match scanNumbers 6 cp with
    | none => failure
    | some v =>
      let address := v.map UInt8.ofNat
      if s.h.correctpasv then correctPasvResponse w address else return some address

/-- `FtpOpenPasv` with `FTP_CLIENT_READ` and `image`.  A refused `REST` returns
0 and leaves `nData` unset. -/
def ftpOpenPasv (w : World) (srv : Server) (cmd : Bytes) : Run (Int × Option DataHandle) := do
  let s ← get
  if s.h.dir ≠ .control then return (-1, none)
  else
    let ok ← ftpSendCmd srv (bytes "PASV") (bytes "2")
    if ok = 0 then return (-1, none)
    else
      let address ← pasvAddress w
      match address with
      | none => return (-1, none)
      | some address =>
        let rest ← ftpRest srv
        if rest = 0 then return (0, none)
        else ftpOpenData w srv cmd address

/-- `enum accesstype`, as far as downloads use it. -/
inductive AccessType
  | fileread | filereadappend
  deriving DecidableEq, Repr

/-- `FtpAccess` for a download. -/
def ftpAccess (w : World) (srv : Server) (path : Bytes) : Run (Int × Option DataHandle) := do
  if path = [] then do
    modifyHandle (·.setResponse (bytes "Missing path argument for file transfer\n"))
    return (0, none)
  else
    let ok ← ftpSendCmd srv (bytes "TYPE I") (bytes "2")
    if ok = 0 then return (0, none)
    else if 512 ≤ path.length + 5 then return (0, none)
    else
      let r ← ftpOpenPasv w srv (bytes "RETR " ++ cStr path)
      if r.1 = -1 then return (0, none) else return (1, r.2)

/-- `FtpRead` of up to `max` bytes, where `recv` returns `r`. -/
def ftpRead (w : World) (max : Nat) (r : Recv) (d : DataHandle) : Run (Int × DataHandle) :=
  if d.dir ≠ .read then return (0, d)
  else
    match r with
    | .error => return (0, d)
    | .data b =>
      if max < b.length then failure
      else
        let d := { d with xfered := d.xfered + b.length }
        match d.transfer.xfercb with
        | none => return (b.length, d)
        | some xfercb =>
          if d.transfer.cbbytes = 0 then return (b.length, d)
          else
            let d := { d with xfered1 := d.xfered1 + b.length }
            if d.xfered1 < d.transfer.cbbytes then return (b.length, d)
            else do
              let s ← get
              let result := w.callback s.trace xfercb d.xfered d.transfer.cbarg
              emit (.progress xfercb d.xfered d.transfer.cbarg result)
              if result = 0 then return (0, d) else return (b.length, { d with xfered1 := 0 })

def Recv.bytes : Recv → Bytes
  | .error => []
  | .data b => b

def ftpClose (d : DataHandle) : Run Int :=
  if d.dir = .control then return 0
  else if d.ctrl then readResponse (bytes "2")
  else return 1

/-- `fopen`; without a name the data goes to `stdout`. -/
def openLocal (w : World) (localfile : Bytes) (type : AccessType) : Run Bool := do
  if localfile = [] then return true
  else do
    emit (.openFile (cStr localfile) (type = .filereadappend) w.disk.opens)
    if w.disk.opens then return true
    else do
      modifyHandle fun h => { h with response := strncpy w.openError responseSize }
      return false

def closeLocal (localfile : Bytes) : Run Unit :=
  if localfile = [] then return () else emit .closeFile

/-- The read loop of `FtpXfer`; `k` counts the writes. -/
def ftpXferLoop (w : World) : List Recv → Nat → DataHandle → Run DataHandle
  | [], _, d => do
    let r ← ftpRead w ftpClientBufsiz (.data []) d
    return r.2
  | r :: incoming, k, d => do
    let (l, d) ← ftpRead w ftpClientBufsiz r d
    if l ≤ 0 then return d
    else do
      emit (.write (w.disk.store k r.bytes) (w.disk.reported k r.bytes.length))
      if w.disk.reported k r.bytes.length = 0 then return d
      else ftpXferLoop w incoming (k + 1) d

/-- `FtpXfer` for a download. -/
def ftpXfer (w : World) (srv : Server) (localfile path : Bytes) (type : AccessType) :
    Run Int := do
  let opened ← openLocal w localfile type
  if opened = false then return 0
  else
    let (ok, nData) ← ftpAccess w srv path
    if ok = 0 then do
      closeLocal localfile
      return 0
    else
      match nData with
      | none => failure
      | some d => do
        let d ← ftpXferLoop w w.incoming 0 d
        closeLocal localfile
        ftpClose d

def setOffset (offset : UInt64) : Run Unit :=
  modifyHandle fun h => { h with offset := offset.toInt64.toInt }

def get (w : World) (srv : Server) (outputfile path : Bytes) (offset : UInt64) : Run Int := do
  setOffset offset
  ftpXfer w srv outputfile path (if offset = 0 then .fileread else .filereadappend)

/-- The loop of `GetRange` with a sink: what remains, whether the sink took
everything, and the data handle. -/
def getRangeLoop (w : World) : List Recv → Nat → DataHandle → Run (Nat × Bool × DataHandle)
  | [], remaining, d =>
    if remaining = 0 then return (remaining, true, d)
    else do
      let r ← ftpRead w (min ftpClientBufsiz remaining) (.data []) d
      return (remaining, true, r.2)
  | r :: incoming, remaining, d =>
    if remaining = 0 then return (remaining, true, d)
    else do
      let (count, d) ← ftpRead w (min ftpClientBufsiz remaining) r d
      if count ≤ 0 then return (remaining, true, d)
      else
        let s ← MonadState.get
        let taken := w.sink s.trace r.bytes
        emit (.sink r.bytes taken)
        if taken = false then return (remaining - r.bytes.length, false, d)
        else getRangeLoop w incoming (remaining - r.bytes.length) d

/-- `GetRange` with a sink. -/
def getRange (w : World) (srv : Server) (path : Bytes) (size offset : UInt64) : Run Int := do
  setOffset offset
  let (ok, nData) ← ftpAccess w srv path
  if ok = 0 then return 0
  else
    match nData with
    | none => failure
    | some d =>
      if w.allocatesBuffer = false then do
        let _ ← ftpClose d
        setOffset 0
        modifyHandle (·.setResponse (bytes "Failed to allocate 1048576 bytes"))
        return 0
      else do
        let (remaining, taken, d) ← getRangeLoop w w.incoming size.toNat d
        let completed ← ftpClose d
        setOffset 0
        if taken = false then return 0
        else if 0 < remaining then do
          modifyHandle (·.setResponse (bytes "Unexpected end of file at offset " ++
            toDecimal (offset + (size - UInt64.ofNat remaining)).toNat))
          return 0
        else if completed = 0 then do
          modifyHandle (·.setResponse (bytes "FTP transfer did not complete"))
          return 0
        else return 1

/-- The loop of `GetRange` with a buffer. -/
def getRangeBufferLoop (w : World) : List Recv → Nat → DataHandle → Run DataHandle
  | [], _, d => do
    let r ← ftpRead w 8192 (.data []) d
    return r.2
  | r :: incoming, remaining, d => do
    let (l, d) ← ftpRead w 8192 r d
    if l ≤ 0 then return d
    else if r.bytes.length ≤ remaining then do
      emit (.copied r.bytes)
      getRangeBufferLoop w incoming (remaining - r.bytes.length) d
    else do
      emit (.copied (r.bytes.take remaining))
      return d

/-- `GetRange` with a buffer. -/
def getRangeBuffer (w : World) (srv : Server) (path : Bytes) (size offset : UInt64) :
    Run Int := do
  setOffset offset
  let (ok, nData) ← ftpAccess w srv path
  if ok = 0 then return 0
  else
    match nData with
    | none => failure
    | some d => do
      let d ← getRangeBufferLoop w w.incoming size.toNat d
      let _ ← ftpClose d
      setOffset 0
      return 1

def quit (srv : Server) : Run Int := do
  let s ← MonadState.get
  if s.h.handle = false then do
    modifyHandle (·.setResponse (bytes "error: no anwser from server\n"))
    return 0
  else do
    let _ ← ftpSendCmd srv (bytes "QUIT") (bytes "2")
    modifyHandle fun h => { h with handle := false, isConnected := false }
    return 1

/-- A client as its constructor leaves it. -/
def ftpClient : FtpHandle := {}

/-- `Connect` from the first reply on: the host is resolved and the connection
is made. -/
def connect (srv : Server) (user pass : Bytes) : Run Int := do
  modifyHandle fun h =>
    { h with
      dir := .control, offset := 0, response := List.replicate responseSize 0, handle := true }
  let greeted ← readResponse (bytes "2")
  if greeted = 0 then do
    modifyHandle fun h => { h with handle := false }
    return 0
  else
    let named ← ftpSendCmd srv
      (if 0 < user.length then bytes "USER " ++ user else bytes "USER anonymous") (bytes "3")
    if named = 0 then do
      let s ← MonadState.get
      if s.h.response.headD 0 = 50 then do
        modifyHandle fun h => { h with isConnected := true }
        return 1
      else do
        let _ ← quit srv
        modifyHandle (·.setResponse (bytes "Failed login"))
        return 0
    else
      let ret ← ftpSendCmd srv (bytes "PASS " ++ pass) (bytes "2")
      if ret ≠ 0 then do
        modifyHandle fun h => { h with isConnected := true }
        return ret
      else do
        let _ ← quit srv
        modifyHandle (·.setResponse (bytes "Failed login"))
        return ret

/-- The setters of the callback. -/
inductive Setting
  | setCallbackXferFunction (pointer : Option Nat)
  | setCallbackArg (arg : Option Nat)
  | setCallbackBytes (bytes : Int)
  deriving DecidableEq, Repr

def Setting.apply : Setting → TransferState → TransferState
  | .setCallbackXferFunction pointer, t => { t with xfercb := pointer }
  | .setCallbackArg arg, t => { t with cbarg := arg }
  | .setCallbackBytes bytes, t => { t with cbbytes := bytes }

def FtpHandle.resetTransferState (h : FtpHandle) : FtpHandle := { h with transfer := {} }

/-- A download call of `FtpClient`. -/
inductive Op
  | get (outputfile path : Bytes) (offset : UInt64)
  | getRange (path : Bytes) (size offset : UInt64)
  | getRangeBuffer (path : Bytes) (size offset : UInt64)
  deriving DecidableEq, Repr

def Op.path : Op → Bytes
  | .get _ path _ | .getRange path _ _ | .getRangeBuffer path _ _ => path

def Op.run (w : World) (srv : Server) : Op → Run Int
  | .get outputfile path offset => Ftp.get w srv outputfile path offset
  | .getRange path size offset => Ftp.getRange w srv path size offset
  | .getRangeBuffer path size offset => Ftp.getRangeBuffer w srv path size offset

/-- A call with the setters before it; the events are those of this call. -/
def call (w : World) (srv : Server) (settings : List Setting) (op : Op) : Run Int := do
  modify fun s =>
    { s with
      h := { s.h with transfer := settings.foldl (fun t x => x.apply t) s.h.transfer }
      trace := [] }
  op.run w srv

end EzRemote.Ftp

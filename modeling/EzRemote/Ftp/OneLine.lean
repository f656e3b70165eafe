import EzRemote.Lib.Logged
import EzRemote.Ftp.Access

/-!
# Command lines

What `FtpSendCmd` formats and what `send` is given on the control connection
during `Connect`, `Get` and `GetRange`, also where the buffer is too short for
it.
-/

namespace EzRemote.Ftp

open Logged (lift record)

/-- A text for the control connection, and the size of the buffer that it is
formatted in. -/
structure Call where
  text : Bytes
  buffer : Option Nat
  deriving DecidableEq, Repr

abbrev Attempt := Logged Call Session

namespace Calls

def ftpSendCmd (srv : Server) (cmd expectedResp : Bytes) : Attempt Int := do
  let s ← lift MonadState.get
  if s.h.handle = true ∧ s.h.dir = .control then do
    record ⟨cStr cmd ++ crlf, some 512⟩
    lift (Ftp.ftpSendCmd srv cmd expectedResp)
  else return 0

def send (srv : Server) (line : Bytes) : Attempt Bool := do
  record ⟨line, none⟩
  lift (Ftp.send srv line)

def quit (srv : Server) : Attempt Int := do
  let s ← lift MonadState.get
  if s.h.handle = false then do
    lift (modifyHandle (·.setResponse (bytes "error: no anwser from server\n")))
    return 0
  else do
    let _ ← ftpSendCmd srv (bytes "QUIT") (bytes "2")
    lift (modifyHandle fun h => { h with handle := false, isConnected := false })
    return 1

/-- The argument of `USER`. -/
def userCmd (user : Bytes) : Bytes :=
  if 0 < user.length then bytes "USER " ++ user else bytes "USER anonymous"

def connect (srv : Server) (user pass : Bytes) : Attempt Int := do
  lift (modifyHandle fun h =>
    { h with
      dir := .control, offset := 0, response := List.replicate responseSize 0, handle := true })
  let greeted ← lift (readResponse (bytes "2"))
  if greeted = 0 then do
    lift (modifyHandle fun h => { h with handle := false })
    return 0
  else
    let named ← ftpSendCmd srv (userCmd user) (bytes "3")
    if named = 0 then do
      let s ← lift MonadState.get
      if s.h.response.headD 0 = 50 then do
        lift (modifyHandle fun h => { h with isConnected := true })
        return 1
      else do
        let _ ← quit srv
        lift (modifyHandle (·.setResponse (bytes "Failed login")))
        return 0
    else
      let ret ← ftpSendCmd srv (bytes "PASS " ++ pass) (bytes "2")
      if ret ≠ 0 then do
        lift (modifyHandle fun h => { h with isConnected := true })
        return ret
      else do
        let _ ← quit srv
        lift (modifyHandle (·.setResponse (bytes "Failed login")))
        return ret

def ftpOpenData (w : World) (srv : Server) (cmd address : Bytes) :
    Attempt (Int × Option DataHandle) := do
  if w.socketOpens = false then return (-1, none)
  else if w.optionsSet = false then return (-1, none)
  else
    let s ← lift MonadState.get
    if s.h.dir ≠ .control then return (-1, none)
    else
      let sent ← send srv (cmd ++ crlf)
      if sent then lift (ftpDial w address) else return (-1, none)

def ftpRest (srv : Server) : Attempt Int := do
  let s ← lift MonadState.get
  if s.h.offset ≠ 0 then ftpSendCmd srv (bytes "REST " ++ toDecimal s.h.offset) (bytes "3")
  else return 1

def ftpOpenAt (w : World) (srv : Server) (cmd : Bytes) :
    Option Bytes → Attempt (Int × Option DataHandle)
  | none => return (-1, none)
  | some address => do
    let rest ← ftpRest srv
    if rest = 0 then return (0, none) else ftpOpenData w srv cmd address

def ftpOpenPasv (w : World) (srv : Server) (cmd : Bytes) : Attempt (Int × Option DataHandle) := do
  let s ← lift MonadState.get
  if s.h.dir ≠ .control then return (-1, none)
  else
    let ok ← ftpSendCmd srv (bytes "PASV") (bytes "2")
    if ok = 0 then return (-1, none)
    else
      let address ← lift (pasvAddress w)
      ftpOpenAt w srv cmd address

def ftpAccess (w : World) (srv : Server) (path : Bytes) : Attempt (Int × Option DataHandle) := do
  if path = [] then do
    lift (modifyHandle (·.setResponse (bytes "Missing path argument for file transfer\n")))
    return (0, none)
  else
    let ok ← ftpSendCmd srv (bytes "TYPE I") (bytes "2")
    if ok = 0 then return (0, none)
    else if 512 ≤ path.length + 5 then return (0, none)
    else
      let r ← ftpOpenPasv w srv (bytes "RETR " ++ cStr path)
      if r.1 = -1 then return (0, none) else return (1, r.2)

def ftpXfer (w : World) (srv : Server) (localfile path : Bytes) (type : AccessType) :
    Attempt Int := do
  let opened ← lift (openLocal w localfile type)
  if opened = false then return 0
  else
    let (ok, nData) ← ftpAccess w srv path
    if ok = 0 then do
      lift (closeLocal localfile)
      return 0
    else
      match nData with
      | none => lift failure
      | some d => lift do
        let d ← ftpXferLoop w w.incoming 0 d
        closeLocal localfile
        ftpClose d

def get (w : World) (srv : Server) (outputfile path : Bytes) (offset : UInt64) : Attempt Int := do
  lift (setOffset offset)
  ftpXfer w srv outputfile path (if offset = 0 then .fileread else .filereadappend)

def getRange (w : World) (srv : Server) (path : Bytes) (size offset : UInt64) : Attempt Int := do
  lift (setOffset offset)
  let (ok, nData) ← ftpAccess w srv path
  if ok = 0 then return 0
  else
    match nData with
    | none => lift failure
    | some d => lift do
      if w.allocatesBuffer = false then do
        let _ ← ftpClose d
        setOffset 0
        modifyHandle (·.setResponse (bytes "Failed to allocate 1048576 bytes"))
        return 0
      else do
        let (remaining, taken, d) ← getRangeLoop w w.incoming size.toNat d
        let completed ← ftpClose d
        setOffset 0
        if taken = false then return 0
        else if 0 < remaining then do
          modifyHandle (·.setResponse (bytes "Unexpected end of file at offset " ++
            toDecimal (offset + (size - UInt64.ofNat remaining)).toNat))
          return 0
        else if completed = 0 then do
          modifyHandle (·.setResponse (bytes "FTP transfer did not complete"))
          return 0
        else return 1

def getRangeBuffer (w : World) (srv : Server) (path : Bytes) (size offset : UInt64) :
    Attempt Int := do
  lift (setOffset offset)
  let (ok, nData) ← ftpAccess w srv path
  if ok = 0 then return 0
  else
    match nData with
    | none => lift failure
    | some d => lift do
      let d ← getRangeBufferLoop w w.incoming size.toNat d
      let _ ← ftpClose d
      setOffset 0
      return 1

def run (w : World) (srv : Server) : Op → Attempt Int
  | .get outputfile path offset => get w srv outputfile path offset
  | .getRange path size offset => getRange w srv path size offset
  | .getRangeBuffer path size offset => getRangeBuffer w srv path size offset

theorem ftpSendCmd_erase (srv : Server) (cmd expectedResp : Bytes) :
    (ftpSendCmd srv cmd expectedResp).erase = Ftp.ftpSendCmd srv cmd expectedResp := by
  funext s
  unfold ftpSendCmd
  rw [Logged.erase_bind, Logged.erase_lift, get_bind_eq, Logged.erase_ite]
  by_cases h : s.h.handle = true ∧ s.h.dir = .control
  · rw [if_pos h]
    rfl
  · rw [if_neg h]
    unfold Ftp.ftpSendCmd
    rw [get_bind_eq]
    by_cases hh : s.h.handle = false
    · rw [if_pos hh]
      rfl
    · rw [if_neg hh, if_pos]
      · rfl
      · exact fun hd => h ⟨eq_true_of_ne_false hh, hd⟩

theorem send_erase (srv : Server) (line : Bytes) : (send srv line).erase = Ftp.send srv line := rfl

theorem quit_erase (srv : Server) : (quit srv).erase = Ftp.quit srv := by
  unfold quit Ftp.quit
  simp only [Logged.erase_bind, Logged.erase_ite, Logged.erase_lift, Logged.erase_pure,
    ftpSendCmd_erase]

theorem connect_erase (srv : Server) (user pass : Bytes) :
    (connect srv user pass).erase = Ftp.connect srv user pass := by
  unfold connect Ftp.connect userCmd
  simp only [Logged.erase_bind, Logged.erase_ite, Logged.erase_lift, Logged.erase_pure,
    ftpSendCmd_erase, quit_erase]

theorem ftpOpenData_erase (w : World) (srv : Server) (cmd address : Bytes) :
    (ftpOpenData w srv cmd address).erase = Ftp.ftpOpenData w srv cmd address := by
  unfold ftpOpenData Ftp.ftpOpenData
  simp only [Logged.erase_bind, Logged.erase_ite, Logged.erase_lift, Logged.erase_pure, send_erase]

theorem ftpRest_erase (srv : Server) : (ftpRest srv).erase = Ftp.ftpRest srv := by
  unfold ftpRest Ftp.ftpRest
  simp only [Logged.erase_bind, Logged.erase_ite, Logged.erase_lift, Logged.erase_pure,
    ftpSendCmd_erase]

theorem ftpOpenAt_erase (w : World) (srv : Server) (cmd : Bytes) (address : Option Bytes) :
    (ftpOpenAt w srv cmd address).erase = Ftp.ftpOpenAt w srv cmd address := by
  cases address with
  | none => rfl
  | some address =>
    unfold ftpOpenAt Ftp.ftpOpenAt
    simp only [Logged.erase_bind, Logged.erase_ite, Logged.erase_pure, ftpRest_erase,
      ftpOpenData_erase]

theorem ftpOpenPasv_erase (w : World) (srv : Server) (cmd : Bytes) :
    (ftpOpenPasv w srv cmd).erase = Ftp.ftpOpenPasv w srv cmd := by
  unfold ftpOpenPasv Ftp.ftpOpenPasv
  simp only [Logged.erase_bind, Logged.erase_ite, Logged.erase_lift, Logged.erase_pure,
    ftpSendCmd_erase, ftpOpenAt_erase]
  rfl

theorem ftpAccess_erase (w : World) (srv : Server) (path : Bytes) :
    (ftpAccess w srv path).erase = Ftp.ftpAccess w srv path := by
  unfold ftpAccess Ftp.ftpAccess
  simp only [Logged.erase_bind, Logged.erase_ite, Logged.erase_lift, Logged.erase_pure,
    ftpSendCmd_erase, ftpOpenPasv_erase]

/-- Behind `FtpAccess` nothing is sent. -/
theorem ftpXfer_erase (w : World) (srv : Server) (localfile path : Bytes) (type : AccessType) :
    (ftpXfer w srv localfile path type).erase = Ftp.ftpXfer w srv localfile path type := by
  unfold ftpXfer Ftp.ftpXfer
  simp only [Logged.erase_bind, Logged.erase_ite, Logged.erase_lift, Logged.erase_pure,
    ftpAccess_erase]
  congr 1
  funext opened
  congr 2
  funext r
  obtain ⟨ok, nData⟩ := r
  dsimp only
  congr 1
  cases nData with
  | none => rfl
  | some d => rfl

theorem getRange_erase (w : World) (srv : Server) (path : Bytes) (size offset : UInt64) :
    (getRange w srv path size offset).erase = Ftp.getRange w srv path size offset := by
  unfold getRange Ftp.getRange
  simp only [Logged.erase_bind, Logged.erase_lift, ftpAccess_erase]
  congr 1
  funext _
  congr 1
  funext r
  obtain ⟨ok, nData⟩ := r
  dsimp only
  rw [Logged.erase_ite]
  congr 1
  cases nData with
  | none => rfl
  | some d => rfl

theorem getRangeBuffer_erase (w : World) (srv : Server) (path : Bytes) (size offset : UInt64) :
    (getRangeBuffer w srv path size offset).erase = Ftp.getRangeBuffer w srv path size offset := by
  unfold getRangeBuffer Ftp.getRangeBuffer
  simp only [Logged.erase_bind, Logged.erase_lift, ftpAccess_erase]
  congr 1
  funext _
  congr 1
  funext r
  obtain ⟨ok, nData⟩ := r
  dsimp only
  rw [Logged.erase_ite]
  congr 1
  cases nData with
  | none => rfl
  | some d => rfl

theorem run_erase (w : World) (srv : Server) (op : Op) : (run w srv op).erase = op.run w srv := by
  cases op with
  | get outputfile path offset =>
    show (get w srv outputfile path offset).erase = Ftp.get w srv outputfile path offset
    unfold get Ftp.get
    rw [Logged.erase_bind, Logged.erase_lift]
    congr 1
    funext _
    exact ftpXfer_erase w srv outputfile path _
  | getRange path size offset => exact getRange_erase w srv path size offset
  | getRangeBuffer path size offset => exact getRangeBuffer_erase w srv path size offset

end Calls

/-- A line of its own, which fits its buffer with the NUL. -/
structure Call.Sound (c : Call) : Prop where
  line : ∃ cmd, c.text = cmd ++ crlf ∧ cr ∉ cmd ∧ lf ∉ cmd
  fits : ∀ size ∈ c.buffer, c.text.length + 1 ≤ size

/-- The calls that a login asks for. -/
def loginCalls (user pass : Bytes) : List Call :=
  [⟨cStr (Calls.userCmd user) ++ crlf, some 512⟩, ⟨cStr (bytes "PASS " ++ pass) ++ crlf, some 512⟩]

/-- The one that a download asks for. -/
def transferCall (path : Bytes) : Call := ⟨bytes "RETR " ++ cStr path ++ crlf, none⟩

/-- It returns 0 and sends nothing. -/
def Declines (m : Attempt Int) (s : Session) : Prop :=
  m.log s = [] ∧ ∃ s', m.erase s = some (0, s')

/-- What is sent for a user, a password and a path: one bounded line a call, or
nothing at all. -/
structure OneLineEach (user pass path : Bytes) : Prop where
  connect : ∀ srv s, ∀ c ∈ (Calls.connect srv user pass).log s, c.Sound
  download : ∀ w srv op, Op.path op = path → ∀ s, ∀ c ∈ (Calls.run w srv op).log s, c.Sound
  noLogin : (¬ ∀ c ∈ loginCalls user pass, c.Sound) →
    ∀ srv s, Declines (Calls.connect srv user pass) s
  noDownload : ¬ (transferCall path).Sound →
    ∀ w srv op, Op.path op = path → ∀ s, Declines (Calls.run w srv op) s

/-- No line end in any of them, and at most 504 bytes for user and password. -/
structure Plain (user pass path : Bytes) : Prop where
  user : cr ∉ cStr user ∧ lf ∉ cStr user ∧ (cStr user).length ≤ 504
  pass : cr ∉ cStr pass ∧ lf ∉ cStr pass ∧ (cStr pass).length ≤ 504
  path : cr ∉ cStr path ∧ lf ∉ cStr path

theorem Call.sound_iff {cmd : Bytes} {buffer : Option Nat} :
    (Call.mk (cmd ++ crlf) buffer).Sound ↔
      cr ∉ cmd ∧ lf ∉ cmd ∧ ∀ size ∈ buffer, cmd.length + 3 ≤ size := by
  have hlen : (cmd ++ crlf).length + 1 = cmd.length + 3 := by
    rw [List.length_append]
    rfl
  constructor
  · rintro ⟨⟨cmd', heq, hcr, hlf⟩, hfits⟩
    rw [← List.append_cancel_right heq] at hcr hlf
    exact ⟨hcr, hlf, fun size hs => hlen ▸ hfits size hs⟩
  · rintro ⟨hcr, hlf, hfits⟩
    exact ⟨⟨cmd, rfl, hcr, hlf⟩, fun size hs => hlen ▸ hfits size hs⟩

theorem cStr_append_of_notMem {a : Bytes} (b : Bytes) (h : 0 ∉ a) : cStr (a ++ b) = a ++ cStr b :=
  List.takeWhile_append_of_pos fun _ hx => decide_eq_true fun h0 => h (h0 ▸ hx)

theorem argument_sound_iff {keyword arg : Bytes} (hzero : 0 ∉ keyword) (hcr : cr ∉ keyword)
    (hlf : lf ∉ keyword) (hlen : keyword.length = 5) :
    (Call.mk (cStr (keyword ++ arg) ++ crlf) (some 512)).Sound ↔
      cr ∉ cStr arg ∧ lf ∉ cStr arg ∧ (cStr arg).length ≤ 504 := by
  rw [cStr_append_of_notMem arg hzero, Call.sound_iff]
  simp only [List.mem_append, not_or, Option.mem_def, Option.some.injEq, forall_eq',
    List.length_append, hlen]
  constructor
  · rintro ⟨⟨-, h₁⟩, ⟨-, h₂⟩, h₃⟩
    exact ⟨h₁, h₂, by omega⟩
  · rintro ⟨h₁, h₂, h₃⟩
    exact ⟨⟨hcr, h₁⟩, ⟨hlf, h₂⟩, by omega⟩

theorem user_sound_iff (user : Bytes) :
    (Call.mk (cStr (Calls.userCmd user) ++ crlf) (some 512)).Sound ↔
      cr ∉ cStr user ∧ lf ∉ cStr user ∧ (cStr user).length ≤ 504 := by
  unfold Calls.userCmd
  by_cases h : 0 < user.length
  · rw [if_pos h]
    exact argument_sound_iff (by decide) (by decide) (by decide) (by decide)
  · have hnil : user = [] := List.eq_nil_of_length_eq_zero (by omega)
    rw [if_neg h, hnil]
    exact iff_of_true (Call.sound_iff.mpr (by decide)) (by decide)

theorem plain_iff (user pass path : Bytes) : Plain user pass path ↔
    (∀ c ∈ loginCalls user pass, c.Sound) ∧ (transferCall path).Sound := by
  have hpath : (transferCall path).Sound ↔ cr ∉ cStr path ∧ lf ∉ cStr path := by
    rw [transferCall, Call.sound_iff]
    simp only [List.mem_append, not_or]
    constructor
    · rintro ⟨⟨-, h₁⟩, ⟨-, h₂⟩, -⟩
      exact ⟨h₁, h₂⟩
    · rintro ⟨h₁, h₂⟩
      exact ⟨⟨by decide, h₁⟩, ⟨by decide, h₂⟩, fun size hs => by cases hs⟩
  rw [hpath, loginCalls, List.forall_mem_cons, List.forall_mem_singleton, user_sound_iff,
    argument_sound_iff (by decide) (by decide) (by decide) (by decide)]
  exact ⟨fun ⟨h₁, h₂, h₃⟩ => ⟨⟨h₁, h₂⟩, h₃⟩, fun ⟨⟨h₁, h₂⟩, h₃⟩ => ⟨h₁, h₂, h₃⟩⟩

namespace Calls

open Logged (Records)

section Records

variable {I : Session → Prop}

theorem ftpSendCmd_records {srv : Server} {cmd expectedResp : Bytes}
    (hI : Keeps I (Ftp.ftpSendCmd srv cmd expectedResp))
    (hc : (Call.mk (cStr cmd ++ crlf) (some 512)).Sound) :
    Records I Call.Sound (ftpSendCmd srv cmd expectedResp) I := by
  apply Records.get_bind
  intro s _
  refine Records.ite ?_ (.pure _ fun _ h => h)
  exact (Records.record hc).bind fun _ => .lift hI

theorem lift_records {α : Type} (m : Run α) :
    Records (fun _ => True) Call.Sound (lift m) fun _ => True :=
  .lift fun _ _ _ _ _ => trivial

theorem sendCmd_records {srv : Server} {cmd expectedResp : Bytes}
    (hc : (Call.mk (cStr cmd ++ crlf) (some 512)).Sound) :
    Records (fun _ => True) Call.Sound (ftpSendCmd srv cmd expectedResp) fun _ => True :=
  ftpSendCmd_records (fun _ _ _ _ _ => trivial) hc

theorem quit_records (srv : Server) :
    Records (fun _ => True) Call.Sound (quit srv) fun _ => True := by
  apply Records.get_bind
  intro s _
  refine Records.ite ((lift_records _).bind fun _ => .pure _ fun _ h => h) ?_
  apply (sendCmd_records (Call.sound_iff.mpr (by decide))).bind
  intro _
  exact (lift_records _).bind fun _ => .pure _ fun _ h => h

theorem connect_records (srv : Server) {user pass : Bytes}
    (hlogin : ∀ c ∈ loginCalls user pass, c.Sound) :
    Records (fun _ => True) Call.Sound (connect srv user pass) fun _ => True := by
  have hreturn : ∀ x : Int, Records (fun _ => True) Call.Sound
      (pure x : Attempt Int) fun _ => True := fun x => .pure x fun _ h => h
  obtain ⟨huser, hpass, -⟩ := List.forall_mem_cons.mp hlogin |>.imp_right List.forall_mem_cons.mp
  apply (lift_records _).bind
  intro _
  apply (lift_records _).bind
  intro greeted
  refine Records.ite ((lift_records _).bind fun _ => hreturn 0) ?_
  apply (sendCmd_records huser).bind
  intro named
  refine Records.ite ?_ ?_
  · apply Records.get_bind
    intro s _
    refine Records.ite ((lift_records _).bind fun _ => hreturn 1) ?_
    exact (quit_records srv).bind fun _ => (lift_records _).bind fun _ => hreturn 0
  · apply (sendCmd_records hpass).bind
    intro ret
    refine Records.ite ((lift_records _).bind fun _ => hreturn ret) ?_
    exact (quit_records srv).bind fun _ => (lift_records _).bind fun _ => hreturn ret

/-- `offset` is a 64 bit number. -/
def InRange (s : Session) : Prop := s.h.offset.natAbs ≤ 9223372036854775808

theorem inRange_framed : Framed InRange :=
  framed_of_kept (P := fun h => h.offset.natAbs ≤ 9223372036854775808) fun _ _ hkept h =>
    congrArg FtpHandle.offset hkept ▸ h

theorem rest_sound {offset : Int} (h : offset.natAbs ≤ 9223372036854775808) :
    (Call.mk (cStr (bytes "REST " ++ toDecimal offset) ++ crlf) (some 512)).Sound := by
  rw [argument_sound_iff (by decide) (by decide) (by decide) (by decide)]
  have hchar : ∀ b : UInt8, b.toNat < 45 → b ∉ cStr (toDecimal offset) := by
    intro b hb hm
    have := (mem_toDecimal (List.takeWhile_subset _ hm)).1
    omega
  refine ⟨hchar cr (by decide), hchar lf (by decide), ?_⟩
  exact ((List.takeWhile_sublist _).length_le.trans (length_toDecimal_le h)).trans (by decide)

theorem ftpRest_records (srv : Server) : Records InRange Call.Sound (ftpRest srv) InRange := by
  apply Records.get_bind
  intro s hs
  refine Records.ite ?_ (.pure _ fun _ h => h)
  exact ftpSendCmd_records (inRange_framed.ftpSendCmd_keeps srv _ _) (rest_sound hs)

variable {path : Bytes} (hpath : (transferCall path).Sound)
include hpath

theorem ftpOpenData_records (w : World) (srv : Server) (address : Bytes) :
    Records InRange Call.Sound (ftpOpenData w srv (bytes "RETR " ++ cStr path) address) InRange := by
  have hreturn : Records InRange Call.Sound
      (pure (-1, none) : Attempt (Int × Option DataHandle)) InRange := .pure _ fun _ h => h
  refine Records.ite hreturn (Records.ite hreturn ?_)
  apply Records.get_bind
  intro s _
  refine Records.ite hreturn ?_
  apply Records.bind ((Records.record hpath).bind fun _ => .lift (inRange_framed.send_keeps srv _))
  intro sent
  exact Records.ite (.lift (inRange_framed.ftpDial_keeps w address)) hreturn

theorem ftpOpenPasv_records (w : World) (srv : Server) :
    Records InRange Call.Sound (ftpOpenPasv w srv (bytes "RETR " ++ cStr path)) InRange := by
  apply Records.get_bind
  intro s _
  refine Records.ite (.pure _ fun _ h => h) ?_
  apply (ftpSendCmd_records (inRange_framed.ftpSendCmd_keeps srv _ _)
    (Call.sound_iff.mpr (by decide))).bind
  intro ok
  refine Records.ite (.pure _ fun _ h => h) ?_
  apply Records.bind (.lift (inRange_framed.pasvAddress_keeps w))
  intro address
  cases address with
  | none => exact .pure _ fun _ h => h
  | some address =>
    apply (ftpRest_records srv).bind
    intro rest
    exact Records.ite (.pure _ fun _ h => h) (ftpOpenData_records hpath w srv address)

theorem ftpAccess_records (w : World) (srv : Server) :
    Records InRange Call.Sound (ftpAccess w srv path) InRange := by
  refine Records.ite ?_ ?_
  · refine Records.bind (.lift ?_) fun _ => .pure _ fun _ h => h
    exact Keeps.modify fun s h => inRange_framed.response _ s h
  · apply (ftpSendCmd_records (inRange_framed.ftpSendCmd_keeps srv _ _)
      (Call.sound_iff.mpr (by decide))).bind
    intro ok
    refine Records.ite (.pure _ fun _ h => h) (Records.ite (.pure _ fun _ h => h) ?_)
    apply (ftpOpenPasv_records hpath w srv).bind
    intro r
    exact Records.ite (.pure _ fun _ h => h) (.pure _ fun _ h => h)

omit hpath in
theorem setOffset_inRange (offset : UInt64) (s : Session) (a : Unit) (s' : Session)
    (h : setOffset offset s = some (a, s')) : InRange s' := by
  cases h
  show offset.toInt64.toInt.natAbs ≤ 9223372036854775808
  have := offset.toInt64.le_toInt
  have := offset.toInt64.toInt_lt
  omega

omit hpath in
theorem openLocal_inRange (w : World) (localfile : Bytes) (type : AccessType) :
    Keeps InRange (openLocal w localfile type) := by
  unfold openLocal
  refine Keeps.ite (Keeps.pure _) ?_
  refine Keeps.bind ?_ fun _ => Keeps.ite (Keeps.pure _) ?_
  · exact Keeps.modify fun _ h => h
  · exact (Keeps.modify fun s h => inRange_framed.response _ s h).bind fun _ => Keeps.pure _

theorem ftpXfer_records (w : World) (srv : Server) (localfile : Bytes) (type : AccessType) :
    Records InRange Call.Sound (ftpXfer w srv localfile path type) fun _ => True := by
  apply Records.bind (.lift (openLocal_inRange w localfile type))
  intro opened
  refine Records.ite (.pure _ fun _ _ => trivial) ?_
  apply (ftpAccess_records hpath w srv).bind
  rintro ⟨ok, nData⟩
  refine Records.ite (.bind (.lift fun _ _ _ _ _ => trivial) fun _ => .pure _ fun _ h => h) ?_
  cases nData with
  | none => exact .lift fun _ _ _ _ _ => trivial
  | some d => exact .lift fun _ _ _ _ _ => trivial

theorem run_records (w : World) (srv : Server) {op : Op} (hop : op.path = path) :
    Records (fun _ => True) Call.Sound (run w srv op) fun _ => True := by
  cases op with
  | get outputfile path' offset =>
    cases hop
    exact Records.bind (.lift fun s a s' _ h => setOffset_inRange offset s a s' h) fun _ =>
      ftpXfer_records hpath w srv outputfile _
  | getRange path' size offset =>
    cases hop
    apply Records.bind (.lift fun s a s' _ h => setOffset_inRange offset s a s' h)
    intro _
    apply (ftpAccess_records hpath w srv).bind
    rintro ⟨ok, nData⟩
    refine Records.ite (.pure _ fun _ _ => trivial) ?_
    cases nData with
    | none => exact .lift fun _ _ _ _ _ => trivial
    | some d => exact .lift fun _ _ _ _ _ => trivial
  | getRangeBuffer path' size offset =>
    cases hop
    apply Records.bind (.lift fun s a s' _ h => setOffset_inRange offset s a s' h)
    intro _
    apply (ftpAccess_records hpath w srv).bind
    rintro ⟨ok, nData⟩
    refine Records.ite (.pure _ fun _ _ => trivial) ?_
    cases nData with
    | none => exact .lift fun _ _ _ _ _ => trivial
    | some d => exact .lift fun _ _ _ _ _ => trivial

end Records

theorem ftpSendCmd_log {s : Session} (hs : s.h.handle = true ∧ s.h.dir = .control) (srv : Server)
    (cmd expectedResp : Bytes) :
    (ftpSendCmd srv cmd expectedResp).log s = [⟨cStr cmd ++ crlf, some 512⟩] := by
  have hget : (MonadState.get : Run Session) s = some (s, s) := rfl
  have hrecord : (record ⟨cStr cmd ++ crlf, some 512⟩ : Attempt PUnit).erase s =
      some (⟨⟩, s) := rfl
  unfold ftpSendCmd
  rw [Logged.log_lift_bind hget, if_pos hs, Logged.log_bind hrecord]
  rfl

/-- A session that a server greets. -/
def greetedSession : Session := ⟨ftpClient, [.data (bytes "220 hi\r\n")], []⟩

/-- Whatever the user is, `USER` is sent. -/
theorem connect_sends (srv : Server) (user pass : Bytes) :
    ⟨cStr (userCmd user) ++ crlf, some 512⟩ ∈ (connect srv user pass).log greetedSession := by
  have hin : ((modifyHandle fun h =>
      { h with
        dir := .control, offset := 0, response := List.replicate responseSize 0, handle := true })
      greetedSession).bind (fun r => (readResponse (bytes "2") r.2).map fun r' =>
        (r'.1, r'.2.h.handle, r'.2.h.dir)) = some (1, true, .control) := by decide +kernel
  obtain ⟨⟨⟨⟩, s₁⟩, hset, hin⟩ := Option.bind_eq_some_iff.mp hin
  obtain ⟨⟨x, s₂⟩, hread, hs₂⟩ := Option.map_eq_some_iff.mp hin
  simp only [Prod.mk.injEq] at hs₂
  obtain ⟨rfl, hs₂⟩ := hs₂
  unfold connect
  rw [Logged.log_lift_bind hset, Logged.log_lift_bind hread, if_neg (by decide)]
  apply Logged.mem_bind_left
  rw [ftpSendCmd_log hs₂]
  exact List.mem_cons_self

/-- Whatever the path is, `TYPE I` is sent first. -/
theorem getRange_sends (w : World) (srv : Server) {path : Bytes} (hpath : path ≠ [])
    (size offset : UInt64) {s : Session} (hs : s.h.handle = true ∧ s.h.dir = .control) :
    (getRange w srv path size offset).log s ≠ [] := by
  obtain ⟨s₀, hset, hs₀⟩ : ∃ s₀, setOffset offset s = some ((), s₀) ∧
      s₀.h.handle = true ∧ s₀.h.dir = .control := ⟨_, rfl, hs⟩
  unfold getRange
  rw [Logged.log_lift_bind hset]
  apply List.ne_nil_of_mem (a := ⟨cStr (bytes "TYPE I") ++ crlf, some 512⟩)
  apply Logged.mem_bind_left
  rw [ftpAccess, if_neg hpath]
  apply Logged.mem_bind_left
  rw [ftpSendCmd_log hs₀]
  exact List.mem_cons_self

end Calls

/-- The calls for an input are one bounded line each, or there are none, exactly
for the plain inputs. -/
theorem oneLineEach_iff (user pass path : Bytes) :
    OneLineEach user pass path ↔ Plain user pass path := by
  rw [plain_iff]
  constructor
  · rintro ⟨-, -, hlogin, hdownload⟩
    constructor
    · by_contra hnot
      have hsilent := hlogin hnot (fun _ _ => none) Calls.greetedSession
      have hsent := Calls.connect_sends (fun _ _ => none) user pass
      rw [hsilent.1] at hsent
      cases hsent
    · by_contra hnot
      have hpath : path ≠ [] := by
        rintro rfl
        exact hnot (Call.sound_iff.mpr ⟨by decide, by decide, fun size hs => by cases hs⟩)
      have hsilent := hdownload hnot idealWorld (fun _ _ => none) (.getRange path 1 0) rfl
        ⟨{ handle := true }, [], []⟩
      exact Calls.getRange_sends idealWorld (fun _ _ => none) hpath 1 0 ⟨rfl, rfl⟩ hsilent.1
  · rintro ⟨hlogin, hpath⟩
    refine ⟨?_, ?_, fun hnot => absurd hlogin hnot, fun hnot => absurd hpath hnot⟩
    · intro srv s
      exact (Calls.connect_records srv hlogin s trivial).1
    · intro w srv op hop s
      exact (Calls.run_records hpath w srv hop s trivial).1

/-- A second command behind the user, a user that overruns the buffer, and a
second command behind the path. -/
theorem commands_injected :
    ¬ OneLineEach (bytes "a\r\nDELE b") [] (bytes "/f") ∧
    ¬ OneLineEach (List.replicate 600 65) [] (bytes "/f") ∧
    ¬ OneLineEach [] [] (bytes "/f\r\nDELE /g") := by
  have huser : ∀ user pass path, OneLineEach user pass path → cr ∉ cStr user ∧ lf ∉ cStr user ∧
      (cStr user).length ≤ 504 := by
    intro user pass path h
    exact (user_sound_iff user).mp
      (h.connect (fun _ _ => none) _ _ (Calls.connect_sends (fun _ _ => none) user pass))
  refine ⟨?_, ?_, ?_⟩
  · intro h
    exact absurd (huser _ _ _ h).1 (by decide)
  · intro h
    exact absurd (huser _ _ _ h).2.2 (by decide +kernel)
  · intro h
    have hsent : (⟨bytes "RETR /f\r\nDELE /g\r\n", none⟩ : Call) ∈
        (Calls.run idealWorld (whole (transferReplies (bytes "226 done")))
          (.getRange (bytes "/f\r\nDELE /g") 1 0)).log ⟨{ handle := true }, [], []⟩ := by
      decide +kernel
    have hsound := h.download _ _ _ rfl _ _ hsent
    have hsplit : bytes "RETR /f\r\nDELE /g\r\n" = bytes "RETR /f\r\nDELE /g" ++ crlf := by decide
    rw [hsplit, Call.sound_iff] at hsound
    exact absurd hsound.1 (by decide)

end EzRemote.Ftp

import EzRemote.Clients.Cookies
import EzRemote.Session.FtpLogin
import EzRemote.Session.Nfs
import EzRemote.Session.Sftp

/-!
# Connect of every class

`Connect` of each client class, for every outcome of the calls that it makes: its
result, the exceptions and the undefined behaviour that it may end in, and what
`IsConnected()` says of the client afterwards.
-/

namespace EzRemote.Session

open Pool (ClientClass StdException Throws Returns newClient hostAndPort httpClient httpTarget
  getHttpUrl UrlAccepted)

/-- The members of `SmbClient` that `IsConnected` reads. -/
structure SmbClient where
  smb2 : Option Nat
  connected : Bool
  deriving DecidableEq, Repr

namespace SmbClient

def isConnected (client : SmbClient) : Bool := client.smb2.isSome && client.connected

/-- How the calls of `Connect` come out; `url` is the share of the parsed url. -/
structure ConnectCalls where
  context : Option Nat
  url : Option (Option Bytes)
  connectShare : Int
  deriving DecidableEq, Repr

/-- The parsed url names a share. -/
def ConnectCalls.HasShare (calls : ConnectCalls) : Prop :=
  ∃ share, calls.url = some (some share) ∧ cStr share ≠ []

instance (calls : ConnectCalls) : Decidable calls.HasShare :=
  match h : calls.url with
  | some (some share) => decidable_of_iff (cStr share ≠ [])
      ⟨fun hne => ⟨share, h, hne⟩, fun ⟨_, heq, hne⟩ => by rw [h] at heq; cases heq; exact hne⟩
  | some none | none => isFalse fun ⟨_, heq, _⟩ => by rw [h] at heq; cases heq

/-- `Connect`; a failure keeps the context. -/
def connect (calls : ConnectCalls) : Int × SmbClient :=
  match calls.context with
  | none => (0, ⟨none, false⟩)
  | some smb2 =>
    if ¬ calls.HasShare then (0, ⟨some smb2, false⟩)
    else if calls.connectShare < 0 then (0, ⟨some smb2, false⟩)
    else (1, ⟨some smb2, true⟩)

end SmbClient

/-- What keeps a call from returning. -/
inductive Fault
  | raised (e : StdException)
  | undefined
  deriving DecidableEq, Repr

abbrev Runs := Except Fault

/-- A part that may raise an exception. -/
def raises {α : Type} : Throws α → Runs α
  | .error e => .error (.raised e)
  | .ok a => .ok a

/-- A part that may be undefined. -/
def defined {α : Type} : Option α → Runs α
  | none => .error .undefined
  | some a => .ok a

section Faults

variable {ε α β : Type}

theorem bind_eq_ok {m : Except ε α} {f : α → Except ε β} {b : β} (h : m >>= f = .ok b) :
    ∃ a, m = .ok a ∧ f a = .ok b := by
  cases m with
  | error e => cases h
  | ok a => exact ⟨a, rfl, h⟩

theorem raises_eq_ok {m : Throws α} {a : α} (h : raises m = .ok a) : m = .ok a := by
  cases m with
  | error e => cases h
  | ok b =>
    cases h
    rfl

theorem defined_eq_ok {m : Option α} {a : α} (h : defined m = .ok a) : m = some a := by
  cases m with
  | none => cases h
  | some b =>
    cases h
    rfl

theorem returns_raises {m : Throws α} : Returns (raises m) ↔ Returns m := by
  cases m with
  | error e => exact iff_of_false (Pool.not_returns_error _) (Pool.not_returns_error _)
  | ok a => exact iff_of_true (Pool.returns_ok _) (Pool.returns_ok _)

theorem returns_defined {m : Option α} : Returns (defined m) ↔ m.isSome := by
  cases m with
  | none => exact iff_of_false (Pool.not_returns_error _) Bool.false_ne_true
  | some a => exact iff_of_true (Pool.returns_ok _) rfl

end Faults

/-- How the calls of the `Connect` of each class come out.  The login of archive.org
sends two random identifiers; httplib follows a redirect of it, and `std::stoi` of
its port raises where no `int` holds it. -/
structure Outcomes where
  ftp : FtpCalls
  sftp : SFTPClient.ConnectCalls
  smb : SmbClient.ConnectCalls
  nfs : NfsClient.ConnectCalls
  donationIdentifier : Bytes
  abtestIdentifier : Bytes
  login : Throws (Option Clients.LoginResponse)

/-- `cookies` of `ArchiveOrgClient` when it connects. -/
def Outcomes.cookies (o : Outcomes) : Clients.Cookies :=
  ((SortedMap.empty.insert (bytes "donation-identifier") o.donationIdentifier).insert
    (bytes "test-cookie") (bytes "1")).insert (bytes "abtest-identifier") o.abtestIdentifier

variable (o : Outcomes)

/-- `FtpClient::Connect`. -/
def ftpConnect (url user pass : Bytes) : Runs (Int × Bool) := do
  let _ ← raises (hostAndPort 6 url)
  let r ← defined (ftpLogin o.ftp user pass)
  return (r.1, r.2.isConnected)

/-- `SFTPClient::Connect`. -/
def sftpConnect (url password : Bytes) : Runs (Int × Bool) := do
  let _ ← raises (hostAndPort 7 url)
  let r ← defined (SFTPClient.connect password o.sftp)
  return (r.1, r.2.1.isConnected)

/-- `BaseClient::Connect`. -/
def baseConnect (url : Bytes) : Runs (Int × Bool) := do
  let ret ← raises (Pool.baseConnect url)
  return (ret, true)

/-- `ArchiveOrgClient::Connect`. -/
def archiveOrgConnect (url username : Bytes) : Runs (Int × Bool) := do
  let _ ← raises (httpClient (httpTarget url).hostUrl)
  if 0 < username.length then do
    let reply ← raises o.login
    let r ← defined (Clients.login o.cookies reply)
    return (r.1, r.1 = 1)
  else return (1, true)

/-- `Connect` of a new client: its result, and `IsConnected()` behind it. -/
def connect (h : HostInfo) : ClientClass → Runs (Int × Bool)
  | .ftpClient => ftpConnect o h.url h.username h.password
  | .sftpClient => sftpConnect o h.url h.password
  | .smbClient => .ok ((SmbClient.connect o.smb).1, (SmbClient.connect o.smb).2.isConnected)
  | .nfsClient => .ok ((NfsClient.connect o.nfs).1, (NfsClient.connect o.nfs).2.1.isConnected)
  | .webDAVClient => baseConnect (getHttpUrl h.url)
  | .archiveOrgClient => archiveOrgConnect o h.url h.username
  | .baseClient => baseConnect h.url

/-- The outcomes for which `Connect` makes a session; `letIn` says so of the login of
an FTP client. -/
def Succeeds (letIn : Prop) (h : HostInfo) : ClientClass → Prop
  | .ftpClient => o.ftp.Reached ∧ letIn
  | .sftpClient => o.sftp.resolved = true ∧ o.sftp.setRcvbuf ≠ -1 ∧ o.sftp.setSndbuf ≠ -1 ∧
      o.sftp.connect = 0 ∧ o.sftp.session.isSome ∧ o.sftp.handshake = 0 ∧
      SFTPClient.authenticate h.password o.sftp = some true ∧ o.sftp.sftp.isSome
  | .smbClient => o.smb.context.isSome ∧ o.smb.HasShare ∧ 0 ≤ o.smb.connectShare
  | .nfsClient => o.nfs.context.isSome ∧ o.nfs.url = true ∧ o.nfs.mount = 0
  | .archiveOrgClient => h.username = [] ∨ ∃ res, o.login = .ok (some res) ∧
      Clients.httpSuccess res.status = true ∧ res.setCookie ≠ []
  | .webDAVClient | .baseClient => True

theorem sftp_isConnected {password : Bytes} {calls : SFTPClient.ConnectCalls}
    {r : Int × SFTPClient × SftpLog} (heq : SFTPClient.connect password calls = some r) :
    (r.2.1.isConnected = true ↔ calls.resolved = true ∧ calls.setRcvbuf ≠ -1 ∧
        calls.setSndbuf ≠ -1 ∧ calls.connect = 0 ∧ calls.session.isSome ∧ calls.handshake = 0 ∧
        SFTPClient.authenticate password calls = some true ∧ calls.sftp.isSome) ∧
      (r.2.1.isConnected = true → r.1 ≠ 0) := by
  unfold SFTPClient.connect at heq
  dsimp only at heq
  by_cases hresolved : calls.resolved = false
  · rw [if_pos hresolved] at heq
    cases heq
    simp [hresolved, SFTPClient.isConnected]
  rw [if_neg hresolved] at heq
  by_cases hrcv : calls.setRcvbuf = -1
  · rw [if_pos hrcv] at heq
    cases heq
    simp [hrcv, SFTPClient.isConnected]
  rw [if_neg hrcv] at heq
  by_cases hsnd : calls.setSndbuf = -1
  · rw [if_pos hsnd] at heq
    cases heq
    simp [hsnd, SFTPClient.isConnected]
  rw [if_neg hsnd] at heq
  by_cases hconnect : calls.connect = 0
  case neg =>
    rw [if_pos hconnect] at heq
    cases heq
    simp [hconnect, SFTPClient.isConnected]
  rw [if_neg (not_not.mpr hconnect)] at heq
  cases hsession : calls.session with
  | none =>
    rw [hsession] at heq
    cases heq
    simp [SFTPClient.isConnected]
  | some session =>
    rw [hsession] at heq
    dsimp only at heq
    by_cases hhandshake : calls.handshake = 0
    case neg =>
      -- a session without its sftp part
      rw [if_pos hhandshake] at heq
      cases heq
      simp [hhandshake, SFTPClient.isConnected]
    rw [if_neg (not_not.mpr hhandshake)] at heq
    obtain ⟨authenticated, hauth, hr⟩ := Option.map_eq_some_iff.mp heq
    cases authenticated with
    | false =>
      cases hr
      simp [hauth, SFTPClient.isConnected]
    | true =>
      cases hr
      simp [hauth, hresolved, hrcv, hsnd, hconnect, hhandshake, SFTPClient.isConnected]

theorem smb_isConnected (calls : SmbClient.ConnectCalls) :
    ((SmbClient.connect calls).2.isConnected = true ↔
        calls.context.isSome ∧ calls.HasShare ∧ 0 ≤ calls.connectShare) ∧
      ((SmbClient.connect calls).2.isConnected = true → (SmbClient.connect calls).1 ≠ 0) := by
  unfold SmbClient.connect
  cases calls.context with
  | none => simp [SmbClient.isConnected]
  | some smb2 =>
    dsimp only
    by_cases hshare : calls.HasShare
    · rw [if_neg (not_not.mpr hshare)]
      by_cases hconnect : calls.connectShare < 0
      · simp [hconnect, SmbClient.isConnected]
      · simp [hconnect, hshare, Int.not_lt.mp hconnect, SmbClient.isConnected]
    · simp [hshare, SmbClient.isConnected]

theorem nfs_isConnected (calls : NfsClient.ConnectCalls) :
    ((NfsClient.connect calls).2.1.isConnected = true ↔
        calls.context.isSome ∧ calls.url = true ∧ calls.mount = 0) ∧
      ((NfsClient.connect calls).2.1.isConnected = true → (NfsClient.connect calls).1 ≠ 0) := by
  unfold NfsClient.connect
  dsimp only
  by_cases hcontext : calls.context = none
  · simp [hcontext, NfsClient.isConnected]
  rw [if_neg hcontext]
  have hsome : calls.context.isSome = true := Option.isSome_iff_ne_none.mpr hcontext
  by_cases hurl : calls.url = false
  · simp [hurl, NfsClient.isConnected]
  by_cases hmount : calls.mount = 0
  · simp [hurl, hmount, hsome, NfsClient.isConnected]
  · simp [hurl, hmount, NfsClient.isConnected]

variable {o : Outcomes}

theorem archiveOrg_isConnected {url username : Bytes} {r : Int × Bool}
    (heq : archiveOrgConnect o url username = .ok r) :
    (r.2 = true ↔ username = [] ∨ ∃ res, o.login = .ok (some res) ∧
        Clients.httpSuccess res.status = true ∧ res.setCookie ≠ []) ∧
      (r.2 = true → r.1 ≠ 0) := by
  obtain ⟨client, -, heq⟩ := bind_eq_ok heq
  by_cases huser : username = []
  · rw [if_neg (by simp [huser])] at heq
    cases heq
    exact ⟨iff_of_true rfl (.inl huser), fun _ => by decide⟩
  rw [if_pos (List.length_pos_iff.mpr huser)] at heq
  obtain ⟨reply, hreply, heq⟩ := bind_eq_ok heq
  obtain ⟨x, hx, heq⟩ := bind_eq_ok heq
  cases heq
  have hlogin : o.login = .ok reply := raises_eq_ok hreply
  have hrun : Clients.login o.cookies reply = some x := defined_eq_ok hx
  simp only [decide_eq_true_eq, huser, false_or, hlogin, Except.ok.injEq]
  refine ⟨?_, fun h1 => by rw [h1]; decide⟩
  have hzero : ¬ (0 : Int) = 1 := by decide
  unfold Clients.login at hrun
  cases reply with
  | none =>
    cases hrun
    simp
  | some res =>
    simp only [Option.some.injEq, exists_eq_left']
    dsimp only at hrun
    by_cases hstatus : Clients.httpSuccess res.status = true
    case neg =>
      rw [if_neg hstatus] at hrun
      cases hrun
      exact iff_of_false hzero fun h => hstatus h.1
    rw [if_pos hstatus] at hrun
    by_cases hcookie : res.setCookie = []
    · rw [if_neg (not_not.mpr hcookie)] at hrun
      cases hrun
      exact iff_of_false hzero fun h => h.2 hcookie
    · rw [if_pos hcookie] at hrun
      obtain ⟨_, -, rfl⟩ := Option.map_eq_some_iff.mp hrun
      exact iff_of_true rfl ⟨hstatus, hcookie⟩

/-- A `Connect` that returns leaves the client connected exactly where it makes a
session, and then it does not return 0. -/
theorem connect_live {letIn : Prop} {h : HostInfo} {cls : ClientClass} {r : Int × Bool}
    (hletIn : ∀ x, ftpLogin o.ftp h.username h.password = some x →
      (x.2.isConnected = true ↔ o.ftp.Reached ∧ letIn))
    (heq : connect o h cls = .ok r) :
    (r.2 = true ↔ Succeeds o letIn h cls) ∧ (r.2 = true → r.1 ≠ 0) := by
  cases cls with
  | ftpClient =>
    obtain ⟨_, -, heq⟩ := bind_eq_ok heq
    obtain ⟨x, hx, heq⟩ := bind_eq_ok heq
    cases heq
    have hrun := defined_eq_ok hx
    exact ⟨hletIn x hrun, (ftpLogin_isConnected hrun).2⟩
  | sftpClient =>
    obtain ⟨_, -, heq⟩ := bind_eq_ok heq
    obtain ⟨x, hx, heq⟩ := bind_eq_ok heq
    cases heq
    exact sftp_isConnected (defined_eq_ok hx)
  | smbClient =>
    cases heq
    exact smb_isConnected o.smb
  | nfsClient =>
    cases heq
    exact nfs_isConnected o.nfs
  | archiveOrgClient => exact archiveOrg_isConnected heq
  | webDAVClient | baseClient =>
    obtain ⟨ret, hret, heq⟩ := bind_eq_ok heq
    cases heq
    obtain ⟨_, -, hone⟩ := bind_eq_ok (raises_eq_ok hret)
    cases hone
    exact ⟨iff_of_true rfl trivial, fun _ => by decide⟩

end EzRemote.Session

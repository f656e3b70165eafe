import EzRemote.Pool.Model
import EzRemote.Session.Connect

/-!
# What AcquireRemoteClient ends in

`CreatePooledClient` and `AcquireRemoteClient` with the exceptions and the undefined
behaviour of `Connect`, and the requests for which they return whatever the servers
answer.
-/

namespace EzRemote.Session

open Pool (ClientClass Ptr Taken Returns newClient UrlAccepted httpTarget getHttpUrl)

/-- What `AcquireRemoteClient` returns: a null pointer, or a client with its
`IsConnected()` and the result of its `Connect`, if that was part of the call. -/
inductive Acquired
  | null
  | client (connected : Bool) (connect : Option Int)
  deriving DecidableEq, Repr

/-- The result is not `nullptr`. -/
def Acquired.isClient : Acquired → Bool
  | .null => false
  | .client _ _ => true

/-- `CreatePooledClient`; the result of `Connect` is not looked at. -/
def createPooledClient (o : Outcomes) (h : HostInfo) : Runs Acquired :=
  match newClient h with
  | none => .ok .null
  | some cls => do
    let r ← connect o h cls
    return .client r.2 (some r.1)

/-- `AcquireRemoteClient` behind its first section, for clients of which `connected`
is the answer of `IsConnected()`. -/
def acquireRemoteClient (connected : Ptr → Bool) (o : Outcomes) (h : HostInfo) (taken : Taken) :
    Runs Acquired :=
  match taken.client with
  | some (p, _) => .ok (.client (connected p) none)
  | none => createPooledClient o h

/-- No part of a `Set-Cookie` header consists of `=` only. -/
def CookiesNamed (res : Clients.LoginResponse) : Prop :=
  ∀ header ∈ res.setCookie, ∀ part ∈ tokens Clients.semicolon header, ∃ b ∈ part, b ≠ Clients.equals

/-- The servers keep to their protocols: FTP servers send replies or nothing, SSH
servers tell their methods, and cookies have names. -/
structure Outcomes.Orderly (o : Outcomes) : Prop where
  ftp : ∃ replies, o.ftp.Says replies
  sftp : o.sftp.userauthList.isSome
  cookies : ∀ res, o.login = .ok (some res) → CookiesNamed res

/-- They do, and the login of archive.org raises nothing. -/
structure Outcomes.Tame (o : Outcomes) : Prop extends o.Orderly where
  login : Returns o.login

/-- The texts that a class makes of its user and password fit its buffers: the
commands of FTP, and what SFTP says of a key that is not there. -/
def LoginFits (h : HostInfo) : ClientClass → Prop
  | .ftpClient => TextFits (userCommand h.username) ∧ TextFits (passCommand h.password)
  | .sftpClient => SFTPClient.useIdentity h.password = true →
      (SFTPClient.publicKeyMissing h.password).length < 512 ∧
        (SFTPClient.privateKeyMissing h.password).length < 512
  | .smbClient | .nfsClient | .webDAVClient | .archiveOrgClient | .baseClient => True

instance (h : HostInfo) : ∀ cls, Decidable (LoginFits h cls)
  | .ftpClient => inferInstanceAs (Decidable (_ ∧ _))
  | .sftpClient => inferInstanceAs (Decidable (_ → _))
  | .smbClient | .nfsClient | .webDAVClient | .archiveOrgClient | .baseClient =>
    inferInstanceAs (Decidable True)

/-- A host whose url, user and password the class for its type accepts. -/
def ConnectAccepted (h : HostInfo) : Prop :=
  ∀ cls, newClient h = some cls → UrlAccepted cls h.url ∧ LoginFits h cls

instance (h : HostInfo) : Decidable (ConnectAccepted h) :=
  inferInstanceAs (Decidable (∀ cls ∈ newClient h, UrlAccepted cls h.url ∧ LoginFits h cls))

/-- No login is sent to archive.org. -/
def LoginFree (h : HostInfo) : Prop := newClient h = some .archiveOrgClient → h.username = []

/-- Neither an FTP nor an SSH server is asked. -/
def ServerFree (h : HostInfo) : Prop :=
  newClient h ≠ some .ftpClient ∧ newClient h ≠ some .sftpClient

theorem login_isSome {res : Clients.LoginResponse} (h : CookiesNamed res)
    (cookies : Clients.Cookies) : (Clients.login cookies (some res)).isSome := by
  have hheader : ∀ header ∈ res.setCookie, ∀ cookies : Clients.Cookies,
      (Clients.storeHeader cookies header).isSome := by
    intro header hheader cookies
    unfold Clients.storeHeader
    rw [Clients.split_eq_tokens, Clients.foldlM_storePart (h header hheader)]
    rfl
  have hall : ∀ (headers : List Bytes) (cookies : Clients.Cookies),
      (∀ header ∈ headers, header ∈ res.setCookie) →
        (headers.foldlM Clients.storeHeader cookies).isSome := by
    intro headers
    induction headers with
    | nil => exact fun _ _ => rfl
    | cons header headers ih =>
      intro cookies hsub
      obtain ⟨c, hc⟩ := Option.isSome_iff_exists.mp
        (hheader header (hsub header List.mem_cons_self) cookies)
      rw [List.foldlM_cons, hc]
      exact ih c fun x hx => hsub x (List.mem_cons_of_mem _ hx)
  unfold Clients.login
  dsimp only
  split
  · split
    · rw [Option.isSome_map]
      exact hall _ cookies fun _ hx => hx
    · rfl
  · rfl

theorem sftpConnect_isSome {password : Bytes} {calls : SFTPClient.ConnectCalls}
    (h : (SFTPClient.authenticate password calls).isSome) :
    (SFTPClient.connect password calls).isSome := by
  unfold SFTPClient.connect
  dsimp only
  split
  · rfl
  split
  · rfl
  split
  · rfl
  split
  · rfl
  split
  · rfl
  split
  · rfl
  rw [Option.isSome_map]
  exact h

theorem messageFits_of_loginFits {h : HostInfo} (hfits : LoginFits h .sftpClient)
    (calls : SFTPClient.ConnectCalls) : calls.MessageFits h.password := by
  intro hidentity
  obtain ⟨hpublic, hprivate⟩ := hfits hidentity
  split
  · exact hpublic
  · exact fun _ => hprivate

/-- What is accepted connects on orderly servers, unless a login is redirected. -/
theorem returns_connect {o : Outcomes} (ho : o.Orderly) {h : HostInfo} {cls : ClientClass}
    (hurl : UrlAccepted cls h.url) (hfits : LoginFits h cls)
    (hlogin : cls = .archiveOrgClient → h.username ≠ [] → Returns o.login) :
    Returns (connect o h cls) := by
  cases cls with
  | ftpClient =>
    obtain ⟨replies, hspoke⟩ := ho.ftp
    obtain ⟨_, hhost⟩ := returns_raises.mpr (Pool.returns_hostAndPort.mpr hurl)
    refine Pool.returns_bind.mpr ⟨_, hhost, (Pool.returns_bind_of fun _ => Pool.returns_ok _).mpr ?_⟩
    rw [returns_defined, ftpLogin_isSome_iff hspoke]
    exact fun _ _ _ _ => ⟨hfits.1, fun _ _ _ => hfits.2⟩
  | sftpClient =>
    obtain ⟨list, hlist⟩ := Option.isSome_iff_exists.mp ho.sftp
    obtain ⟨_, hhost⟩ := returns_raises.mpr (Pool.returns_hostAndPort.mpr hurl)
    refine Pool.returns_bind.mpr ⟨_, hhost, (Pool.returns_bind_of fun _ => Pool.returns_ok _).mpr ?_⟩
    rw [returns_defined]
    apply sftpConnect_isSome
    rw [SFTPClient.authenticate_isSome_iff]
    exact ⟨list, hlist, fun _ => messageFits_of_loginFits hfits _⟩
  | smbClient | nfsClient => exact Pool.returns_ok _
  | webDAVClient | baseClient =>
    exact (Pool.returns_bind_of fun _ => Pool.returns_ok _).mpr
      (returns_raises.mpr (Pool.returns_baseConnect.mpr hurl))
  | archiveOrgClient =>
    obtain ⟨_, hclient⟩ := returns_raises.mpr (Pool.returns_httpClient.mpr hurl)
    refine Pool.returns_bind.mpr ⟨_, hclient, ?_⟩
    by_cases huser : h.username = []
    · rw [if_neg (by simp [huser])]
      exact Pool.returns_ok _
    rw [if_pos (List.length_pos_iff.mpr huser)]
    obtain ⟨reply, hreply⟩ := hlogin rfl huser
    refine Pool.returns_bind.mpr ⟨reply, by rw [hreply]; rfl, ?_⟩
    refine (Pool.returns_bind_of fun _ => Pool.returns_ok _).mpr (returns_defined.mpr ?_)
    cases reply with
    | none => rfl
    | some res => exact login_isSome (ho.cookies res hreply) _

/-- No server answers. -/
def silentServers : Outcomes where
  ftp := ⟨false, 0, 0, [], fun _ _ => none⟩
  sftp := { SFTPClient.passwordLogin with connect := -1 }
  smb := ⟨none, none, 0⟩
  nfs := ⟨none, false, 0⟩
  donationIdentifier := []
  abtestIdentifier := []
  login := .ok none

theorem silentServers_tame : silentServers.Tame where
  ftp := ⟨⟨none, fun _ => none⟩, .ended, fun _ _ => .none⟩
  sftp := rfl
  cookies := fun _ h => nomatch h
  login := ⟨none, rfl⟩

/-- An FTP server that asks for user and password. -/
def askingServer : FtpCalls :=
  ⟨true, 0, 0, [.data (bytes "220 " ++ Ftp.crlf)], fun _ _ => some [.data (bytes "331 " ++ Ftp.crlf)]⟩

def askingReplies : FtpReplies := ⟨some [bytes "220 "], fun _ => some (some [bytes "331 "])⟩

theorem askingServer_speaks : askingServer.Says askingReplies where
  greeting := by
    refine .reply (.single (by decide) (by decide) (by decide)) ?_ ⟨?_, by decide⟩
    · unfold Ftp.Reply.Fits Ftp.FitsLine
      decide
    · intro r hr
      cases List.mem_singleton.mp hr
      exact ⟨_, rfl, by decide, by decide⟩
  answer := by
    intro _ _
    refine .some (.reply (.single (by decide) (by decide) (by decide)) ?_ ⟨?_, by decide⟩)
    · unfold Ftp.Reply.Fits Ftp.FitsLine
      decide
    · intro r hr
      cases List.mem_singleton.mp hr
      exact ⟨_, rfl, by decide, by decide⟩

/-- An SSH server that takes keys, of which the private one or both are missing. -/
def keyServer (publicKey : Bool) : SFTPClient.ConnectCalls :=
  { SFTPClient.passwordLogin with
    userauthList := some (bytes "publickey"), publicKeyExists := publicKey }

theorem keyServer_undefined {password : Bytes} {publicKey : Bool}
    (h : ¬ (keyServer publicKey).MessageFits password) :
    SFTPClient.connect password (keyServer publicKey) = none := by
  have hauth : SFTPClient.authenticate password (keyServer publicKey) = none := by
    by_contra hsome
    obtain ⟨list, hlist, hfits⟩ := (SFTPClient.authenticate_isSome_iff _ _).mp
      (Option.isSome_iff_ne_none.mpr hsome)
    cases hlist
    exact h (hfits (by decide))
  unfold SFTPClient.connect
  dsimp only [keyServer, SFTPClient.passwordLogin]
  exact congrArg (Option.map _) hauth

/-- Tame servers on which a user or a password that does not fit is written behind a
buffer. -/
theorem exists_overflow {h : HostInfo} {cls : ClientClass} (hno : ¬ LoginFits h cls) :
    ∃ o : Outcomes, o.Tame ∧ ¬ Returns (connect o h cls) := by
  cases cls with
  | ftpClient =>
    refine ⟨{ silentServers with ftp := askingServer },
      ⟨⟨⟨_, askingServer_speaks⟩, rfl, fun _ h => nomatch h⟩, ⟨none, rfl⟩⟩, ?_⟩
    intro hreturns
    obtain ⟨_, -, hlogin⟩ := Pool.returns_bind.mp hreturns
    obtain ⟨_, hdefined, -⟩ := Pool.returns_bind.mp hlogin
    have hsome := (ftpLogin_isSome_iff askingServer_speaks h.username h.password).mp
      (returns_defined.mp ⟨_, hdefined⟩) (by decide)
    obtain ⟨huser, hpass⟩ := hsome _ rfl rfl
    exact hno ⟨huser, hpass _ rfl rfl⟩
  | sftpClient =>
    obtain ⟨publicKey, hmessage⟩ :
        ∃ publicKey, ¬ (keyServer publicKey).MessageFits h.password := by
      by_contra hfits
      push Not at hfits
      refine hno fun hidentity => ⟨?_, ?_⟩
      · simpa [keyServer] using hfits false hidentity
      · simpa [keyServer, SFTPClient.passwordLogin] using hfits true hidentity
    refine ⟨{ silentServers with sftp := keyServer publicKey },
      ⟨⟨silentServers_tame.ftp, rfl, fun _ h => nomatch h⟩, ⟨none, rfl⟩⟩, ?_⟩
    intro hreturns
    obtain ⟨_, -, hlogin⟩ := Pool.returns_bind.mp hreturns
    obtain ⟨_, hdefined, -⟩ := Pool.returns_bind.mp hlogin
    have hundefined := keyServer_undefined hmessage
    exact Option.some_ne_none _ ((defined_eq_ok hdefined).symm.trans hundefined)
  | smbClient | nfsClient | webDAVClient | archiveOrgClient | baseClient =>
    exact absurd trivial hno

theorem urlAccepted_of_returns {o : Outcomes} {h : HostInfo} {cls : ClientClass}
    (hreturns : Returns (connect o h cls)) : UrlAccepted cls h.url := by
  cases cls with
  | ftpClient | sftpClient =>
    obtain ⟨_, hhost, -⟩ := Pool.returns_bind.mp hreturns
    exact Pool.returns_hostAndPort.mp (returns_raises.mp ⟨_, hhost⟩)
  | smbClient | nfsClient => trivial
  | webDAVClient | baseClient =>
    obtain ⟨_, hbase, -⟩ := Pool.returns_bind.mp hreturns
    exact Pool.returns_baseConnect.mp (returns_raises.mp ⟨_, hbase⟩)
  | archiveOrgClient =>
    obtain ⟨_, hclient, -⟩ := Pool.returns_bind.mp hreturns
    exact Pool.returns_httpClient.mp (returns_raises.mp ⟨_, hclient⟩)

theorem returns_connect_free (o : Outcomes) {h : HostInfo} {cls : ClientClass}
    (hurl : UrlAccepted cls h.url) (hftp : cls ≠ .ftpClient) (hsftp : cls ≠ .sftpClient)
    (huser : cls = .archiveOrgClient → h.username = []) : Returns (connect o h cls) := by
  cases cls with
  | ftpClient => exact absurd rfl hftp
  | sftpClient => exact absurd rfl hsftp
  | smbClient | nfsClient => exact Pool.returns_ok _
  | webDAVClient | baseClient =>
    exact (Pool.returns_bind_of fun _ => Pool.returns_ok _).mpr
      (returns_raises.mpr (Pool.returns_baseConnect.mpr hurl))
  | archiveOrgClient =>
    obtain ⟨_, hclient⟩ := returns_raises.mpr (Pool.returns_httpClient.mpr hurl)
    refine Pool.returns_bind.mpr ⟨_, hclient, ?_⟩
    rw [if_neg (by simp [huser rfl])]
    exact Pool.returns_ok _

section Create

variable {h : HostInfo}

theorem returns_createPooledClient {o : Outcomes} : Returns (createPooledClient o h) ↔
    ∀ cls, newClient h = some cls → Returns (connect o h cls) := by
  unfold createPooledClient
  cases newClient h with
  | none => exact iff_of_true (Pool.returns_ok _) nofun
  | some cls =>
    refine (Pool.returns_bind_of fun _ => Pool.returns_ok _).trans ⟨?_, fun h => h cls rfl⟩
    rintro hreturns _ heq
    cases heq
    exact hreturns

/-- On tame servers the url, the user and the password decide. -/
theorem returns_tame_iff :
    (∀ o : Outcomes, o.Tame → Returns (createPooledClient o h)) ↔ ConnectAccepted h := by
  constructor
  · intro hall cls hcls
    refine ⟨urlAccepted_of_returns
      (returns_createPooledClient.mp (hall _ silentServers_tame) cls hcls), ?_⟩
    by_contra hno
    obtain ⟨o, ho, hfault⟩ := exists_overflow hno
    exact hfault (returns_createPooledClient.mp (hall o ho) cls hcls)
  · intro haccepted o ho
    refine returns_createPooledClient.mpr fun cls hcls => ?_
    obtain ⟨hurl, hfits⟩ := haccepted cls hcls
    exact returns_connect ho.toOrderly hurl hfits fun _ _ => ho.login

/-- Where logins may be redirected to a port that no `int` holds, none may be sent. -/
theorem returns_orderly_iff : (∀ o : Outcomes, o.Orderly → Returns (createPooledClient o h)) ↔
    ConnectAccepted h ∧ LoginFree h := by
  constructor
  · intro hall
    refine ⟨returns_tame_iff.mp fun o ho => hall o ho.toOrderly, ?_⟩
    intro harchive
    by_contra huser
    let o : Outcomes := { silentServers with login := .error .outOfRange }
    have ho : o.Orderly := ⟨silentServers_tame.ftp, rfl, fun _ h => nomatch h⟩
    obtain ⟨_, -, hlogin⟩ :=
      Pool.returns_bind.mp (returns_createPooledClient.mp (hall o ho) _ harchive)
    rw [if_pos (List.length_pos_iff.mpr huser)] at hlogin
    exact Pool.not_returns_error _ hlogin
  · rintro ⟨haccepted, hfree⟩ o ho
    refine returns_createPooledClient.mpr fun cls hcls => ?_
    obtain ⟨hurl, hfits⟩ := haccepted cls hcls
    refine returns_connect ho hurl hfits fun harchive huser => ?_
    exact absurd (hfree (hcls.trans (congrArg some harchive))) huser

/-- Where servers send anything, none may be asked. -/
theorem returns_any_iff : (∀ o : Outcomes, Returns (createPooledClient o h)) ↔
    ConnectAccepted h ∧ LoginFree h ∧ ServerFree h := by
  constructor
  · intro hall
    obtain ⟨haccepted, hfree⟩ := returns_orderly_iff.mp fun o _ => hall o
    refine ⟨haccepted, hfree, ?_, ?_⟩
    · intro hftp
      obtain ⟨_, -, hlogin⟩ := Pool.returns_bind.mp
        (returns_createPooledClient.mp (hall { silentServers with ftp := strayServer }) _ hftp)
      obtain ⟨_, hdefined, -⟩ := Pool.returns_bind.mp hlogin
      exact Option.some_ne_none _ ((defined_eq_ok hdefined).symm.trans (ftpLogin_stray _ _))
    · intro hsftp
      let calls : SFTPClient.ConnectCalls := { SFTPClient.passwordLogin with userauthList := none }
      obtain ⟨_, -, hlogin⟩ := Pool.returns_bind.mp
        (returns_createPooledClient.mp (hall { silentServers with sftp := calls }) _ hsftp)
      obtain ⟨_, hdefined, -⟩ := Pool.returns_bind.mp hlogin
      exact Option.some_ne_none _ (defined_eq_ok hdefined).symm
  · rintro ⟨haccepted, hfree, hftp, hsftp⟩ o
    refine returns_createPooledClient.mpr fun cls hcls => ?_
    refine returns_connect_free o (haccepted cls hcls).1 ?_ ?_ ?_
    · rintro rfl
      exact hftp hcls
    · rintro rfl
      exact hsftp hcls
    · rintro rfl
      exact hfree hcls

theorem returns_acquireRemoteClient {connected : Ptr → Bool} {o : Outcomes} {taken : Taken} :
    Returns (acquireRemoteClient connected o h taken) ↔
      taken.client = none → Returns (createPooledClient o h) := by
  unfold acquireRemoteClient
  cases taken.client with
  | some p => exact iff_of_true (Pool.returns_ok _) nofun
  | none => exact ⟨fun h _ => h, fun h => h rfl⟩

end Create

end EzRemote.Session

import EzRemote.Download.FileRows
import EzRemote.History.RoundTrip
import EzRemote.Session.Acquire

/-!
# Exceptions in the download thread

Every pass of `DownloadFilesThread` that reaches a row calls
`AcquireRemoteClient` with the host of the row, in the process of the request
and in every later one that loads the row.  Nothing catches an exception there,
and the process ends.
-/

namespace EzRemote.History

open Download
open Pool (Ptr Returns ClientPool acquireSection clientPoolKey newClient)
open Session (Outcomes Acquired acquireRemoteClient createPooledClient ConnectAccepted LoginFree
  ServerFree)

/-- The values of a JSON body of `/download_url`. -/
structure DownloadBody where
  type : Int
  url : Bytes
  username : Bytes
  password : Bytes
  httpServerType : Bytes
  srcPath : Bytes
  destPath : Bytes
  size : UInt64
  id : UInt64
  deriving DecidableEq, Repr

namespace DownloadBody

variable (b : DownloadBody)

def hostInfo : HostInfo :=
  { type := clampInt32 b.type
    url := cStr b.url
    httpServerType := cStr b.httpServerType
    username := cStr b.username
    password := cStr b.password }

/-- What the handler reads of the body: an `int`, and C strings. -/
def request : DownloadRequest :=
  { hostInfo := b.hostInfo, srcPath := cStr b.srcPath, destPath := cStr b.destPath, size := b.size
    id := b.id }

/-- The request is not answered with `Required parameters are missing`. -/
def Accepted : Prop := cStr b.url ≠ [] ∧ cStr b.srcPath ≠ [] ∧ cStr b.destPath ≠ []

instance : Decidable b.Accepted := inferInstanceAs (Decidable (_ ∧ _))

/-- The row of an accepted request. -/
def row (now : UInt64) : BgDownloadData :=
  { hostInfo := b.hostInfo
    srcPath := cStr b.srcPath
    destPath := cStr b.destPath
    bytesTransfered := 0
    fileSize := b.size
    state := .pending
    id := b.id
    timestamp := now
    failedAttempts := 0 }

theorem downloadData_request {b : DownloadBody} (h : b.Accepted) (now : UInt64) :
    b.request.downloadData now = some (b.row now) := by
  have hno : ¬ (b.request.hostInfo.url = [] ∨ b.request.srcPath = [] ∨ b.request.destPath = []) := by
    rintro (hurl | hsrc | hdest)
    · exact h.1 hurl
    · exact h.2.1 hsrc
    · exact h.2.2 hdest
  unfold DownloadRequest.downloadData
  rw [if_neg hno]
  rfl

end DownloadBody

variable {c : Cipher}

/-- A host as a request gave it, or as a load read it back. -/
inductive HostOf (c : Cipher) (h : HostInfo) : HostInfo → Prop
  | added : HostOf c h h
  | loaded {h' : HostInfo} : HostOf c h h' → HostOf c h (reloadedHost c h')

theorem clampInt32_eq_type (n : Int) (t : ClientType) :
    clampInt32 n = t.toInt ↔ n = t.toInt := by
  have hrange : 0 ≤ t.toInt ∧ t.toInt ≤ 7 := by cases t <;> decide
  unfold clampInt32
  omega

/-- A load gives back the password that was saved. -/
def Restores (c : Cipher) : Prop := ∀ h : HostInfo, (reloadedHost c h).password = h.password

theorem restores_cipher {aes : Aes} {outside : Nat → UInt8} (ha : aes.Lawful)
    (ho : ∀ k, outside k ≠ Base64.padding) : Restores (aes.cipher outside) :=
  fun h => Aes.restored_password ha ho h.password

/-- A load changes neither the class nor the url of a host that a request gave,
nor its user and password. -/
theorem HostOf.same (hc : Restores c) {b : DownloadBody} {h : HostInfo}
    (hd : HostOf c b.hostInfo h) :
    newClient h = newClient b.hostInfo ∧ h.url = b.hostInfo.url ∧
      h.username = b.hostInfo.username ∧ h.password = b.hostInfo.password ∧
      0 ∉ h.httpServerType := by
  induction hd with
  | added => exact ⟨rfl, rfl, rfl, rfl, zero_notMem_cStr _⟩
  | @loaded h _ ih =>
    obtain ⟨hnew, hurl, huser, hpassword, hserver⟩ := ih
    have hkept : newClient (reloadedHost c h) = newClient h := by
      unfold newClient reloadedHost
      simp only [clampInt32_eq_type]
      by_cases ht : h.type = ClientType.httpServer.toInt
      · simp only [ht, if_true, cStr_of_notMem hserver]
      · simp only [ht, if_false]
    refine ⟨hkept.trans hnew, ?_, ?_, (hc h).trans hpassword, ?_⟩
    · show cStr h.url = _
      rw [hurl]
      exact cStr_cStr _
    · show cStr h.username = _
      rw [huser]
      exact cStr_cStr _
    · show 0 ∉ if h.type = ClientType.httpServer.toInt then cStr h.httpServerType else []
      split
      · exact zero_notMem_cStr _
      · exact List.not_mem_nil

theorem HostOf.create (hc : Restores c) {b : DownloadBody} {h : HostInfo}
    (hd : HostOf c b.hostInfo h) (o : Outcomes) :
    createPooledClient o h = createPooledClient o b.hostInfo := by
  obtain ⟨hnew, hurl, huser, hpassword, -⟩ := hd.same hc
  have hconnect : ∀ cls, Session.connect o h cls = Session.connect o b.hostInfo cls := by
    intro cls
    unfold Session.connect
    rw [hurl, huser, hpassword]
  unfold createPooledClient
  simp only [hnew, hconnect]

/-- Every row in memory and in the file has a host of its request. -/
structure Traced (c : Cipher) (t : Tracked) : Prop where
  aligned : Aligned t
  rows : Related (fun q r => HostOf c q.hostInfo r.hostInfo) t
  file : FileRelated c (fun q r => HostOf c q.hostInfo r.hostInfo) t

theorem traced_step {t t' : Tracked} {a : TrackedAction} (h : Traced c t)
    (st : trackedStep c t a = some t') : Traced c t' := by
  have ha := aligned_step h.aligned st
  cases a with
  | run a =>
    by_cases hone : a = .restart
    · subst hone
      obtain ⟨hrows, hfile⟩ := related_restart h.file st
      exact ⟨ha, hrows, hfile⟩
    · have hst := tracked_cases st
      refine ⟨ha, related_step (fun _ => .added) ?_ h.rows h.aligned hone hst,
        fileRelated_step (fun _ _ hd => hd.loaded) h.rows h.file h.aligned hone hst⟩
      intro q r r' heq hd
      have hhost : r.hostInfo = r'.hostInfo := congrArg (fun r => r.hostInfo) heq
      rwa [← hhost]
  | getDownloadState k =>
    cases getDownloadState_eq st
    exact ⟨ha, h.rows, h.file⟩
  | visitState k =>
    obtain ⟨g, -, rfl | ⟨n, r, -, rfl⟩⟩ := visitState_cases st
    · exact ⟨ha, h.rows, h.file⟩
    · exact ⟨ha, h.rows, h.file⟩

theorem traced_reachable {ok : Tracked → TrackedAction → Prop} {t : Tracked}
    (h : TrackedReachable c ok t) : Traced c t := by
  apply Transition.Reachable.invariant h
  · rintro t ⟨n, m, base, hb, rfl⟩
    obtain ⟨hlist, hfile⟩ := boot_none hb
    have hloaded : loadedRows c base = [] := by
      unfold loadedRows
      rw [hfile]
      rfl
    refine ⟨aligned_start m (by rw [hlist, hfile]; rfl), ?_, ?_⟩
    · intro n r hr
      have hin : r ∈ base.bgDownloadList := (List.of_mem_zip hr).2
      rw [hlist] at hin
      cases hin
    · intro n r hr
      have hin : r ∈ loadedRows c base := (List.of_mem_zip hr).2
      rw [hloaded] at hin
      cases hin
  · exact fun t a t' hs _ st => traced_step hs st

/-- The pass is at `AcquireRemoteClient` for row `r` with the number `n`. -/
def Reaches (t : Tracked) (n : Nat) (r : BgDownloadData) : Prop :=
  ∃ i resume, t.base.pc = .acquiring i resume ∧ t.rows[i]? = some (n, r)

/-- `AcquireRemoteClient` returns, and a client or not, with some contents of the
pool and some outcomes that are `allowed`. -/
def Acquires (allowed : Outcomes → Prop) (h : HostInfo) (client : Bool) : Prop :=
  ∃ maxIdle clock pool taken, ∃ (connected : Ptr → Bool) (o : Outcomes) (a : Acquired),
    acquireSection maxIdle (clientPoolKey h) clock pool = some taken ∧ allowed o ∧
      acquireRemoteClient connected o h taken = .ok a ∧ a.isClient = client

/-- The steps of processes that nothing has ended: a pass goes on with what
`AcquireRemoteClient` has returned. -/
def Acquiring (allowed : Outcomes → Prop) (t : Tracked) : TrackedAction → Prop
  | .run (.thread (.acquired client)) => ∃ n r, Reaches t n r ∧ Acquires allowed r.hostInfo client
  | _ => True

/-- Every pass that reaches a row of the request gets a client or `nullptr`,
whatever the pool holds and as the calls of `Connect` may come out. -/
def PassesReturn (c : Cipher) (allowed : Outcomes → Prop) (b : DownloadBody) : Prop :=
  ∀ t, TrackedReachable c (Acquiring allowed) t → ∀ n r now, Reaches t n r →
    t.requests[n]? = some (b.row now) →
    ∀ maxIdle clock pool taken,
      acquireSection maxIdle (clientPoolKey r.hostInfo) clock pool = some taken →
        ∀ connected o, allowed o → Returns (acquireRemoteClient connected o r.hostInfo taken)

variable {allowed : Outcomes → Prop}

/-- `CreatePooledClient` returns, as the calls of `Connect` may come out. -/
def Creates (allowed : Outcomes → Prop) (h : HostInfo) : Prop :=
  ∀ o, allowed o → Returns (createPooledClient o h)

/-- Where the host of the request connects, that of every row that comes of it
does. -/
theorem passesReturn_of (hc : Restores c) {b : DownloadBody}
    (h : Creates allowed b.hostInfo) : PassesReturn c allowed b := by
  rintro t ht n r now ⟨i, resume, -, hi⟩ hn maxIdle clock pool taken - connected o ho
  obtain ⟨q, hq, hhost⟩ := (traced_reachable ht).rows n r (List.mem_of_getElem? hi)
  rw [hn] at hq
  cases hq
  refine Session.returns_acquireRemoteClient.mpr fun _ => ?_
  rw [HostOf.create (b := b) hc hhost]
  exact h o ho

/-- A process with one request that has just started. -/
def oneRequest : State :=
  { bgDownloadList := [], file := none, inRestMode := false, stopDownload := false
    pc := .checkStop, handlers := [.idle] }

theorem reachable_run {ok : Tracked → TrackedAction → Prop} {t : Tracked} {a : Action} {s : State}
    (h : TrackedReachable c ok t) (hok : ok t (.run a)) (hs : step c t.base a = some s) :
    TrackedReachable c ok { t.track a with base := s } := by
  refine .next h hok ?_
  show (step c t.base a).map _ = _
  rw [hs]
  rfl

theorem stepHandler_downloadUrl {s : State} {k : Nat} {req : DownloadRequest} {now : UInt64}
    {row : BgDownloadData} (h : req.downloadData now = some row) :
    stepHandler c s k .idle (.downloadUrl req now) = some (s.setHandler k (.adding row)) := by
  unfold stepHandler
  dsimp only
  rw [h]

/-- The first pass after a request reaches its row with an empty pool. -/
theorem exists_reaches (c : Cipher) (allowed : Outcomes → Prop) {b : DownloadBody}
    (hb : b.Accepted) :
    ∃ t, TrackedReachable c (Acquiring allowed) t ∧ Reaches t 0 (b.row 0) ∧
      t.requests[0]? = some (b.row 0) := by
  have hboot : boot c none 1 = some oneRequest := rfl
  have h₀ : TrackedReachable c (Acquiring allowed) (Tracked.start oneRequest 0) :=
    .start ⟨1, 0, oneRequest, hboot, rfl⟩
  have hadding : step c oneRequest (.handler 0 (.downloadUrl b.request 0)) =
      some (oneRequest.setHandler 0 (.adding (b.row 0))) :=
    stepHandler_downloadUrl (c := c) (b.downloadData_request hb 0)
  have h₁ := reachable_run (a := .handler 0 (.downloadUrl b.request 0)) h₀ trivial hadding
  -- the row is in the list, and the thread begins its first pass
  have h₂ := reachable_run (a := .handler 0 .add) h₁ trivial rfl
  have h₃ := reachable_run (a := .thread .go) h₂ trivial rfl
  have h₄ := reachable_run (a := .thread .go) h₃ trivial rfl
  have h₅ := reachable_run (a := .thread .go) h₄ trivial rfl
  have h₆ := reachable_run (a := .thread .go) h₅ trivial rfl
  exact ⟨_, h₆, ⟨0, false, rfl, rfl⟩, rfl⟩

theorem acquireSection_empty (h : HostInfo) :
    acquireSection (fun _ => 0) (clientPoolKey h) [] .empty = some ⟨.empty, [], [], none⟩ := by
  unfold acquireSection ClientPool.empty
  rw [AList.lookup_empty]

theorem creates_of_passesReturn {b : DownloadBody} (hb : b.Accepted)
    (h : PassesReturn c allowed b) : Creates allowed b.hostInfo := by
  intro o ho
  obtain ⟨t, ht, hreach, hn⟩ := exists_reaches c allowed hb
  have hreturns := h t ht 0 (b.row 0) 0 hreach hn (fun _ => 0) [] .empty _
    (acquireSection_empty b.hostInfo) (fun _ => false) o ho
  exact Session.returns_acquireRemoteClient.mp hreturns rfl

theorem passesReturn_iff (hc : Restores c) {b : DownloadBody} (hb : b.Accepted) :
    PassesReturn c allowed b ↔ Creates allowed b.hostInfo :=
  ⟨creates_of_passesReturn hb, passesReturn_of hc⟩

theorem creates_tame_iff {h : HostInfo} : Creates Outcomes.Tame h ↔ ConnectAccepted h :=
  Session.returns_tame_iff

theorem creates_orderly_iff {h : HostInfo} :
    Creates Outcomes.Orderly h ↔ ConnectAccepted h ∧ LoginFree h :=
  Session.returns_orderly_iff

theorem creates_any_iff {h : HostInfo} :
    Creates (fun _ => True) h ↔ ConnectAccepted h ∧ LoginFree h ∧ ServerFree h := by
  unfold Creates
  simp only [forall_const]
  exact Session.returns_any_iff

/-- Whether the passes that reach an accepted request can end the process is decided
by its type, its url, its user and its password, as long as the servers keep to their
protocols.  Where the login of archive.org may be redirected to a port that no `int`
holds, or FTP and SSH servers send anything, no request may lead there. -/
theorem thread_survives_iff {aes : Aes} (ha : aes.Lawful) {outside : Nat → UInt8}
    (ho : ∀ k, outside k ≠ Base64.padding) {b : DownloadBody} (hb : b.Accepted) :
    (PassesReturn (aes.cipher outside) Outcomes.Tame b ↔ ConnectAccepted b.hostInfo) ∧
    (PassesReturn (aes.cipher outside) Outcomes.Orderly b ↔
      ConnectAccepted b.hostInfo ∧ LoginFree b.hostInfo) ∧
    (PassesReturn (aes.cipher outside) (fun _ => True) b ↔
      ConnectAccepted b.hostInfo ∧ LoginFree b.hostInfo ∧ ServerFree b.hostInfo) := by
  have hc := restores_cipher ha ho
  rw [passesReturn_iff hc hb, passesReturn_iff hc hb, passesReturn_iff hc hb]
  exact ⟨creates_tame_iff, creates_orderly_iff, creates_any_iff⟩

/-- A request for `/a` of a host. -/
def requestFor (type : ClientType) (url : Bytes) : DownloadBody :=
  { type := type.toInt, url := url, username := [], password := [], httpServerType := []
    srcPath := bytes "/a", destPath := bytes "/data/a", size := 3, id := 1 }

theorem thread_survives_iff_ftp :
    (requestFor .ftp (bytes "ftp://h")).Accepted ∧
      ConnectAccepted (requestFor .ftp (bytes "ftp://h")).hostInfo ∧
      PassesReturn (paddedAes.cipher fun _ => 0) Outcomes.Orderly
        (requestFor .ftp (bytes "ftp://h")) := by
  have hzero : (0 : UInt8) ≠ Base64.padding := by decide
  refine ⟨by decide, by decide, ?_⟩
  exact (thread_survives_iff paddedAes_lawful (fun _ => hzero) (by decide)).2.1.mpr
    ⟨by decide, fun h => absurd h (by decide)⟩

/-- An accepted request that can end the process although all servers are tame. -/
def Raises (b : DownloadBody) : Prop :=
  b.Accepted ∧ ¬ PassesReturn plainCipher Outcomes.Tame b

theorem raises_of_not_connectAccepted {b : DownloadBody} (hb : b.Accepted)
    (hrefused : ¬ ConnectAccepted b.hostInfo) : Raises b :=
  ⟨hb, fun h => hrefused (creates_tame_iff.mp (creates_of_passesReturn hb h))⟩

/-- Urls of accepted requests that `Connect` of the class of their type raises for,
and a user that overflows the buffer of `FtpSendCmd`. -/
theorem thread_survives_iff_raises :
    Raises (requestFor .ftp (bytes "x")) ∧ Raises (requestFor .sftp (bytes "sftp:/")) ∧
      Raises (requestFor .httpServer (bytes "smb://h")) ∧
      Raises (requestFor .webdav (bytes "webdav://h:2147483648")) ∧
      Raises { requestFor .ftp (bytes "ftp://h") with username := List.replicate 600 97 } := by
  refine ⟨?_, ?_, ?_, ?_, ?_⟩
  all_goals exact raises_of_not_connectAccepted (by decide +kernel) (by decide +kernel)

end EzRemote.History

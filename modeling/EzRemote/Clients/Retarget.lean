import EzRemote.Clients.FullPath
import EzRemote.Pool.Connect
import Mathlib.Data.List.Induction

/-!
# Connecting again

`BaseClient::Connect` on a client that may have been connected before: `host_url`
and `base_path` after any sequence of calls.
-/

namespace EzRemote.Clients

open Transfer (BaseClient)
open Pool (Throws HttpClient httpClient httpTarget)

/-- `httplib::Client` as `Connect` sets it up. -/
structure Handle where
  client : HttpClient
  basicAuth : Option (Bytes × Bytes)
  keepAlive : Bool
  followLocation : Bool
  connectionTimeout : Nat
  readTimeout : Nat
  serverCertificateVerification : Bool
  deriving DecidableEq, Repr

/-- The fields of a `BaseClient`. -/
structure Connection extends BaseClient where
  client : Option Handle
  hostUrl : Bytes
  connected : Bool
  deriving DecidableEq, Repr

/-- The arguments of one call. -/
structure Call where
  url : Bytes
  username : Bytes
  password : Bytes
  deriving DecidableEq, Repr

/-- `scheme_pos + 3`; `npos + 3` is 2. -/
def schemeEnd (url : Bytes) : Nat :=
  match find url (bytes "://") 0 with
  | none => 2
  | some schemePos => schemePos + 3

namespace Connection

def new : Connection :=
  { basePath := [], cookies := [], client := none, hostUrl := [], connected := false }

/-- `Connect` up to the previous handle. -/
def retarget (c : Connection) (url : Bytes) : Connection :=
  match find url (bytes "/") (schemeEnd url) with
  | none => { c with hostUrl := url }
  | some rootPos => { c with hostUrl := url.take rootPos, basePath := url.drop rootPos }

/-- `BaseClient::Connect`: what it returns or raises, and the client it leaves. -/
def connect (c : Connection) (call : Call) : Throws Int × Connection :=
  let c := { c.retarget call.url with client := none }
  match httpClient c.hostUrl with
  | .error e => (.error e, c)
  | .ok client =>
    let handle : Handle :=
      { client := client
        basicAuth := if 0 < call.username.length then some (call.username, call.password) else none
        keepAlive := true
        followLocation := true
        connectionTimeout := 30
        readTimeout := 30
        serverCertificateVerification := false }
    (.ok 1, { c with client := some handle, connected := true })

/-- The client after a sequence of calls. -/
def connects (c : Connection) (calls : List Call) : Connection :=
  calls.foldl (fun c call => (c.connect call).2) c

variable (c : Connection) (call : Call)

theorem connect_toBaseClient :
    (c.connect call).2.toBaseClient = (c.retarget call.url).toBaseClient := by
  unfold connect
  dsimp only
  cases httpClient (c.retarget call.url).hostUrl <;> rfl

theorem connect_hostUrl : (c.connect call).2.hostUrl = (c.retarget call.url).hostUrl := by
  unfold connect
  dsimp only
  cases httpClient (c.retarget call.url).hostUrl <;> rfl

theorem retarget_hostUrl (url : Bytes) : (c.retarget url).hostUrl = (httpTarget url).hostUrl := by
  unfold retarget httpTarget schemeEnd
  dsimp only
  cases find url (bytes "/") _ <;> rfl

theorem connect_fst : (c.connect call).1 = Pool.baseConnect call.url := by
  unfold connect Pool.baseConnect
  rw [← retarget_hostUrl c]
  dsimp only
  cases httpClient (c.retarget call.url).hostUrl <;> rfl

theorem connects_append (earlier : List Call) :
    c.connects (earlier ++ [call]) = ((c.connects earlier).connect call).2 := by
  unfold connects
  rw [List.foldl_append]
  rfl

end Connection

/-- The first slash of the url that is not in front of `pos`. -/
def FirstSlash (url : Bytes) (pos i : Nat) : Prop :=
  pos ≤ i ∧ url[i]? = some slash ∧ ∀ j, pos ≤ j → j < i → url[j]? ≠ some slash

theorem isPrefixOf_slash (url : Bytes) (i : Nat) :
    (bytes "/").isPrefixOf (url.drop i) = true ↔ url[i]? = some slash := by
  rw [← List.head?_drop, List.isPrefixOf_iff_prefix]
  cases url.drop i with
  | nil => exact iff_of_false (by decide) (by simp)
  | cons b rest => simp [bytes, slash, eq_comm]

theorem find_slash_eq_some {url : Bytes} {pos i : Nat} :
    find url (bytes "/") pos = some i ↔ FirstSlash url pos i := by
  unfold find FirstSlash
  rw [List.find?_range_eq_some]
  simp only [Bool.and_eq_true, decide_eq_true_eq, Bool.not_and, Bool.or_eq_true, Bool.not_eq_true',
    List.mem_range, isPrefixOf_slash, ← Bool.not_eq_true]
  constructor
  · rintro ⟨⟨hpos, hat⟩, -, hfirst⟩
    exact ⟨hpos, hat, fun j hj hlt => (hfirst j hlt).resolve_left fun h => h hj⟩
  · rintro ⟨hpos, hat, hfirst⟩
    obtain ⟨hlt, -⟩ := List.getElem?_eq_some_iff.mp hat
    refine ⟨⟨hpos, hat⟩, by omega, fun j hj => ?_⟩
    by_cases hle : pos ≤ j
    · exact .inr (hfirst j hle hj)
    · exact .inl hle

theorem find_slash_eq_none {url : Bytes} {pos : Nat} :
    find url (bytes "/") pos = none ↔ ∀ i, pos ≤ i → url[i]? ≠ some slash := by
  unfold find
  rw [List.find?_range_eq_none]
  simp only [Bool.not_and, Bool.or_eq_true, Bool.not_eq_true', ← Bool.not_eq_true,
    decide_eq_true_eq, isPrefixOf_slash]
  constructor
  · intro h i hpos hat
    obtain ⟨hlt, -⟩ := List.getElem?_eq_some_iff.mp hat
    exact (h i (by omega)).elim (fun hnot => hnot hpos) fun hnot => hnot hat
  · intro h i _
    by_cases hle : pos ≤ i
    · exact .inr (h i hle)
    · exact .inl hle

/-- `Connect` cuts the url at a slash. -/
def Cut (url : Bytes) : Prop := ∃ i, schemeEnd url ≤ i ∧ url[i]? = some slash

/-- Behind the scheme separator; a url without one begins with its host. -/
def behindScheme (url : Bytes) : Nat :=
  match find url (bytes "://") 0 with
  | none => 0
  | some schemePos => schemePos + 3

/-- `host_url` and `base_path` of a client that the last call connected to `url`. -/
structure Retargeted (url : Bytes) (c : Connection) : Prop where
  whole : c.hostUrl ++ c.basePath = url
  root : c.basePath = [] ∨ ∃ i, FirstSlash url (behindScheme url) i ∧ c.basePath = url.drop i
  /-- They are those of a client that was never connected before. -/
  fresh : c.hostUrl = (Connection.new.retarget url).hostUrl ∧
    c.basePath = (Connection.new.retarget url).basePath

/-- A url without a scheme separator in which `Connect` does not pass a slash. -/
def NoSlashPassed (url : Bytes) : Prop :=
  find url (bytes "://") 0 = none → Cut url → url[0]? ≠ some slash ∧ url[1]? ≠ some slash

namespace Connection

variable (c : Connection) {url : Bytes}

theorem retarget_of_not_cut (h : ¬Cut url) : c.retarget url = { c with hostUrl := url } := by
  have hnone : find url (bytes "/") (schemeEnd url) = none := by
    apply find_slash_eq_none.mpr
    exact fun i hpos hat => h ⟨i, hpos, hat⟩
  unfold retarget
  rw [hnone]

theorem retarget_of_cut (h : Cut url) : ∃ i, FirstSlash url (schemeEnd url) i ∧
    ∀ c : Connection,
      c.retarget url = { c with hostUrl := url.take i, basePath := url.drop i } := by
  cases hfind : find url (bytes "/") (schemeEnd url) with
  | none =>
    obtain ⟨i, hpos, hat⟩ := h
    exact absurd hat (find_slash_eq_none.mp hfind i hpos)
  | some i =>
    refine ⟨i, find_slash_eq_some.mp hfind, fun c => ?_⟩
    unfold retarget
    rw [hfind]

end Connection

theorem FirstSlash.lt {url : Bytes} {pos i : Nat} (h : FirstSlash url pos i) : i < url.length :=
  (List.getElem?_eq_some_iff.mp h.2.1).1

theorem firstSlash_behindScheme {url : Bytes} {i : Nat} (h : FirstSlash url (schemeEnd url) i) :
    FirstSlash url (behindScheme url) i ↔ NoSlashPassed url := by
  have hcut : Cut url := ⟨i, h.1, h.2.1⟩
  unfold NoSlashPassed
  cases hfind : find url (bytes "://") 0 with
  | some schemePos =>
    have hsame : behindScheme url = schemeEnd url := by
      unfold behindScheme schemeEnd
      rw [hfind]
    rw [hsame]
    exact iff_of_true h fun hnone => by cases hnone
  | none =>
    have hend : schemeEnd url = 2 := by
      unfold schemeEnd
      rw [hfind]
    have hbehind : behindScheme url = 0 := by
      unfold behindScheme
      rw [hfind]
    rw [hend] at h
    rw [hbehind]
    obtain ⟨hpos, hat, hfirst⟩ := h
    constructor
    · rintro ⟨-, -, hall⟩ - -
      exact ⟨hall 0 (Nat.zero_le 0) (by omega), hall 1 (Nat.zero_le 1) (by omega)⟩
    · intro hnone
      obtain ⟨h0, h1⟩ := hnone rfl hcut
      refine ⟨Nat.zero_le i, hat, fun j _ hj => ?_⟩
      by_cases hle : 2 ≤ j
      · exact hfirst j hle hj
      · obtain rfl | rfl : j = 0 ∨ j = 1 := by omega
        · exact h0
        · exact h1

/-- One call re-targets the client when it cuts its url or nothing is left to remain. -/
theorem retargeted_retarget_iff (c : Connection) (url : Bytes) :
    Retargeted url (c.retarget url) ↔ (Cut url ∨ c.basePath = []) ∧ NoSlashPassed url := by
  by_cases hcut : Cut url
  · obtain ⟨i, hfirst, hcuts⟩ := Connection.retarget_of_cut hcut
    rw [hcuts c, and_iff_right (Or.inl hcut), ← firstSlash_behindScheme hfirst]
    constructor
    · rintro ⟨-, hroot, -⟩
      have hne : url.drop i ≠ [] := by
        have := hfirst.lt
        simpa using this
      obtain ⟨k, hk, hdrop⟩ := hroot.resolve_left hne
      have hlen := congrArg List.length hdrop
      simp only [List.length_drop] at hlen
      have hki : k = i := by
        have := hfirst.lt
        have := hk.lt
        omega
      exact hki ▸ hk
    · intro hbehind
      refine ⟨List.take_append_drop i url, .inr ⟨i, hbehind, rfl⟩, ?_⟩
      rw [hcuts Connection.new]
      exact ⟨rfl, rfl⟩
  · have hpassed : NoSlashPassed url := fun _ h => absurd h hcut
    rw [Connection.retarget_of_not_cut c hcut, or_iff_right hcut, and_iff_left hpassed]
    constructor
    · intro h
      exact List.append_right_eq_self.mp h.whole
    · intro hempty
      refine ⟨?_, .inl hempty, ?_⟩
      · change url ++ c.basePath = url
        rw [hempty, List.append_nil]
      · rw [Connection.retarget_of_not_cut Connection.new hcut]
        exact ⟨rfl, hempty⟩

namespace Connection

/-- A base path is left when there was one or a call has set one. -/
theorem connects_basePath_eq_nil (c : Connection) (calls : List Call) :
    (c.connects calls).basePath = [] ↔ c.basePath = [] ∧ ∀ call ∈ calls, ¬Cut call.url := by
  induction calls using List.reverseRecOn with
  | nil => exact (and_iff_left (List.forall_mem_nil _)).symm
  | append_singleton earlier call ih =>
    have hstep := congrArg BaseClient.basePath (connect_toBaseClient (c.connects earlier) call)
    rw [connects_append, hstep, List.forall_mem_append, List.forall_mem_singleton, ← and_assoc,
      ← ih]
    by_cases hcut : Cut call.url
    · obtain ⟨i, hfirst, hcuts⟩ := retarget_of_cut hcut
      rw [hcuts]
      refine iff_of_false ?_ fun h => h.2 hcut
      have := hfirst.lt
      simpa using this
    · rw [retarget_of_not_cut _ hcut, and_iff_left hcut]

/-- A base path that begins with a slash stays one, so that every request path does. -/
theorem head_getFullPath_connects (c : Connection) (calls : List Call) (path : Bytes)
    (hbase : c.basePath = [] ∨ c.basePath.head? = some slash) :
    ((c.connects calls).getFullPath path).head? = some slash := by
  apply head_getFullPath
  induction calls using List.reverseRecOn with
  | nil => exact hbase
  | append_singleton earlier call ih =>
    have hstep := congrArg BaseClient.basePath (connect_toBaseClient (c.connects earlier) call)
    rw [connects_append, hstep]
    by_cases hcut : Cut call.url
    · obtain ⟨i, hfirst, hcuts⟩ := retarget_of_cut hcut
      rw [hcuts]
      refine .inr ?_
      rw [List.head?_drop]
      exact hfirst.2.1
    · rwa [retarget_of_not_cut _ hcut]

theorem retargeted_connect_iff (c : Connection) (call : Call) :
    Retargeted call.url (c.connect call).2 ↔ Retargeted call.url (c.retarget call.url) := by
  have hbase := congrArg BaseClient.basePath (connect_toBaseClient c call)
  have hhost := connect_hostUrl c call
  constructor
  · rintro ⟨hwhole, hroot, hfresh⟩
    rw [hbase] at hwhole hroot hfresh
    rw [hhost] at hwhole hfresh
    exact ⟨hwhole, hroot, hfresh⟩
  · rintro ⟨hwhole, hroot, hfresh⟩
    rw [← hbase] at hwhole hroot hfresh
    rw [← hhost] at hwhole hfresh
    exact ⟨hwhole, hroot, hfresh⟩

end Connection

/-- After each call of a sequence the client is re-targeted exactly when each call
cuts its url or no call before it did, and passes no slash. -/
theorem connects_retargeted_iff (c : Connection) (calls : List Call) :
    (∀ earlier call, earlier ++ [call] <+: calls →
        Retargeted call.url (c.connects (earlier ++ [call]))) ↔
      ∀ earlier call, earlier ++ [call] <+: calls →
        (Cut call.url ∨ c.basePath = [] ∧ ∀ before ∈ earlier, ¬Cut before.url) ∧
          NoSlashPassed call.url := by
  have hcall : ∀ earlier call, Retargeted call.url (c.connects (earlier ++ [call])) ↔
      (Cut call.url ∨ c.basePath = [] ∧ ∀ before ∈ earlier, ¬Cut before.url) ∧
        NoSlashPassed call.url := by
    intro earlier call
    rw [Connection.connects_append, Connection.retargeted_connect_iff, retargeted_retarget_iff,
      Connection.connects_basePath_eq_nil]
  simp only [hcall]

/-- The base path of the first url stays. -/
theorem not_retargeted_stale_base_path :
    ¬∀ (c : Connection) (calls : List Call),
      (∀ call ∈ calls, Pool.Returns (httpClient (httpTarget call.url).hostUrl)) →
        ∀ earlier call, earlier ++ [call] <+: calls →
          Retargeted call.url (c.connects (earlier ++ [call])) := by
  intro h
  let first : Call := { url := bytes "http://h/a", username := [], password := [] }
  let second : Call := { url := bytes "http://g", username := [], password := [] }
  have hboth : ∀ call ∈ [first, second], Pool.HostAccepted (httpTarget call.url).hostUrl := by
    decide
  have hlast := h Connection.new [first, second]
    (fun call hcall => Pool.returns_httpClient.mpr (hboth call hcall))
    [first] second (List.prefix_refl _)
  exact absurd hlast.whole (by decide)

end EzRemote.Clients

import EzRemote.Pool.Model
import EzRemote.Util

/-!
# The url of Connect

What `Connect` of every client class makes of its url before the first call of a
socket or a library, with the constructor of `httplib::Client`, and the exceptions
that it raises there.
-/

namespace EzRemote.Pool

/-- `std::out_of_range` and `std::invalid_argument`. -/
inductive StdException
  | outOfRange
  | invalidArgument
  deriving DecidableEq, Repr

abbrev Throws := Except StdException

/-- `s.substr(pos)`. -/
def substr (s : Bytes) (pos : Nat) : Throws Bytes :=
  if pos ≤ s.length then .ok (s.drop pos) else .error .outOfRange

/-- `std::regex_replace` with a literal pattern; `skip` counts the bytes that
belong to the last match. -/
def regexReplace (pattern replacement : Bytes) : Nat → Bytes → Bytes
  | _, [] => []
  | skip + 1, _ :: s => regexReplace pattern replacement skip s
  | 0, b :: s =>
    if pattern.isPrefixOf (b :: s) then
      replacement ++ regexReplace pattern replacement (pattern.length - 1) s
    else b :: regexReplace pattern replacement 0 s

def isDigit (b : UInt8) : Bool := 48 ≤ b && b ≤ 57
def isLower (b : UInt8) : Bool := 97 ≤ b && b ≤ 122

/-- The number that decimal digits stand for. -/
def decimalValue (digits : Bytes) : Nat := digits.foldl (fun n b => 10 * n + (b.toNat - 48)) 0

/-- `std::stoi` of digits. -/
def stoi (digits : Bytes) : Throws Int :=
  if decimalValue digits ≤ 2147483647 then .ok (decimalValue digits) else .error .outOfRange

/-- `(?::(\d+))?` up to the end; no digits are an absent group. -/
def matchPort : Bytes → Option Bytes
  | [] => some []
  | b :: digits => if b = 58 ∧ digits ≠ [] ∧ digits.all isDigit then some digits else none

/-- `\[([\d:]+)\]` and the port. -/
def matchBracket : Bytes → Option (Bytes × Bytes)
  | [] => none
  | b :: s =>
    let inner := s.takeWhile fun b => isDigit b || b = 58
    match s.dropWhile fun b => isDigit b || b = 58 with
    | 93 :: rest => if b = 91 ∧ inner ≠ [] then (matchPort rest).map (inner, ·) else none
    | _ => none

/-- `([^:/?#]+)` and the port. -/
def matchName (s : Bytes) : Option (Bytes × Bytes) :=
  let name := s.takeWhile (· ∉ bytes ":/?#")
  if name = [] then none else (matchPort (s.dropWhile (· ∉ bytes ":/?#"))).map (name, ·)

def matchHostPort (s : Bytes) : Option (Bytes × Bytes) := (matchBracket s).or (matchName s)

/-- The regular expression of `Client::Client`: scheme, host and port. -/
def matchSchemeHostPort (s : Bytes) : Option (Bytes × Bytes × Bytes) :=
  let scheme := s.takeWhile isLower
  let behind := s.dropWhile isLower
  let withScheme :=
    if scheme ≠ [] ∧ (bytes "://").isPrefixOf behind then
      (matchHostPort (behind.drop 3)).map (scheme, ·)
    else none
  withScheme.or ((matchHostPort s).map ([], ·))

/-- What the constructor of `httplib::Client` keeps. -/
structure HttpClient where
  host : Bytes
  port : Int
  isSsl : Bool
  deriving DecidableEq, Repr

/-- `Client::Client(scheme_host_port)`. -/
def httpClient (schemeHostPort : Bytes) : Throws HttpClient :=
  match matchSchemeHostPort schemeHostPort with
  | none => .ok ⟨schemeHostPort, 80, false⟩
  | some (scheme, host, portStr) =>
    if scheme ≠ [] ∧ scheme ≠ bytes "http" ∧ scheme ≠ bytes "https" then .error .invalidArgument
    else do
      let isSsl := scheme = bytes "https"
      let port ← if portStr ≠ [] then stoi portStr else pure (if isSsl then 443 else 80)
      return ⟨host, port, isSsl⟩

/-- The host of an FTP or SFTP url and the text of its port: the url behind its
first `n` bytes, cut at a colon. -/
def hostAndPort (n : Nat) (url : Bytes) : Throws (Bytes × Option Bytes) := do
  let host ← substr url n
  match find host (bytes ":") 0 with
  | none => return (host, none)
  | some colonPos =>
    let port ← substr host (colonPos + 1)
    return (host.take colonPos, some port)

/-- `host_url` and `base_path` of `BaseClient`. -/
structure HttpTarget where
  hostUrl : Bytes
  basePath : Bytes
  deriving DecidableEq, Repr

/-- The cut of a url behind its host; `npos + 3` is 2. -/
def httpTarget (url : Bytes) : HttpTarget :=
  let pos := match find url (bytes "://") 0 with
    | none => 2
    | some schemePos => schemePos + 3
  match find url (bytes "/") pos with
  | none => ⟨url, []⟩
  | some rootPos => ⟨url.take rootPos, url.drop rootPos⟩

def getHttpUrl (url : Bytes) : Bytes :=
  regexReplace (bytes "webdavs://") (bytes "https://") 0
    (regexReplace (bytes "webdav://") (bytes "http://") 0 url)

/-- `BaseClient::Connect`. -/
def baseConnect (url : Bytes) : Throws Int := do
  let _ ← httpClient (httpTarget url).hostUrl
  return 1

/-- The call leaves no exception behind. -/
def Returns {ε α : Type} (m : Except ε α) : Prop := ∃ a, m = .ok a

section Returns

variable {ε α β : Type}

@[simp] theorem returns_ok (a : α) : Returns (.ok a : Except ε α) := ⟨a, rfl⟩

@[simp] theorem not_returns_error (e : ε) : ¬ Returns (.error e : Except ε α) := by
  rintro ⟨a, h⟩
  cases h

theorem returns_bind {m : Except ε α} {f : α → Except ε β} :
    Returns (m >>= f) ↔ ∃ a, m = .ok a ∧ Returns (f a) := by
  cases m with
  | error e =>
    refine iff_of_false (not_returns_error e) ?_
    rintro ⟨a, h, -⟩
    cases h
  | ok a =>
    constructor
    · exact fun h => ⟨a, rfl, h⟩
    · rintro ⟨b, h, hb⟩
      cases h
      exact hb

theorem returns_bind_of {m : Except ε α} {f : α → Except ε β} (hf : ∀ a, Returns (f a)) :
    Returns (m >>= f) ↔ Returns m := by
  rw [returns_bind]
  exact ⟨fun ⟨a, h, _⟩ => ⟨a, h⟩, fun ⟨a, h⟩ => ⟨a, h, hf a⟩⟩

end Returns

theorem returns_substr {s : Bytes} {pos : Nat} : Returns (substr s pos) ↔ pos ≤ s.length := by
  unfold substr
  by_cases h : pos ≤ s.length
  · rw [if_pos h]
    exact iff_of_true (returns_ok _) h
  · rw [if_neg h]
    exact iff_of_false (not_returns_error _) h

theorem returns_hostAndPort {n : Nat} {url : Bytes} :
    Returns (hostAndPort n url) ↔ n ≤ url.length := by
  have hcut : ∀ host : Bytes, Returns (match find host (bytes ":") 0 with
      | none => (return (host, none) : Throws (Bytes × Option Bytes))
      | some colonPos => do
        let port ← substr host (colonPos + 1)
        return (host.take colonPos, some port)) := by
    intro host
    cases hfind : find host (bytes ":") 0 with
    | none => exact returns_ok _
    | some colonPos =>
      apply (returns_bind_of fun _ => returns_ok _).mpr
      exact returns_substr.mpr (find_lt hfind (by decide))
  unfold hostAndPort
  rw [returns_bind_of hcut, returns_substr]

/-- A host with a scheme and a port that the constructor of `httplib::Client`
takes. -/
def HostAccepted (schemeHostPort : Bytes) : Prop :=
  ∀ scheme host portStr, matchSchemeHostPort schemeHostPort = some (scheme, host, portStr) →
    (scheme = [] ∨ scheme = bytes "http" ∨ scheme = bytes "https") ∧
      decimalValue portStr ≤ 2147483647

instance (schemeHostPort : Bytes) : Decidable (HostAccepted schemeHostPort) :=
  decidable_of_iff (∀ m ∈ matchSchemeHostPort schemeHostPort,
    (m.1 = [] ∨ m.1 = bytes "http" ∨ m.1 = bytes "https") ∧ decimalValue m.2.2 ≤ 2147483647)
    ⟨fun h scheme host portStr heq => h (scheme, host, portStr) heq,
      fun h m hm => h m.1 m.2.1 m.2.2 hm⟩

theorem returns_stoi {digits : Bytes} : Returns (stoi digits) ↔ decimalValue digits ≤ 2147483647 := by
  unfold stoi
  by_cases h : decimalValue digits ≤ 2147483647
  · rw [if_pos h]
    exact iff_of_true (returns_ok _) h
  · rw [if_neg h]
    exact iff_of_false (not_returns_error _) h

theorem returns_httpClient {schemeHostPort : Bytes} :
    Returns (httpClient schemeHostPort) ↔ HostAccepted schemeHostPort := by
  unfold httpClient HostAccepted
  cases hm : matchSchemeHostPort schemeHostPort with
  | none => exact iff_of_true (returns_ok _) fun _ _ _ h => nomatch h
  | some m =>
    obtain ⟨scheme, host, portStr⟩ := m
    dsimp only
    by_cases hscheme : scheme ≠ [] ∧ scheme ≠ bytes "http" ∧ scheme ≠ bytes "https"
    · rw [if_pos hscheme]
      refine iff_of_false (not_returns_error _) ?_
      intro h
      rcases (h scheme host portStr rfl).1 with h | h | h
      · exact hscheme.1 h
      · exact hscheme.2.1 h
      · exact hscheme.2.2 h
    · have hknown : scheme = [] ∨ scheme = bytes "http" ∨ scheme = bytes "https" := by
        by_contra h
        rw [not_or, not_or] at h
        exact hscheme h
      rw [if_neg hscheme]
      have hone : (∀ scheme' host' portStr', some (scheme, host, portStr) =
          some (scheme', host', portStr') →
            (scheme' = [] ∨ scheme' = bytes "http" ∨ scheme' = bytes "https") ∧
              decimalValue portStr' ≤ 2147483647) ↔ decimalValue portStr ≤ 2147483647 := by
        constructor
        · exact fun h => (h scheme host portStr rfl).2
        · rintro h _ _ _ heq
          cases heq
          exact ⟨hknown, h⟩
      rw [hone]
      by_cases hp : portStr ≠ []
      · rw [if_pos hp]
        exact (returns_bind_of fun _ => returns_ok _).trans returns_stoi
      · rw [if_neg hp, not_not.mp hp]
        exact iff_of_true (returns_ok _) (by decide)

/-- A url that the parsing of a class accepts. -/
def UrlAccepted : ClientClass → Bytes → Prop
  | .ftpClient, url => 6 ≤ url.length
  | .sftpClient, url => 7 ≤ url.length
  | .smbClient, _ | .nfsClient, _ => True
  | .webDAVClient, url => HostAccepted (httpTarget (getHttpUrl url)).hostUrl
  | .archiveOrgClient, url | .baseClient, url => HostAccepted (httpTarget url).hostUrl

instance : ∀ cls url, Decidable (UrlAccepted cls url)
  | .ftpClient, url => inferInstanceAs (Decidable (6 ≤ url.length))
  | .sftpClient, url => inferInstanceAs (Decidable (7 ≤ url.length))
  | .smbClient, _ | .nfsClient, _ => inferInstanceAs (Decidable True)
  | .webDAVClient, _ | .archiveOrgClient, _ | .baseClient, _ =>
    inferInstanceAs (Decidable (HostAccepted _))

theorem returns_baseConnect {url : Bytes} :
    Returns (baseConnect url) ↔ HostAccepted (httpTarget url).hostUrl :=
  (returns_bind_of fun _ => returns_ok _).trans returns_httpClient

/-- The pool model with the constructor of `httplib::Client` as the source has
it. -/
def sourceEnv : Env where
  httpClientThrows cls url := !decide (UrlAccepted cls url)

/-- The exceptions of the pool model are those of the urls that a class does not
accept. -/
theorem connectThrows_sourceEnv (h : HostInfo) :
    connectThrows sourceEnv h = false ↔ ∀ cls, newClient h = some cls → UrlAccepted cls h.url := by
  unfold connectThrows sourceEnv
  cases newClient h with
  | none => exact iff_of_true rfl fun _ h => (nomatch h)
  | some cls =>
    have hone : (∀ cls', some cls = some cls' → UrlAccepted cls' h.url) ↔ UrlAccepted cls h.url :=
      ⟨fun h => h cls rfl, fun h _ heq => Option.some.inj heq ▸ h⟩
    rw [hone]
    cases cls with
    | ftpClient => exact (decide_eq_false_iff_not).trans Nat.not_lt
    | sftpClient => exact (decide_eq_false_iff_not).trans Nat.not_lt
    | smbClient | nfsClient => exact iff_of_true rfl trivial
    | webDAVClient | archiveOrgClient | baseClient => simp

end EzRemote.Pool

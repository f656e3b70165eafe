import EzRemote.Lib.Lifetime
import EzRemote.Util
import EzRemote.Pool.Connect

/-!
# The resources of SFTPClient

`Connect`, `Get`, `GetRange` and `Quit` of `clients/sftpclient.cpp` as far as they
open and close sockets, sessions of libssh2 and remote files.  `none` is
undefined behaviour of the source: `strstr` of a null pointer, and a text that
`sprintf` does not fit into `response`.
-/

namespace EzRemote.Session

open Lifetime (Clean)

/-- What the client has to give back: a descriptor, a `LIBSSH2_SESSION`, the
`LIBSSH2_SFTP` made in it, a `LIBSSH2_SFTP_HANDLE`. -/
inductive SftpResource
  | socket (fd : Nat)
  | session (p : Nat)
  | sftpSession (p : Nat)
  | handle (p : Nat)
  deriving DecidableEq, Repr

abbrev SftpLog := List (Lifetime.Event SftpResource)

/-- The members of `SFTPClient`; `sock` is `none` where it holds -1 or the 0 of
the constructor. -/
structure SFTPClient where
  session : Option Nat := none
  sftpSession : Option Nat := none
  sock : Option Nat := none
  connected : Bool := false
  deriving DecidableEq, Repr

namespace SFTPClient

def isConnected (client : SFTPClient) : Bool := client.session.isSome && client.sftpSession.isSome

/-- `socket`, which may fail. -/
def opens (sock : Option Nat) : SftpLog := sock.toList.map fun fd => .opened (.socket fd)

/-- `close(sock)`; of -1 it does nothing. -/
def closes (sock : Option Nat) : SftpLog := sock.toList.map fun fd => .closed (.socket fd)

/-- `libssh2_sftp_init`, which may return null. -/
def inits (sftp : Option Nat) : SftpLog := sftp.toList.map fun p => .opened (.sftpSession p)

/-- `libssh2_sftp_shutdown` of a session that is not null. -/
def shutsDown (sftp : Option Nat) : SftpLog := sftp.toList.map fun p => .closed (.sftpSession p)

/-- How the calls of `Connect` come out, from the look-up of the host on. -/
structure ConnectCalls where
  resolved : Bool
  sock : Option Nat
  setRcvbuf : Int
  setSndbuf : Int
  connect : Int
  session : Option Nat
  handshake : Int
  userauthList : Option Bytes
  authPassword : Int
  publicKeyExists : Bool
  privateKeyExists : Bool
  authPublicKey : Int
  sftp : Option Nat
  deriving DecidableEq, Repr

/-- `strstr(text, needle) != NULL`. -/
def strstr (text needle : Bytes) : Bool := (find text needle 0).isSome

def useIdentity (password : Bytes) : Bool := (find password (bytes "file://") 0).isSome

/-- The message for a public key that is not there. -/
def publicKeyMissing (password : Bytes) : Bytes :=
  bytes "SSH public key " ++ cStr (password.drop 7 ++ bytes "/id_rsa.pub") ++ bytes " is not found"

/-- The message for a private key that is not there. -/
def privateKeyMissing (password : Bytes) : Bytes :=
  bytes "SSH private key " ++ cStr (password.drop 7 ++ bytes "/id_rsa") ++ bytes " is not found"

/-- `sprintf` of a text into `response`. -/
def respond (text : Bytes) : Option Unit := if text.length < 512 then some () else none

/-- The authentication part of `Connect`: whether it goes on to
`libssh2_sftp_init` or to `shutdown`. -/
def authenticate (password : Bytes) (calls : ConnectCalls) : Option Bool := do
  let userauthlist ← calls.userauthList
  if strstr userauthlist (bytes "password") ∧ useIdentity password = false then
    return calls.authPassword = 0
  else if strstr userauthlist (bytes "publickey") ∧ useIdentity password then
    if calls.publicKeyExists = false then
      respond (publicKeyMissing password)
      return false
    else if calls.privateKeyExists = false then
      respond (privateKeyMissing password)
      return false
    else return calls.authPublicKey = 0
  else return false

/-- `Connect` of a new client. -/
def connect (password : Bytes) (calls : ConnectCalls) : Option (Int × SFTPClient × SftpLog) :=
  let sock := calls.sock
  let opened := opens sock
  if calls.resolved = false then some (0, {}, [])
  else if calls.setRcvbuf = -1 then some (0, { sock := sock }, opened ++ closes sock)
  else if calls.setSndbuf = -1 then some (0, { sock := sock }, opened ++ closes sock)
  else if calls.connect ≠ 0 then some (0, { sock := sock }, opened)
  else
    match calls.session with
    | none => some (0, { sock := sock }, opened)
    | some session =>
      let log := opened ++ [.opened (.session session)]
      if calls.handshake ≠ 0 then some (0, { sock := sock, session := some session }, log)
      else
        (authenticate password calls).map fun authenticated =>
          if authenticated then
            (1, ⟨some session, calls.sftp, sock, true⟩, log ++ inits calls.sftp)
          -- shutdown
          else (0, {}, log ++ .closed (.session session) :: closes sock)

def quit (client : SFTPClient) : Int × SFTPClient × SftpLog :=
  let log := shutsDown client.sftpSession
  match client.session with
  | none => (1, { client with sftpSession := none, sock := none }, log)
  | some session =>
    (1, { connected := client.connected },
      log ++ .closed (.session session) :: closes client.sock)

/-- The read loop of `Get`; a read behind those listed finds the end of the
file. -/
def getLoop : List Int → Int
  | [] => 1
  | count :: reads => if count = 0 then 1 else if count < 0 then 0 else getLoop reads

/-- How the calls of `Get` come out: `libssh2_sftp_open`, whether the local file
opens, and the results of `libssh2_sftp_read`. -/
structure GetCalls where
  handle : Option Nat
  out : Bool
  reads : List Int
  deriving DecidableEq, Repr

/-- `Get`; both ends of the loop close the handle. -/
def get (calls : GetCalls) : Int × SftpLog :=
  match calls.handle with
  | none => (0, [])
  | some handle =>
    if calls.out = false then (0, [.opened (.handle handle)])
    else (getLoop calls.reads, [.opened (.handle handle), .closed (.handle handle)])

/-- The loop of `GetRange`.  A read returns at most what it is asked for. -/
def rangeLoop : List (Int × Bool) → Nat → Int
  | [], bytesRemaining => if 0 < bytesRemaining then 0 else 1
  | (rc, taken) :: reads, bytesRemaining =>
    if 0 < bytesRemaining then
      if rc < 0 then 0
      else if rc = 0 then 0
      else if taken = false then 0
      else rangeLoop reads (bytesRemaining - rc.toNat)
    else 1

/-- How the calls of `GetRange` come out; each read with what `sink.write` says
to its bytes. -/
structure RangeCalls where
  handle : Option Nat
  buff : Bool
  reads : List (Int × Bool)
  deriving DecidableEq, Repr

/-- `GetRange`; the handle is closed behind the `GetRange` of an open file, which
opens nothing. -/
def getRange (size : UInt64) (calls : RangeCalls) : Int × SftpLog :=
  match calls.handle with
  | none => (0, [])
  | some handle =>
    (if calls.buff = false then 0 else rangeLoop calls.reads size.toNat,
      [.opened (.handle handle), .closed (.handle handle)])

inductive Transfer
  | get (calls : GetCalls)
  | getRange (size : UInt64) (calls : RangeCalls)
  deriving DecidableEq, Repr

/-- A transfer depends on the client only through the calls of libssh2. -/
def Transfer.run : Transfer → Int × SftpLog
  | .get calls => SFTPClient.get calls
  | .getRange size calls => SFTPClient.getRange size calls

/-- `Connect`, some transfers and `Quit`: the log of each. -/
def life (password : Bytes) (calls : ConnectCalls) (transfers : List Transfer) :
    Option (SftpLog × List SftpLog × SftpLog) :=
  (connect password calls).map fun r =>
    (r.2.2, transfers.map fun t => t.run.2, r.2.1.quit.2.2)

/-- Every transfer closes the file that it opens, and after `Quit` nothing is
left. -/
def LeaksNothing (life : Option (SftpLog × List SftpLog × SftpLog)) : Prop :=
  ∃ connect transfers quit, life = some (connect, transfers, quit) ∧
    (∀ log ∈ transfers, Clean log) ∧ Clean (connect ++ transfers.flatten ++ quit)

/-- The handle does not outlive the transfer. -/
def Transfer.Closes : Transfer → Prop
  | .get calls => calls.handle = none ∨ calls.out = true
  | .getRange _ _ => True

instance : ∀ t : Transfer, Decidable t.Closes
  | .get _ => inferInstanceAs (Decidable (_ ∨ _))
  | .getRange _ _ => inferInstanceAs (Decidable True)

theorem clean_run_iff (t : Transfer) : Clean t.run.2 ↔ t.Closes := by
  cases t with
  | get calls =>
    obtain ⟨handle, out, reads⟩ := calls
    cases handle with
    | none => exact iff_of_true rfl (.inl rfl)
    | some handle =>
      cases out with
      | false => exact iff_of_false nofun (fun h => by rcases h with h | h <;> cases h)
      | true => exact iff_of_true (by simp [Transfer.run, get, Clean, Lifetime.after]) (.inr rfl)
  | getRange size calls =>
    obtain ⟨handle, buff, reads⟩ := calls
    cases handle with
    | none => exact iff_of_true rfl trivial
    | some handle =>
      exact iff_of_true (by simp [Transfer.run, getRange, Clean, Lifetime.after]) trivial

theorem after_run {t : Transfer} (h : t.Closes) (alive : List SftpResource) :
    Lifetime.after alive t.run.2 = some alive := by
  have hpair : ∀ handle : Nat, Lifetime.after alive
      [.opened (.handle handle), .closed (.handle handle)] = some alive := by
    intro handle
    simp [Lifetime.after]
  cases t with
  | get calls =>
    obtain ⟨handle, out, reads⟩ := calls
    cases handle with
    | none => rfl
    | some handle =>
      have hout : out = true := h.resolve_left (Option.some_ne_none handle)
      rw [hout]
      exact hpair handle
  | getRange size calls =>
    obtain ⟨handle, buff, reads⟩ := calls
    cases handle with
    | none => rfl
    | some handle => exact hpair handle

/-- The message about a key that is not there fits `response`. -/
def ConnectCalls.MessageFits (password : Bytes) (calls : ConnectCalls) : Prop :=
  useIdentity password = true →
    if calls.publicKeyExists = false then (publicKeyMissing password).length < 512
    else calls.privateKeyExists = false → (privateKeyMissing password).length < 512

instance (password : Bytes) (calls : ConnectCalls) : Decidable (calls.MessageFits password) :=
  inferInstanceAs (Decidable (_ → ite _ _ _))

theorem authenticate_isSome_iff (password : Bytes) (calls : ConnectCalls) :
    (authenticate password calls).isSome ↔ ∃ list, calls.userauthList = some list ∧
      (strstr list (bytes "publickey") → calls.MessageFits password) := by
  have hrespond : ∀ text : Bytes, ((respond text).bind fun _ => some false).isSome ↔
      text.length < 512 := by
    intro text
    unfold respond
    by_cases hlen : text.length < 512
    · rw [if_pos hlen]
      exact iff_of_true rfl hlen
    · rw [if_neg hlen]
      exact iff_of_false nofun hlen
  unfold authenticate ConnectCalls.MessageFits
  cases calls.userauthList with
  | none => simp
  | some list =>
    simp only [Option.some.injEq, exists_eq_left']
    show (ite _ _ _ : Option Bool).isSome ↔ _
    by_cases hidentity : useIdentity password = true
    · rw [if_neg (by simp [hidentity])]
      by_cases hkey : strstr list (bytes "publickey") = true
      · rw [if_pos ⟨hkey, hidentity⟩]
        simp only [hkey, hidentity, forall_const]
        by_cases hpublic : calls.publicKeyExists = false
        · rw [if_pos hpublic, if_pos hpublic]
          exact hrespond _
        · rw [if_neg hpublic, if_neg hpublic]
          by_cases hprivate : calls.privateKeyExists = false
          · rw [if_pos hprivate]
            exact (hrespond _).trans ⟨fun h _ => h, fun h => h hprivate⟩
          · rw [if_neg hprivate]
            exact iff_of_true rfl fun h => absurd h hprivate
      · rw [if_neg (fun h => hkey h.1)]
        exact iff_of_true rfl fun h => absurd h hkey
    · refine iff_of_true ?_ fun _ h => absurd h hidentity
      split
      · rfl
      · rw [if_neg (fun h => hidentity h.2)]
        rfl

/-- The outcomes that `Connect` cleans up after, or leaves to `Quit`: where a
socket is open, `connect` succeeds and there is a session; where the handshake
succeeds, there is a list of methods and the message fits. -/
def ConnectCalls.Kept (password : Bytes) (calls : ConnectCalls) : Prop :=
  calls.resolved = true → calls.setRcvbuf ≠ -1 → calls.setSndbuf ≠ -1 →
    (calls.sock.isSome → calls.connect = 0 ∧ calls.session.isSome) ∧
      (calls.connect = 0 → calls.session.isSome → calls.handshake = 0 →
        ∃ list, calls.userauthList = some list ∧
          (strstr list (bytes "publickey") → calls.MessageFits password))

/-- What `Connect` leaves, `Quit` gives back. -/
def Settled (r : Int × SFTPClient × SftpLog) : Prop := Clean (r.2.2 ++ r.2.1.quit.2.2)

theorem settled_sock_iff (ret : Int) (sock : Option Nat) :
    Settled (ret, { sock := sock }, opens sock) ↔ sock = none := by
  cases sock with
  | none => exact iff_of_true rfl rfl
  | some fd => exact iff_of_false nofun nofun

theorem settled_closed (ret : Int) (sock : Option Nat) :
    Settled (ret, { sock := sock }, opens sock ++ closes sock) := by
  cases sock with
  | none => rfl
  | some fd => simp [Settled, Clean, quit, opens, closes, shutsDown, Lifetime.after]

theorem settled_session (ret : Int) (session : Nat) (sftp sock : Option Nat) (connected : Bool) :
    Settled (ret, ⟨some session, sftp, sock, connected⟩,
      opens sock ++ [.opened (.session session)] ++ inits sftp) := by
  cases sftp <;> cases sock <;>
    simp [Settled, Clean, quit, opens, closes, inits, shutsDown, Lifetime.after]

theorem settled_shutdown (ret : Int) (session : Nat) (sock : Option Nat) :
    Settled (ret, {}, opens sock ++ [.opened (.session session)] ++
      .closed (.session session) :: closes sock) := by
  cases sock <;> simp [Settled, Clean, quit, opens, closes, shutsDown, Lifetime.after]

theorem settled_unauthenticated (ret : Int) (session : Nat) (sock : Option Nat) :
    Settled (ret, { sock := sock, session := some session },
      opens sock ++ [.opened (.session session)]) := by
  simpa [inits] using settled_session ret session none sock false

/-- `Connect` is defined and settled exactly for the outcomes that are kept. -/
theorem connect_settled_iff (password : Bytes) (calls : ConnectCalls) :
    (∃ r, connect password calls = some r ∧ Settled r) ↔ calls.Kept password := by
  unfold connect ConnectCalls.Kept
  dsimp only
  rw [← authenticate_isSome_iff]
  by_cases hresolved : calls.resolved = false
  · rw [if_pos hresolved]
    exact iff_of_true ⟨_, rfl, rfl⟩ fun h => nomatch hresolved.symm.trans h
  rw [if_neg hresolved]
  have hresolved' : calls.resolved = true := Bool.of_not_eq_false hresolved
  by_cases hrcv : calls.setRcvbuf = -1
  · rw [if_pos hrcv]
    exact iff_of_true ⟨_, rfl, settled_closed _ _⟩ fun _ h => absurd hrcv h
  rw [if_neg hrcv]
  by_cases hsnd : calls.setSndbuf = -1
  · rw [if_pos hsnd]
    exact iff_of_true ⟨_, rfl, settled_closed _ _⟩ fun _ _ h => absurd hsnd h
  rw [if_neg hsnd]
  simp only [hresolved', hrcv, hsnd, ne_eq, not_false_eq_true, forall_const]
  by_cases hconnect : calls.connect = 0
  case neg =>
    -- the exit that forgets the socket
    rw [if_pos hconnect]
    simp only [Option.some.injEq, exists_eq_left', settled_sock_iff, hconnect, false_and,
      imp_false, false_imp_iff, and_true]
    cases calls.sock <;> simp
  rw [if_neg (not_not.mpr hconnect)]
  cases hsession : calls.session with
  | none =>
    simp only [Option.some.injEq, exists_eq_left', settled_sock_iff, hconnect]
    cases calls.sock <;> simp
  | some session =>
    dsimp only
    by_cases hhandshake : calls.handshake = 0
    case neg =>
      rw [if_pos hhandshake]
      exact iff_of_true ⟨_, rfl, settled_unauthenticated _ _ _⟩
        ⟨fun _ => ⟨hconnect, rfl⟩, fun _ _ h => absurd h hhandshake⟩
    rw [if_neg (not_not.mpr hhandshake)]
    cases hauth : authenticate password calls with
    | none => simp [hconnect, hhandshake]
    | some authenticated =>
      refine iff_of_true ?_ ⟨fun _ => ⟨hconnect, rfl⟩, fun _ _ _ => rfl⟩
      cases authenticated with
      | false => exact ⟨_, rfl, settled_shutdown _ _ _⟩
      | true => exact ⟨_, rfl, settled_session _ _ _ _ _⟩

/-- A client leaks nothing over its life exactly where the outcomes of `Connect`
are kept and no `Get` opens a remote file without a local one. -/
theorem leaks_nothing_iff (password : Bytes) (calls : ConnectCalls) (transfers : List Transfer) :
    LeaksNothing (life password calls transfers) ↔
      calls.Kept password ∧ ∀ t ∈ transfers, t.Closes := by
  have hclean : (∀ log ∈ transfers.map fun t => t.run.2, Clean log) ↔ ∀ t ∈ transfers, t.Closes := by
    rw [List.forall_mem_map]
    exact forall₂_congr fun t _ => clean_run_iff t
  -- transfers that close their files are invisible between the other two
  have hmiddle : (∀ t ∈ transfers, t.Closes) → ∀ connect quit : SftpLog,
      Clean (connect ++ (transfers.map fun t => t.run.2).flatten ++ quit) ↔
        Clean (connect ++ quit) := by
    intro hcloses connect quit
    unfold Clean
    rw [List.append_assoc, Lifetime.after_append, Lifetime.after_append]
    cases Lifetime.after [] connect with
    | none => rfl
    | some alive =>
      rw [Option.bind_some, Option.bind_some, Lifetime.after_append_of]
      apply Lifetime.after_flatten
      rw [List.forall_mem_map]
      exact fun t ht => after_run (hcloses t ht) alive
  rw [← connect_settled_iff]
  unfold LeaksNothing life
  constructor
  · rintro ⟨connect, logs, quit, heq, hlogs, hall⟩
    obtain ⟨r, hr, hlife⟩ := Option.map_eq_some_iff.mp heq
    cases hlife
    have hcloses := hclean.mp hlogs
    exact ⟨⟨r, hr, (hmiddle hcloses _ _).mp hall⟩, hcloses⟩
  · rintro ⟨⟨r, hr, hsettled⟩, hcloses⟩
    rw [hr]
    exact ⟨_, _, _, rfl, hclean.mpr hcloses, (hmiddle hcloses _ _).mpr hsettled⟩

/-- A login with a password, on a server where everything succeeds. -/
def passwordLogin : ConnectCalls :=
  { resolved := true, sock := some 3, setRcvbuf := 0, setSndbuf := 0, connect := 0
    session := some 1, handshake := 0, userauthList := some (bytes "publickey,password")
    authPassword := 0, publicKeyExists := false, privateKeyExists := false, authPublicKey := 0
    sftp := some 1 }

/-- An unreachable host keeps its socket, and a local file that cannot be made
keeps the remote one. -/
theorem leaks_nothing_iff_refused :
    ¬ LeaksNothing (life (bytes "p") { passwordLogin with connect := -1 } []) ∧
      ¬ LeaksNothing (life (bytes "p") passwordLogin [.get ⟨some 5, false, []⟩]) := by
  constructor
  · rintro ⟨connect, logs, quit, heq, -, hall⟩
    cases heq
    exact absurd hall (by decide)
  · rintro ⟨connect, logs, quit, heq, hlogs, -⟩
    have hmem : (Lifetime.Event.opened (.handle 5) :: [] : SftpLog) ∈ logs := by
      cases heq
      exact List.mem_cons_self
    exact absurd (hlogs _ hmem) (by decide)

end SFTPClient

end EzRemote.Session

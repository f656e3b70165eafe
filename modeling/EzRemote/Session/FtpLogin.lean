import EzRemote.Ftp.Commands
import EzRemote.Ftp.Frame
import EzRemote.Ftp.Readline
import EzRemote.Ftp.Segments

/-!
# The login of FtpClient

`FtpClient::Connect` behind the parsing of its url, on servers that send anything,
and what it comes to on the replies of a server that keeps to their form.
-/

namespace EzRemote.Session

open Ftp (Recv Reply Carries Buffered ftpClient crlf)

/-- How the calls of `FtpClient::Connect` come out up to the first reply, which
`greeting` brings, and the server behind it. -/
structure FtpCalls where
  resolved : Bool
  setsockopt : Int
  connect : Int
  greeting : List Recv
  server : Ftp.Server

/-- The host has an address, and the connection is made. -/
def FtpCalls.Reached (calls : FtpCalls) : Prop :=
  calls.resolved = true ∧ calls.setsockopt ≠ -1 ∧ calls.connect ≠ -1

instance (calls : FtpCalls) : Decidable calls.Reached := inferInstanceAs (Decidable (_ ∧ _))

/-- `FtpClient::Connect` of a new client behind the parsing of the url. -/
def ftpLogin (calls : FtpCalls) (user pass : Bytes) : Option (Int × Ftp.FtpHandle) :=
  if calls.resolved = false then some (0, ftpClient)
  else if calls.setsockopt = -1 then some (0, ftpClient)
  else if calls.connect = -1 then some (0, ftpClient)
  else
    (Ftp.connect calls.server user pass ⟨ftpClient, calls.greeting, []⟩).map
      fun r => (r.1, r.2.h)

/-- The command that names the user. -/
def userCommand (user : Bytes) : Bytes :=
  if 0 < user.length then bytes "USER " ++ user else bytes "USER anonymous"

def passCommand (pass : Bytes) : Bytes := bytes "PASS " ++ pass

/-- The handle when the connection is made. -/
def greeted (h : Ftp.FtpHandle) : Ftp.FtpHandle :=
  { h with
    dir := .control, offset := 0, response := List.replicate Ftp.responseSize 0, handle := true }

/-- The server lets the user in, by what the calls of `Connect` make of whatever it
sends. -/
inductive Admits (server : Ftp.Server) (user pass : Bytes) (s : Ftp.Session) : Prop
  | named {ok : Int} {s₁ s₂ : Ftp.Session} : Ftp.readResponse (bytes "2") s = some (ok, s₁) → ok ≠ 0 →
      Ftp.ftpSendCmd server (userCommand user) (bytes "3") s₁ = some (0, s₂) →
      s₂.h.response.headD 0 = 50 → Admits server user pass s
  | passed {ok named ret : Int} {s₁ s₂ s₃ : Ftp.Session} :
      Ftp.readResponse (bytes "2") s = some (ok, s₁) → ok ≠ 0 →
      Ftp.ftpSendCmd server (userCommand user) (bytes "3") s₁ = some (named, s₂) → named ≠ 0 →
      Ftp.ftpSendCmd server (passCommand pass) (bytes "2") s₂ = some (ret, s₃) → ret ≠ 0 →
      Admits server user pass s

theorem connected_framed (b : Bool) : Ftp.Framed fun s => s.h.isConnected = b :=
  Ftp.framed_of_kept (P := fun h => h.isConnected = b) fun _ _ hkept h =>
    (congrArg Ftp.FtpHandle.isConnected hkept).symm.trans h

theorem modifyHandle_disconnected {f : Ftp.FtpHandle → Ftp.FtpHandle}
    (hf : ∀ h, h.isConnected = false → (f h).isConnected = false) :
    Keeps (fun s => s.h.isConnected = false) (Ftp.modifyHandle f) := by
  apply Keeps.modify
  intro s h
  exact hf s.h h

theorem quit_disconnected (server : Ftp.Server) :
    Keeps (fun s => s.h.isConnected = false) (Ftp.quit server) := by
  apply Keeps.get_bind
  intro s
  refine Keeps.ite ?_ ?_
  · refine Keeps.bind (modifyHandle_disconnected ?_) fun _ => Keeps.pure _
    exact fun _ h => h
  · apply ((connected_framed false).ftpSendCmd_keeps server _ _).bind
    intro _
    refine Keeps.bind (modifyHandle_disconnected ?_) fun _ => Keeps.pure _
    exact fun _ _ => rfl

theorem failedLogin_disconnected (server : Ftp.Server) (ret : Int) :
    Keeps (fun s => s.h.isConnected = false) (do
      let _ ← Ftp.quit server
      Ftp.modifyHandle (·.setResponse (bytes "Failed login"))
      return ret) := by
  apply (quit_disconnected server).bind
  intro _
  refine Keeps.bind (modifyHandle_disconnected ?_) fun _ => Keeps.pure _
  exact fun _ h => h

/-- `Connect` sets the flag exactly where the server lets the user in, and then
does not return 0. -/
theorem connect_isConnected {server : Ftp.Server} {user pass : Bytes} {s s' : Ftp.Session} {ret : Int}
    (h0 : s.h.isConnected = false) (h : Ftp.connect server user pass s = some (ret, s')) :
    (s'.h.isConnected = true ↔ Admits server user pass { s with h := greeted s.h }) ∧
      (s'.h.isConnected = true → ret ≠ 0) := by
  have hread := (connected_framed false).readline
  -- a run that ends disconnected, where nothing lets the user in
  have hfails : s'.h.isConnected = false → ¬ Admits server user pass { s with h := greeted s.h } →
      (s'.h.isConnected = true ↔ Admits server user pass { s with h := greeted s.h }) ∧
        (s'.h.isConnected = true → ret ≠ 0) := by
    intro hflag hno
    rw [hflag]
    exact ⟨iff_of_false Bool.false_ne_true hno, fun h => nomatch h⟩
  unfold Ftp.connect at h
  obtain ⟨_, s₀, hs₀, h⟩ := bind_eq_some h
  cases hs₀
  obtain ⟨ok, s₁, hgreeting, h⟩ := bind_eq_some h
  change Ftp.readResponse (bytes "2") { s with h := greeted s.h } = some (ok, s₁) at hgreeting
  have h₁ : s₁.h.isConnected = false :=
    Ftp.readResponse_keeps hread _ { s with h := greeted s.h } _ _ h0 hgreeting
  by_cases hok : ok = 0
  · rw [if_pos hok] at h
    obtain ⟨_, s₂, hs₂, h⟩ := bind_eq_some h
    cases hs₂
    cases h
    refine hfails h₁ ?_
    rintro (⟨hgreeting', hne, -, -⟩ | ⟨hgreeting', hne, -, -, -, -⟩) <;>
      · cases hgreeting.symm.trans hgreeting'
        exact hne hok
  rw [if_neg hok] at h
  obtain ⟨named, s₂, hnamed, h⟩ := bind_eq_some h
  have h₂ : s₂.h.isConnected = false :=
    (connected_framed false).ftpSendCmd_keeps _ _ _ _ _ _ h₁ hnamed
  by_cases hn : named = 0
  · rw [if_pos hn] at h
    obtain ⟨_, _, hs₃, h⟩ := bind_eq_some h
    cases hs₃
    by_cases hdigit : s₂.h.response.headD 0 = 50
    · rw [if_pos hdigit] at h
      obtain ⟨_, s₃, hs₃, h⟩ := bind_eq_some h
      cases hs₃
      cases h
      exact ⟨iff_of_true rfl (.named hgreeting hok (hn ▸ hnamed) hdigit), fun _ => by decide⟩
    · rw [if_neg hdigit] at h
      refine hfails (failedLogin_disconnected server 0 _ _ _ h₂ h) ?_
      rintro (⟨hgreeting', -, hnamed', hdigit'⟩ | ⟨hgreeting', -, hnamed', hne, -, -⟩) <;>
        · cases hgreeting.symm.trans hgreeting'
          cases hnamed.symm.trans hnamed'
          first | exact hdigit hdigit' | exact hne hn
  rw [if_neg hn] at h
  obtain ⟨passed, s₃, hpassed, h⟩ := bind_eq_some h
  have h₃ : s₃.h.isConnected = false :=
    (connected_framed false).ftpSendCmd_keeps _ _ _ _ _ _ h₂ hpassed
  by_cases hp : passed = 0
  · rw [if_neg (not_not.mpr hp)] at h
    refine hfails (failedLogin_disconnected server passed _ _ _ h₃ h) ?_
    rintro (⟨hgreeting', -, hnamed', -⟩ | ⟨hgreeting', -, hnamed', -, hpassed', hne⟩) <;>
      · cases hgreeting.symm.trans hgreeting'
        cases hnamed.symm.trans hnamed'
        first | exact hn rfl | (cases hpassed.symm.trans hpassed'; exact hne hp)
  · rw [if_pos hp] at h
    obtain ⟨_, s₄, hs₄, h⟩ := bind_eq_some h
    cases hs₄
    cases h
    exact ⟨iff_of_true rfl (.passed hgreeting hok hnamed hn hpassed hp), fun _ => hp⟩

theorem ftpLogin_of_reached {calls : FtpCalls} (h : calls.Reached) (user pass : Bytes) :
    ftpLogin calls user pass =
      (Ftp.connect calls.server user pass ⟨ftpClient, calls.greeting, []⟩).map
        fun r => (r.1, r.2.h) := by
  obtain ⟨hresolved, hopt, hconnect⟩ := h
  unfold ftpLogin
  rw [if_neg (by rw [hresolved]; exact Bool.noConfusion), if_neg hopt, if_neg hconnect]

theorem ftpLogin_of_not_reached {calls : FtpCalls} (h : ¬ calls.Reached) (user pass : Bytes) :
    ftpLogin calls user pass = some (0, ftpClient) := by
  unfold ftpLogin
  by_cases hresolved : calls.resolved = false
  · exact if_pos hresolved
  rw [if_neg hresolved]
  by_cases hopt : calls.setsockopt = -1
  · exact if_pos hopt
  rw [if_neg hopt, if_pos]
  by_contra hconnect
  exact h ⟨Bool.of_not_eq_false hresolved, hopt, hconnect⟩

theorem ftpLogin_isConnected {calls : FtpCalls} {user pass : Bytes} {ret : Int}
    {h : Ftp.FtpHandle} (heq : ftpLogin calls user pass = some (ret, h)) :
    (h.isConnected = true ↔ calls.Reached ∧
        Admits calls.server user pass ⟨greeted ftpClient, calls.greeting, []⟩) ∧
      (h.isConnected = true → ret ≠ 0) := by
  by_cases hreached : calls.Reached
  · rw [ftpLogin_of_reached hreached] at heq
    obtain ⟨r, hrun, hr⟩ := Option.map_eq_some_iff.mp heq
    cases hr
    have hflag := connect_isConnected (s := ⟨ftpClient, calls.greeting, []⟩) rfl hrun
    rwa [and_iff_right hreached]
  · rw [ftpLogin_of_not_reached hreached] at heq
    cases heq
    exact ⟨iff_of_false Bool.false_ne_true fun h => hreached h.1, fun h => nomatch h⟩

/-- What a server says: its greeting, and its answer to a line.  No reply is a
connection that ends or breaks, and an outer `none` is a `send` that fails. -/
structure FtpReplies where
  greeting : Option Reply
  answer : Bytes → Option (Option Reply)

namespace FtpReplies

variable (replies : FtpReplies)

/-- What comes back for a command. -/
def replyTo (cmd : Bytes) : Option Reply := (replies.answer (cStr cmd ++ crlf)).join

/-- The server lets the user in.  Where nothing comes back for `USER`, `response`
still holds the greeting. -/
inductive LetIn (user pass : Bytes) : Prop
  | unanswered {greeting : Reply} : replies.greeting = some greeting → greeting.digit = 50 →
      replies.replyTo (userCommand user) = none → LetIn user pass
  | named {greeting named : Reply} : replies.greeting = some greeting → greeting.digit = 50 →
      replies.replyTo (userCommand user) = some named → named.digit = 50 → LetIn user pass
  | passed {greeting named passed : Reply} : replies.greeting = some greeting →
      greeting.digit = 50 → replies.replyTo (userCommand user) = some named →
      named.digit = 51 → replies.replyTo (passCommand pass) = some passed →
      passed.digit = 50 → LetIn user pass

end FtpReplies

/-- The text of a command and its line end fit the buffer of `FtpSendCmd`. -/
def TextFits (cmd : Bytes) : Prop := (cStr cmd ++ crlf).length < 512

instance (cmd : Bytes) : Decidable (TextFits cmd) := inferInstanceAs (Decidable (_ < _))

/-- What the login comes to on these replies: whether the client is connected, and
`none` where a command overflows the buffer that it is formatted in. -/
def FtpReplies.login (replies : FtpReplies) (user pass : Bytes) : Option Bool :=
  match replies.greeting with
  | none => some false
  | some greeting =>
    if greeting.digit ≠ 50 then some false
    else if ¬ TextFits (userCommand user) then none
    else
      match replies.replyTo (userCommand user) with
      | none => some true
      | some named =>
        if named.digit ≠ 51 then some (named.digit = 50)
        else if ¬ TextFits (passCommand pass) then none
        else some ((replies.replyTo (passCommand pass)).any fun r => r.digit = 50)

/-- What `recv` returns until a reply is there, cut anywhere, or the connection is
closed or broken. -/
inductive Brings : Option Reply → List Recv → Prop
  | reply {r : Reply} {segments : List Recv} : Ftp.Coded r → r.Fits → Carries segments r.encode →
      Brings (some r) segments
  | ended : Brings none []
  | closed : Brings none [.data []]
  | broken : Brings none [.error]

/-- The server behind the calls says nothing but these replies. -/
structure FtpCalls.Says (calls : FtpCalls) (replies : FtpReplies) : Prop where
  greeting : Brings replies.greeting calls.greeting
  answer : ∀ trace line, Option.Rel Brings (replies.answer line) (calls.server trace line)

/-- An open control connection with nothing left to read. -/
structure Ready (s : Ftp.Session) : Prop where
  buffered : Buffered [] s.h s.wire
  handle : s.h.handle = true
  dir : s.h.dir = .control

/-- The first byte of `response` once a reply may have come. -/
def heard (s : Ftp.Session) : Option Reply → UInt8
  | none => s.h.response.headD 0
  | some r => r.digit

theorem Ready.wire_nil {s : Ftp.Session} (hs : Ready s) : s.wire = [] := by
  obtain ⟨⟨-, hstream, htext⟩, -, -⟩ := hs
  cases hw : s.wire with
  | nil => rfl
  | cons r wire =>
    obtain ⟨b, rfl, hne, -⟩ := hstream r (by rw [hw]; exact List.mem_cons_self)
    rw [hw] at htext
    exact absurd (List.append_eq_nil_iff.mp (List.append_eq_nil_iff.mp htext).2).1 hne

theorem Ready.cavail {s : Ftp.Session} (hs : Ready s) : s.h.cavail = 0 := by
  rw [← hs.buffered.balanced.length_unread, (List.append_eq_nil_iff.mp hs.buffered.text).1]
  rfl

theorem readlinePass_empty {h : Ftp.FtpHandle} (h0 : h.cavail = 0) :
    Ftp.readlinePass Ftp.responseSize 0 0 h = some (.more Ftp.responseSize 0 0 h.rewind) := by
  unfold Ftp.readlinePass Ftp.readlineRest
  rw [if_neg (by omega), if_neg (by decide)]

theorem Ready.readline_ended {s : Ftp.Session} (hs : Ready s) {segments : List Recv}
    (hb : Brings none segments) :
    Ftp.readline { s with wire := segments } =
      some (-1, { s with h := s.h.emptied, wire := [] }) := by
  have hrewind : s.h.rewind = s.h.emptied := hs.buffered.balanced.rewind_eq hs.cavail
  have hpass := readlinePass_empty hs.cavail
  rw [hrewind] at hpass
  have heof : Ftp.readlineEof Ftp.responseSize 0 0 s.h.emptied [] =
      some (-1, s.h.emptied, []) := by
    unfold Ftp.readlineEof
    rw [readlinePass_empty rfl]
    rfl
  have hloop : Ftp.readlineLoop segments Ftp.responseSize 0 0 s.h =
      some (-1, s.h.emptied, []) := by
    cases hb <;> (unfold Ftp.readlineLoop; rw [hpass])
    · exact heof
    · exact heof
  unfold Ftp.readline
  dsimp only
  rw [hloop]
  rfl

theorem Ready.emptied {s : Ftp.Session} (hs : Ready s) :
    Ready { s with h := s.h.emptied, wire := [] } where
  buffered := ⟨⟨rfl, hs.buffered.balanced.response⟩, (fun _ h => nomatch h), rfl⟩
  handle := hs.handle
  dir := hs.dir

theorem last_ne_nil {r : Reply} (h : Ftp.Coded r) : r.getLastD [] ≠ [] := by
  cases h with
  | single _ hlen _ =>
    rintro rfl
    exact absurd hlen (by decide)
  | @multi first last middle _ _ hdash _ hlast =>
    rw [List.getLastD_eq_getLast?, ← List.cons_append, List.getLast?_concat]
    exact (Ftp.head_of_code (List.getElem?_eq_some_iff.mp hdash).1 hlast).1

theorem Ready.readResponse {s : Ftp.Session} (hs : Ready s) {r : Option Reply}
    {segments : List Recv} (hb : Brings r segments) (c : Bytes) :
    ∃ s', Ftp.readResponse c { s with wire := segments } =
        some (if r.any fun r => r.digit ∈ c then 1 else 0, s') ∧
      Ready s' ∧ s'.h.response.headD 0 = heard s r := by
  cases r with
  | none =>
    refine ⟨_, ?_, hs.emptied, rfl⟩
    unfold Ftp.readResponse
    rw [bind_of_some (hs.readline_ended hb)]
    rfl
  | some r =>
    cases hb with
    | reply hcoded hfit hcarries =>
      have hbuf : Buffered (r.encode ++ []) s.h segments := by
        rw [List.append_nil]
        refine ⟨hs.buffered.balanced, hcarries.stream, ?_⟩
        rw [(List.append_eq_nil_iff.mp hs.buffered.text).1, hcarries.text]
        rfl
      obtain ⟨g, wire, hread, hg, hcore, hresp⟩ :=
        Ftp.readResponse_coded (s := { s with wire := segments }) hbuf hcoded hfit c
      refine ⟨⟨g, wire, r.seen.reverse ++ s.trace⟩, ?_, ⟨hg, ?_, ?_⟩, ?_⟩
      · rw [hread, Option.any_some]
        simp only [decide_eq_true_eq]
      · exact (congrArg Ftp.FtpHandle.Core.handle hcore).trans hs.handle
      · exact (congrArg Ftp.FtpHandle.Core.dir hcore).trans hs.dir
      · exact (Ftp.head_response (last_ne_nil hcoded) hresp).trans hcoded.last.1.symm

theorem send_none {server : Ftp.Server} {s : Ftp.Session} {line : Bytes}
    (h : server s.trace line = none) :
    Ftp.send server line s = some (false, { s with trace := .command line false :: s.trace }) := by
  unfold Ftp.send
  rw [get_bind_eq, h]
  rfl

theorem send_some {server : Ftp.Server} {s : Ftp.Session} {line : Bytes} {answer : List Recv}
    (h : server s.trace line = some answer) :
    Ftp.send server line s =
      some (true,
        { s with wire := s.wire ++ answer, trace := .command line true :: s.trace }) := by
  unfold Ftp.send
  rw [get_bind_eq, h]
  rfl

theorem Ready.emit {s : Ftp.Session} (hs : Ready s) (e : Ftp.Event) :
    Ready { s with trace := e :: s.trace } :=
  ⟨hs.buffered, hs.handle, hs.dir⟩

theorem Ready.ftpSendCmd {calls : FtpCalls} {replies : FtpReplies} (hspoke : calls.Says replies)
    {s : Ftp.Session} (hs : Ready s) {cmd : Bytes} (hfit : TextFits cmd) (expected : Bytes) :
    ∃ s', Ftp.ftpSendCmd calls.server cmd expected s =
        some (if (replies.replyTo cmd).any fun r => r.digit ∈ expected then 1 else 0, s') ∧
      Ready s' ∧ s'.h.response.headD 0 = heard s (replies.replyTo cmd) := by
  have hanswer := hspoke.answer s.trace (cStr cmd ++ crlf)
  unfold Ftp.ftpSendCmd FtpReplies.replyTo
  rw [get_bind_eq, hs.handle, if_neg Bool.noConfusion, hs.dir, if_neg (not_not.mpr rfl),
    if_neg (Nat.not_le.mpr hfit)]
  cases hsent : calls.server s.trace (cStr cmd ++ crlf) with
  | none =>
    rw [hsent] at hanswer
    cases hreply : replies.answer (cStr cmd ++ crlf) with
    | some r =>
      rw [hreply] at hanswer
      cases hanswer
    | none => exact ⟨_, bind_of_some (send_none hsent), hs.emit _, rfl⟩
  | some segments =>
    rw [hsent] at hanswer
    cases hreply : replies.answer (cStr cmd ++ crlf) with
    | none =>
      rw [hreply] at hanswer
      cases hanswer
    | some r =>
      rw [hreply] at hanswer
      cases hanswer with
      | some hbrings =>
        obtain ⟨s', hread, hready, hhead⟩ :=
          (hs.emit (.command (cStr cmd ++ crlf) true)).readResponse hbrings expected
        refine ⟨s', ?_, hready, hhead⟩
        rw [bind_of_some (send_some hsent), hs.wire_nil]
        exact hread

theorem Ready.ftpSendCmd_overflow {server : Ftp.Server} {s : Ftp.Session} (hs : Ready s)
    {cmd : Bytes} (hfit : ¬ TextFits cmd) (expected : Bytes) :
    Ftp.ftpSendCmd server cmd expected s = none := by
  unfold Ftp.ftpSendCmd
  rw [get_bind_eq, hs.handle, if_neg Bool.noConfusion, hs.dir, if_neg (not_not.mpr rfl),
    if_pos (Nat.not_lt.mp hfit)]
  rfl

theorem Ready.failedLogin {calls : FtpCalls} {replies : FtpReplies} (hspoke : calls.Says replies)
    {s : Ftp.Session} (hs : Ready s) (hflag : s.h.isConnected = false) (ret : Int) :
    ∃ s', (do
        let _ ← Ftp.quit calls.server
        Ftp.modifyHandle (·.setResponse (bytes "Failed login"))
        return ret : Ftp.Run Int) s = some (ret, s') ∧ s'.h.isConnected = false := by
  have hquit : ∃ s', Ftp.quit calls.server s = some (1, s') := by
    obtain ⟨s₁, hsend, -, -⟩ := hs.ftpSendCmd hspoke (show TextFits (bytes "QUIT") by decide) (bytes "2")
    unfold Ftp.quit
    rw [get_bind_eq, hs.handle, if_neg Bool.noConfusion, bind_of_some hsend]
    exact ⟨_, rfl⟩
  obtain ⟨s₁, hs₁⟩ := hquit
  refine ⟨_, bind_of_some hs₁, ?_⟩
  exact failedLogin_disconnected calls.server ret s ret _ hflag (bind_of_some hs₁)

/-- `Connect` from `PASS` on. -/
def sendPass (server : Ftp.Server) (pass : Bytes) : Ftp.Run Int := do
  let ret ← Ftp.ftpSendCmd server (passCommand pass) (bytes "2")
  if ret ≠ 0 then do
    Ftp.modifyHandle fun h => { h with isConnected := true }
    return ret
  else do
    let _ ← Ftp.quit server
    Ftp.modifyHandle (·.setResponse (bytes "Failed login"))
    return ret

/-- `Connect` from `USER` on. -/
def sendUser (server : Ftp.Server) (user pass : Bytes) : Ftp.Run Int := do
  let named ← Ftp.ftpSendCmd server (userCommand user) (bytes "3")
  if named = 0 then do
    let s ← MonadState.get
    if s.h.response.headD 0 = 50 then do
      Ftp.modifyHandle fun h => { h with isConnected := true }
      return 1
    else do
      let _ ← Ftp.quit server
      Ftp.modifyHandle (·.setResponse (bytes "Failed login"))
      return 0
  else sendPass server pass

theorem connect_of_greeting {server : Ftp.Server} {user pass : Bytes} {s s₁ : Ftp.Session} {ok : Int}
    (h : Ftp.readResponse (bytes "2") { s with h := greeted s.h } = some (ok, s₁)) :
    Ftp.connect server user pass s =
      if ok = 0 then some (0, { s₁ with h := { s₁.h with handle := false } })
      else sendUser server user pass s₁ := by
  unfold Ftp.connect
  have hstart : Ftp.modifyHandle greeted s = some ((), { s with h := greeted s.h }) := rfl
  refine (bind_of_some hstart).trans ?_
  rw [bind_of_some h]
  by_cases hok : ok = 0
  · rw [if_pos hok, if_pos hok]
    rfl
  · rw [if_neg hok, if_neg hok]
    rfl

section Says

variable {calls : FtpCalls} {replies : FtpReplies} (hspoke : calls.Says replies)
  {s : Ftp.Session} (hs : Ready s) (hflag : s.h.isConnected = false)
include hspoke hs hflag

theorem sendPass_refines (pass : Bytes) :
    (sendPass calls.server pass s).map (fun r => r.2.h.isConnected) =
      if ¬ TextFits (passCommand pass) then none
      else some ((replies.replyTo (passCommand pass)).any fun r => r.digit = 50) := by
  unfold sendPass
  by_cases hfit : TextFits (passCommand pass)
  case neg =>
    rw [if_pos hfit]
    exact congrArg (Option.map _) (bind_of_none (hs.ftpSendCmd_overflow hfit _))
  rw [if_neg (not_not.mpr hfit)]
  obtain ⟨s', hsend, hs', -⟩ := hs.ftpSendCmd hspoke hfit (bytes "2")
  have hflag' : s'.h.isConnected = false :=
    (connected_framed false).ftpSendCmd_keeps _ _ _ _ _ _ hflag hsend
  rw [bind_of_some hsend]
  have htwo : ∀ r : Reply, (decide (r.digit ∈ bytes "2")) = decide (r.digit = 50) := by
    intro r
    simp [bytes]
  simp only [htwo]
  cases hpassed : (replies.replyTo (passCommand pass)).any fun r => decide (r.digit = 50) with
  | true => rfl
  | false =>
    obtain ⟨s'', hrun, hflag''⟩ := hs'.failedLogin hspoke hflag' 0
    refine (congrArg (Option.map _) hrun).trans ?_
    exact congrArg some hflag''

theorem sendUser_refines (hhead : s.h.response.headD 0 = 50) (user pass : Bytes) :
    (sendUser calls.server user pass s).map (fun r => r.2.h.isConnected) =
      if ¬ TextFits (userCommand user) then none
      else
        match replies.replyTo (userCommand user) with
        | none => some true
        | some named =>
          if named.digit ≠ 51 then some (named.digit = 50)
          else if ¬ TextFits (passCommand pass) then none
          else some ((replies.replyTo (passCommand pass)).any fun r => r.digit = 50) := by
  unfold sendUser
  by_cases hfit : TextFits (userCommand user)
  case neg =>
    rw [if_pos hfit]
    exact congrArg (Option.map _) (bind_of_none (hs.ftpSendCmd_overflow hfit _))
  rw [if_neg (not_not.mpr hfit)]
  obtain ⟨s', hsend, hs', hhead'⟩ := hs.ftpSendCmd hspoke hfit (bytes "3")
  have hflag' : s'.h.isConnected = false :=
    (connected_framed false).ftpSendCmd_keeps _ _ _ _ _ _ hflag hsend
  rw [bind_of_some hsend]
  cases hnamed : replies.replyTo (userCommand user) with
  | none =>
    -- the greeting is still in `response`
    rw [hnamed] at hhead'
    rw [Option.any_none, if_neg Bool.false_ne_true, if_pos rfl, get_bind_eq, hhead'.trans hhead,
      if_pos rfl]
    rfl
  | some named =>
    rw [hnamed] at hhead'
    rw [Option.any_some]
    dsimp only
    by_cases hthree : named.digit = 51
    · have hyes : decide (named.digit ∈ bytes "3") = true := by simpa [bytes] using hthree
      rw [hyes, if_pos rfl, if_neg (by decide), if_neg (not_not.mpr hthree)]
      exact sendPass_refines hspoke hs' hflag' pass
    · have hno : decide (named.digit ∈ bytes "3") = false := by simpa [bytes] using hthree
      rw [hno, if_neg Bool.false_ne_true, if_pos rfl, if_pos hthree, get_bind_eq, hhead']
      by_cases htwo : named.digit = 50
      · refine (congrArg (Option.map _) (congrFun (if_pos htwo) s')).trans ?_
        rw [decide_eq_true htwo]
        rfl
      · obtain ⟨s'', hrun, hflag''⟩ := hs'.failedLogin hspoke hflag' 0
        refine (congrArg (Option.map _) (congrFun (if_neg htwo) s')).trans ?_
        refine (congrArg (Option.map _) hrun).trans ?_
        rw [decide_eq_false htwo]
        exact congrArg some hflag''

end Says

theorem ready_greeted : Ready ⟨greeted ftpClient, [], []⟩ :=
  ⟨⟨⟨rfl, List.length_replicate⟩, (fun _ h => nomatch h), rfl⟩, rfl, rfl⟩

/-- On the replies of a server `Connect` comes to what the login does. -/
theorem connect_refines {calls : FtpCalls} {replies : FtpReplies} (hspoke : calls.Says replies)
    (user pass : Bytes) :
    (Ftp.connect calls.server user pass ⟨ftpClient, calls.greeting, []⟩).map
      (fun r => r.2.h.isConnected) = replies.login user pass := by
  obtain ⟨s₁, hgreeting, hs₁, hhead₁⟩ := ready_greeted.readResponse hspoke.greeting (bytes "2")
  have hread := (connected_framed false).readline
  have hflag₁ : s₁.h.isConnected = false := Ftp.readResponse_keeps hread _ _ _ _ rfl hgreeting
  rw [connect_of_greeting hgreeting]
  unfold FtpReplies.login
  cases hg : replies.greeting with
  | none => exact congrArg some hflag₁
  | some greeting =>
    rw [hg] at hhead₁
    rw [Option.any_some]
    dsimp only
    by_cases hdigit : greeting.digit = 50
    · have hyes : decide (greeting.digit ∈ bytes "2") = true := by simpa [bytes] using hdigit
      rw [hyes, if_pos rfl, if_neg (by decide), if_neg (not_not.mpr hdigit)]
      exact sendUser_refines hspoke hs₁ hflag₁ (hhead₁.trans hdigit) user pass
    · have hno : decide (greeting.digit ∈ bytes "2") = false := by simpa [bytes] using hdigit
      rw [hno, if_neg Bool.false_ne_true, if_pos rfl, if_pos hdigit]
      exact congrArg some hflag₁

namespace FtpReplies

variable (replies : FtpReplies) (user pass : Bytes)

/-- The commands that the login comes to fit their buffer. -/
def Takes : Prop :=
  ∀ greeting, replies.greeting = some greeting → greeting.digit = 50 →
    TextFits (userCommand user) ∧ ∀ named, replies.replyTo (userCommand user) = some named →
      named.digit = 51 → TextFits (passCommand pass)

theorem login_isSome_iff : (replies.login user pass).isSome ↔ replies.Takes user pass := by
  unfold login Takes
  cases replies.greeting with
  | none => exact iff_of_true rfl nofun
  | some greeting =>
    simp only [Option.some.injEq, forall_eq']
    by_cases hdigit : greeting.digit = 50
    case neg =>
      rw [if_pos hdigit]
      exact iff_of_true rfl fun h => absurd h hdigit
    rw [if_neg (not_not.mpr hdigit)]
    by_cases huser : TextFits (userCommand user)
    case neg =>
      rw [if_pos huser]
      exact iff_of_false nofun fun h => huser (h hdigit).1
    rw [if_neg (not_not.mpr huser)]
    cases replies.replyTo (userCommand user) with
    | none => exact iff_of_true rfl fun _ => ⟨huser, nofun⟩
    | some named =>
      dsimp only
      by_cases hthree : named.digit = 51
      case neg =>
        rw [if_pos hthree]
        refine iff_of_true rfl fun _ => ⟨huser, ?_⟩
        rintro _ heq h
        cases heq
        exact absurd h hthree
      rw [if_neg (not_not.mpr hthree)]
      by_cases hpass : TextFits (passCommand pass)
      · rw [if_neg (not_not.mpr hpass)]
        exact iff_of_true rfl fun _ => ⟨huser, fun _ _ _ => hpass⟩
      · rw [if_pos hpass]
        exact iff_of_false nofun fun h => hpass ((h hdigit).2 named rfl hthree)

theorem login_eq_true_iff (h : (replies.login user pass).isSome) :
    replies.login user pass = some true ↔ replies.LetIn user pass := by
  constructor
  · intro htrue
    unfold login at htrue
    cases hg : replies.greeting with
    | none =>
      rw [hg] at htrue
      cases htrue
    | some greeting =>
      simp only [hg] at htrue
      split at htrue
      · cases htrue
      rename_i hdigit
      split at htrue
      · cases htrue
      cases hu : replies.replyTo (userCommand user) with
      | none => exact .unanswered hg (not_not.mp hdigit) hu
      | some named =>
        simp only [hu] at htrue
        split at htrue
        · exact .named hg (not_not.mp hdigit) hu (by simpa using htrue)
        rename_i hthree
        split at htrue
        · cases htrue
        obtain ⟨passed, hp, htwo⟩ := (Option.any_eq_true _ _).mp (Option.some.inj htrue)
        exact .passed hg (not_not.mp hdigit) hu (not_not.mp hthree) hp (of_decide_eq_true htwo)
  · intro hin
    have htakes := (login_isSome_iff replies user pass).mp h
    unfold login
    rcases hin with ⟨hg, hdigit, hu⟩ | ⟨hg, hdigit, hu, htwo⟩ | ⟨hg, hdigit, hu, hthree, hp, htwo⟩
    · have hfit := (htakes _ hg hdigit).1
      simp [hg, hdigit, hfit, hu]
    · have hfit := (htakes _ hg hdigit).1
      simp [hg, hdigit, hfit, hu, htwo]
    · obtain ⟨huser, hpass⟩ := htakes _ hg hdigit
      simp [hg, hdigit, huser, hu, hthree, hpass _ hu hthree, hp, htwo]

end FtpReplies

theorem ftpLogin_isSome_iff {calls : FtpCalls} {replies : FtpReplies} (hspoke : calls.Says replies)
    (user pass : Bytes) :
    (ftpLogin calls user pass).isSome ↔ (calls.Reached → replies.Takes user pass) := by
  by_cases hreached : calls.Reached
  · have hsome := congrArg Option.isSome (connect_refines hspoke user pass)
    rw [Option.isSome_map] at hsome
    rw [ftpLogin_of_reached hreached, Option.isSome_map, hsome, replies.login_isSome_iff,
      forall_prop_of_true hreached]
  · rw [ftpLogin_of_not_reached hreached]
    exact iff_of_true rfl fun h => absurd h hreached

theorem ftpLogin_connected_iff {calls : FtpCalls} {replies : FtpReplies}
    (hspoke : calls.Says replies) {user pass : Bytes} {r : Int × Ftp.FtpHandle}
    (heq : ftpLogin calls user pass = some r) :
    r.2.isConnected = true ↔ calls.Reached ∧ replies.LetIn user pass := by
  by_cases hreached : calls.Reached
  · rw [ftpLogin_of_reached hreached] at heq
    obtain ⟨x, hrun, rfl⟩ := Option.map_eq_some_iff.mp heq
    have hlogin := connect_refines hspoke user pass
    rw [hrun, Option.map_some] at hlogin
    rw [and_iff_right hreached, ← replies.login_eq_true_iff user pass (by rw [← hlogin]; rfl),
      ← hlogin, Option.some.injEq]
  · rw [ftpLogin_of_not_reached hreached] at heq
    cases heq
    exact iff_of_false Bool.false_ne_true fun h => hreached h.1

/-- A server that begins with a lone line end. -/
def strayServer : FtpCalls := ⟨true, 0, 0, [.data [Ftp.lf]], fun _ _ => none⟩

theorem ftpLogin_stray (user pass : Bytes) : ftpLogin strayServer user pass = none := by
  have hbounded : Ftp.Bounded [.data [Ftp.lf]] := by
    intro r hr
    cases List.mem_singleton.mp hr
    exact Nat.le_of_ble_eq_true rfl
  have hline : Ftp.readline ⟨greeted ftpClient, [.data [Ftp.lf]], []⟩ = none :=
    (Ftp.readline_eq_none_iff (.start rfl rfl rfl) List.length_replicate hbounded).mpr (.inr rfl)
  have hstart : Ftp.modifyHandle greeted ⟨ftpClient, [.data [Ftp.lf]], []⟩ =
      some ((), ⟨greeted ftpClient, [.data [Ftp.lf]], []⟩) := rfl
  have hreached : strayServer.Reached := ⟨rfl, by decide, by decide⟩
  rw [ftpLogin_of_reached hreached, Option.map_eq_none_iff]
  unfold Ftp.connect
  refine (bind_of_some hstart).trans ?_
  exact bind_of_none (bind_of_none hline)

end EzRemote.Session

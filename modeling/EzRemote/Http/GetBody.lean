import EzRemote.Http.ChunkedBody
import EzRemote.Http.SocketStream

/-!
# A download and its connection

`BaseClient::Get` from the socket to the file: however the segments of a
response are cut, and wherever the connection is lost.
-/

namespace EzRemote.Http

open Transfer

/-- A status that `set_follow_location(true)` makes the client follow. -/
def Redirects (status : Nat) : Prop := 300 < status ∧ status < 400

instance (status : Nat) : Decidable (Redirects status) := inferInstanceAs (Decidable (_ ∧ _))

/-- The body in `process_request`, for the final response of a `GET`: the content receiver takes
everything.  A redirect is the final response only where `redirect` gives up; its body was read
and discarded, and there is no `Result`. -/
def finalReply (status : Nat) (headers : Headers) (s : SocketStream) : HttpReply :=
  if status = 204 then ⟨status, [], true⟩
  else if Redirects status then ⟨status, [], false⟩
  else
    let r := readContent socketStream ulongMax (some fun _ _ => true) keep true headers 0 s []
    ⟨status, r.x, r.ok⟩

/-- A response that says where its body ends. -/
def Framed (headers : Headers) : Prop :=
  isChunkedTransferEncoding headers = true ∨ hasHeader headers (bytes "Content-Length") = true

/-- What a server sends of a body behind the headers. -/
def Sends (headers : Headers) (body wire : Bytes) : Prop :=
  if isChunkedTransferEncoding headers = true then
    ∃ chunked : ChunkedBody, chunked.payload = body ∧ chunked.wire = wire
  else if hasHeader headers (bytes "Content-Length") = true then
    getHeaderValueU64 headers (bytes "Content-Length") 0 = body.length ∧ wire = body
  else wire = body

theorem getHeaderValueU64_le (headers : Headers) (key : Bytes) :
    getHeaderValueU64 headers key 0 ≤ ulongMax := by
  unfold getHeaderValueU64
  cases findHeader headers key with
  | none => exact Nat.zero_le _
  | some header =>
    rw [Option.elim_some]
    cases hn : strtoul 10 header.2 with
    | none => exact Nat.zero_le _
    | some n => exact strtoul_le hn

/-- What the client keeps of a body, for a connection that brings a part of it or,
where the end is known, more than it. -/
theorem readContent_arrived {headers : Headers} (hsupported : unsupported headers = false)
    {body wire : Bytes} (hsends : Sends headers body wire) (status : Nat) {s : SocketStream}
    (harrived : s.content <+: wire ∨ Framed headers ∧ wire <+: s.content) :
    let r := readContent socketStream ulongMax (some fun _ _ => true) keep true headers status s []
    (r.ok = true ↔ ¬ Framed headers ∨ wire <+: s.content) ∧ r.x.flatten <+: body ∧
      (wire <+: s.content → r.x.flatten = body) ∧
      (¬ Framed headers → r.x.flatten = body → wire <+: s.content) := by
  have hdecompress : ¬ (true = true ∧ unsupported headers = true) := by
    rw [hsupported]
    decide
  unfold readContent
  rw [if_neg hdecompress]
  unfold Sends at hsends
  by_cases hchunked : isChunkedTransferEncoding headers = true
  · -- in chunks
    rw [if_pos hchunked] at hsends
    obtain ⟨chunked, rfl, rfl⟩ := hsends
    obtain ⟨hok, hx, hall⟩ := readContentChunked_iff socketStream chunked headers status
      (s := s) (harrived.imp_right And.right)
    have hframed : ¬ Framed headers ∨ chunked.wire <+: s.content ↔ chunked.wire <+: s.content :=
      or_iff_right (not_not_intro (.inl hchunked))
    rw [if_pos hchunked, hframed]
    dsimp only
    by_cases hr : (readContentChunked socketStream keep headers status s []).ok = true
    · rw [if_pos hr]
      exact ⟨hok, hx, hall, fun h => absurd (.inl hchunked) h⟩
    · rw [if_neg hr]
      exact ⟨hok, hx, hall, fun h => absurd (.inl hchunked) h⟩
  rw [if_neg hchunked] at hsends ⊢
  by_cases hlength : hasHeader headers (bytes "Content-Length") = true
  · -- of a given length
    rw [if_pos hlength] at hsends
    obtain ⟨hlen, rfl⟩ := hsends
    have hframed : ¬ Framed headers ∨ wire <+: s.content ↔ wire <+: s.content :=
      or_iff_right (not_not_intro (.inr hlength))
    have hfits : ¬ ulongMax < wire.length := by
      have := getHeaderValueU64_le headers (bytes "Content-Length")
      omega
    have hprogress : ∀ p ∈ (some fun _ _ => true : Option (Nat → Nat → Bool)),
        ∀ r len, p r len = true := by
      rintro p ⟨⟩ r len
      rfl
    obtain ⟨hiff, hpre, hall⟩ := take_of_comparable (harrived.imp_right And.right)
    obtain ⟨hok, hx, -⟩ := readContentWithLength_keep socketStream hprogress wire.length 0 s []
    rw [Nat.sub_zero] at hok hx
    rw [if_neg (by rw [hlength]; decide), hlen, hframed]
    dsimp only
    rw [if_neg hfits]
    by_cases hpos : 0 < wire.length
    · rw [if_pos hpos]
      dsimp only
      rw [hx]
      exact ⟨hok.trans hiff, hpre, hall, fun h => absurd (.inr hlength) h⟩
    · rw [if_neg hpos]
      have hnil : wire = [] := List.eq_nil_of_length_eq_zero (by omega)
      rw [hnil]
      exact ⟨iff_of_true rfl List.nil_prefix, List.nil_prefix, fun _ => rfl,
        fun _ _ => List.nil_prefix⟩
  · -- up to the end of the connection
    rw [if_neg hlength] at hsends
    subst hsends
    have hframed : ¬ Framed headers := not_or.mpr ⟨hchunked, hlength⟩
    have hcontent : s.content <+: wire := harrived.resolve_right fun h => hframed h.1
    obtain ⟨hok, hx, -⟩ := readContentWithoutLength_keep socketStream 0 s []
    rw [if_pos (eq_false_of_ne_true hlength)]
    dsimp only
    rw [hx]
    exact ⟨iff_of_true hok (.inl hframed), hcontent,
      fun h => hcontent.eq_of_length_le h.length_le, fun _ h => h ▸ List.prefix_refl _⟩

theorem get_without_body (client : BaseClient) {disk : LocalDisk} (hd : disk.Sound) {t : Target}
    {P : Bytes} (hP : t.opened P.length = P) (path : Bytes) {reply : HttpReply}
    (hbody : reply.body.flatten = []) :
    (client.get (fun _ => reply) disk t path P.length).2.file = some P := by
  rw [get_sound client (fun _ => reply) hd hP path, hbody, List.append_nil]

theorem get_ret_iff (client : BaseClient) (reply : HttpReply) (disk : LocalDisk) (t : Target)
    (path : Bytes) (offset : Nat) :
    (client.get (fun _ => reply) disk t path offset).1 = 1 ↔ reply.complete = true := by
  unfold BaseClient.get
  by_cases hc : reply.complete = true <;> simp [hc]

/-- What the client turns down before it reads the body. -/
theorem finalReply_unsupported {status : Nat} (hstatus : status ≠ 204)
    (hredirect : ¬ Redirects status) {headers : Headers} (h : unsupported headers = true)
    (s : SocketStream) : finalReply status headers s = ⟨status, [], false⟩ := by
  have hread : readContent socketStream ulongMax (some fun _ _ => true) keep true headers 0 s [] =
      ⟨false, s, headers, unsupportedMediaType, []⟩ := by
    unfold readContent
    exact if_pos ⟨rfl, h⟩
  unfold finalReply
  rw [if_neg hstatus, if_neg hredirect, hread]

/-- A download over a connection that brings a part of the response.  A redirect that cannot be
followed and an encoding that the client does not read fail and leave the prefix; 204 has no
body.  Any other response is reported complete exactly if it does not say where its body ends
or all of it arrived, so that a connection that was lost goes unnoticed exactly in the first
case. -/
theorem http_get_over_connection (client : BaseClient) {disk : LocalDisk} (hd : disk.Sound)
    {t : Target} {P : Bytes} (hP : t.opened P.length = P) (path : Bytes) (status : Nat)
    {headers : Headers} {body wire : Bytes} (hsends : Sends headers body wire) {s : SocketStream}
    (harrived : s.content <+: wire ∨ Framed headers ∧ wire <+: s.content) :
    let g := client.get (fun _ => finalReply status headers s) disk t path P.length
    (status = 204 → g.1 = 1 ∧ g.2.file = some P) ∧
    (status ≠ 204 → Redirects status ∨ unsupported headers = true →
      g.1 ≠ 1 ∧ g.2.file = some P) ∧
    (status ≠ 204 → ¬ Redirects status → unsupported headers = false →
      (g.1 = 1 ↔ ¬ Framed headers ∨ wire <+: s.content) ∧
      (∃ got, got <+: body ∧ g.2.file = some (P ++ got) ∧ (wire <+: s.content → got = body)) ∧
      ((g.1 = 1 → g.2.file = some (P ++ body)) ↔ Framed headers ∨ wire <+: s.content)) := by
  dsimp only
  refine ⟨fun hstatus => ?_, fun hstatus hfails => ?_, fun hstatus hredirect hsupported => ?_⟩
  · have hreply : finalReply status headers s = ⟨status, [], true⟩ := if_pos hstatus
    rw [hreply]
    exact ⟨(get_ret_iff client _ disk t path _).mpr rfl, get_without_body client hd hP path rfl⟩
  · have hreply : finalReply status headers s = ⟨status, [], false⟩ := by
      by_cases hredirect : Redirects status
      · unfold finalReply
        rw [if_neg hstatus, if_pos hredirect]
      · exact finalReply_unsupported hstatus hredirect (hfails.resolve_left hredirect) s
    rw [hreply]
    refine ⟨fun h => ?_, get_without_body client hd hP path rfl⟩
    exact Bool.false_ne_true ((get_ret_iff client _ disk t path _).mp h)
  · obtain ⟨hok, hpre, hall, hlost⟩ := readContent_arrived hsupported hsends 0 harrived
    have hreply : finalReply status headers s =
        let r := readContent socketStream ulongMax (some fun _ _ => true) keep true headers 0 s []
        ⟨status, r.x, r.ok⟩ := by
      unfold finalReply
      rw [if_neg hstatus, if_neg hredirect]
    rw [get_ret_iff, get_sound client (fun _ => finalReply status headers s) hd hP path, hreply]
    dsimp only
    generalize readContent socketStream ulongMax (some fun _ _ => true) keep true headers 0 s [] = r
      at hok hpre hall hlost ⊢
    rw [hok]
    refine ⟨Iff.rfl, ⟨_, hpre, rfl, hall⟩, fun h => ?_, fun h hcomplete => ?_⟩
    · by_cases hframed : Framed headers
      · exact .inl hframed
      · refine .inr (hlost hframed ?_)
        simpa using h (.inl hframed)
    · have hwhole : wire <+: s.content :=
        hcomplete.elim (fun hframed => h.resolve_left hframed) id
      rw [hall hwhole]

/-- `abc` in a chunk. -/
def abcBody : ChunkedBody where
  chunks := [⟨bytes "3", bytes "abc", by decide, by decide, by decide, by decide⟩]
  lastLine := bytes "0"
  oneLine := by decide
  last := by decide
  trailer := []

/-- Two segments with the first two bytes of it, and no more. -/
def lostConnection : SocketStream where
  sock := ⟨[⟨bytes "3\r", by decide⟩, ⟨bytes "\nab", by decide⟩], true⟩
  readBuff := []
  readBuffOff := 0

/-- The client reports the failure and has the part that came. -/
theorem http_get_over_connection_lost :
    let g := plainClient.get (fun _ => finalReply 200 [(bytes "transfer-encoding", bytes "Chunked")]
      lostConnection) .ideal ⟨none, 0⟩ (bytes "x") 0
    g.1 ≠ 1 ∧ ∃ got, got <+: bytes "abc" ∧ g.2.file = some got := by
  have hwire : ¬ abcBody.wire <+: lostConnection.content := by decide
  have hchunked :
      isChunkedTransferEncoding [(bytes "transfer-encoding", bytes "Chunked")] = true := by decide
  have hsends : Sends [(bytes "transfer-encoding", bytes "Chunked")] (bytes "abc") abcBody.wire :=
    (if_pos hchunked).mpr ⟨abcBody, by decide, rfl⟩
  obtain ⟨-, -, hget⟩ := http_get_over_connection plainClient LocalDisk.ideal_sound
    (t := ⟨none, 0⟩) (P := []) (by decide) (bytes "x") 200 hsends (s := lostConnection)
    (.inl (by decide))
  obtain ⟨hret, ⟨got, hpre, hfile, -⟩, -⟩ := hget (by decide) (by decide) (by decide)
  refine ⟨fun h => ?_, got, hpre, hfile⟩
  exact (hret.mp h).elim (fun h => h (.inl hchunked)) hwire

end EzRemote.Http

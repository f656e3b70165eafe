import EzRemote.Notify.Escape

/-!
# RichNotify

`Util::RichNotify` as the download thread calls it: the message, its escaped form and
the payload that is sent.
-/

namespace EzRemote.Notify

def notifyIconFile : Bytes := bytes "/user/data/homebrew/ezremote-client/sce_sys/icon0.png"

/-- `struct tm` as `strftime` prints it. -/
structure Tm where
  year : Nat
  month : Nat
  day : Nat
  hour : Nat
  minute : Nat
  second : Nat
  deriving DecidableEq, Repr

/-- `%m`, `%d`, `%H`, `%M` and `%S`. -/
def twoDigits (n : Nat) : Bytes := if n < 10 then bytes "0" ++ toDecimal n else toDecimal n

def createdAt (tm : Tm) : Bytes :=
  toDecimal tm.year ++ bytes "-" ++ twoDigits tm.month ++ bytes "-" ++ twoDigits tm.day ++
    bytes "T" ++ twoDigits tm.hour ++ bytes ":" ++ twoDigits tm.minute ++ bytes ":" ++
    twoDigits tm.second ++ bytes ".000Z"

/-- The format of the payload with its arguments; `\x7b` and `\x7d` are braces. -/
def payload (escapedMessage createdAt notificationId : Bytes) : Bytes :=
  bytes "\x7b\n" ++
    bytes "  \"rawData\": \x7b\n" ++
    bytes "    \"viewTemplateType\": \"InteractiveToastTemplateB\",\n" ++
    bytes "    \"channelType\": \"ServiceFeedback\",\n" ++
    bytes "    \"bundleName\": \"ezRemoteClientWelcome\",\n" ++
    bytes "    \"useCaseId\": \"IDC\",\n" ++
    bytes "    \"soundEffect\": \"none\",\n" ++
    bytes "    \"toastOverwriteType\": \"InQueue\",\n" ++
    bytes "    \"isImmediate\": true,\n" ++
    bytes "    \"priority\": 100,\n" ++
    bytes "    \"viewData\": \x7b\n" ++
    bytes "      \"icon\": \x7b\n" ++
    bytes "        \"type\": \"Url\",\n" ++
    bytes "        \"parameters\": \x7b\n" ++
    bytes "          \"url\": \"" ++ notifyIconFile ++ bytes "\"\n" ++
    bytes "        \x7d\n" ++
    bytes "      \x7d,\n" ++
    bytes "      \"message\": \x7b\n" ++
    bytes "        \"body\": \"" ++ escapedMessage ++ bytes "\"\n" ++
    bytes "      \x7d,\n" ++
    bytes "      \"subMessage\": \x7b\n" ++
    bytes "        \"body\": \"ezRemote Client\"\n" ++
    bytes "      \x7d,\n" ++
    bytes "      \"actions\": [\n" ++
    bytes "        \x7b\n" ++
    bytes "          \"actionName\": \"View Download Status\",\n" ++
    bytes "          \"actionType\": \"DeepLink\",\n" ++
    bytes "          \"defaultFocus\": true,\n" ++
    bytes "          \"parameters\": \x7b\n" ++
    bytes "            \"actionUrl\": \"http://localhost:6701/download_status.html\"\n" ++
    bytes "          \x7d\n" ++
    bytes "        \x7d\n" ++
    bytes "      ]\n" ++
    bytes "    \x7d,\n" ++
    bytes "    \"platformViews\": \x7b\n" ++
    bytes "      \"previewDisabled\": \x7b\n" ++
    bytes "        \"viewData\": \x7b\n" ++
    bytes "          \"icon\": \x7b\n" ++
    bytes "            \"type\": \"Predefined\",\n" ++
    bytes "            \"parameters\": \x7b\n" ++
    bytes "              \"icon\": \"community\"\n" ++
    bytes "            \x7d\n" ++
    bytes "          \x7d,\n" ++
    bytes "          \"message\": \x7b\n" ++
    bytes "            \"body\": \"" ++ escapedMessage ++ bytes "\"\n" ++
    bytes "          \x7d\n" ++
    bytes "        \x7d\n" ++
    bytes "      \x7d\n" ++
    bytes "    \x7d\n" ++
    bytes "  \x7d,\n" ++
    bytes "  \"createdDateTime\": \"" ++ createdAt ++ bytes "\",\n" ++
    bytes "  \"localNotificationId\": \"" ++ notificationId ++ bytes "\"\n" ++
    bytes "\x7d"

/-- The calls of the download thread. -/
inductive Announcement
  | started | failed | completed | resuming
  | failedAttempts (attempts : Int)
  deriving DecidableEq, Repr

/-- The format of a call with the path of the download. -/
def Announcement.text (destPath : Bytes) : Announcement → Bytes
  | .started => bytes "Started download " ++ cStr destPath
  | .failed => bytes "Failed to download " ++ cStr destPath
  | .completed => bytes "Completed download " ++ cStr destPath
  | .resuming => bytes "Resuming download " ++ cStr destPath
  | .failedAttempts attempts =>
    bytes "Failed to download " ++ cStr destPath ++ bytes ". Attempts: " ++ toDecimal attempts

/-- What `vsnprintf` leaves in `message`. -/
def message (text : Bytes) : Bytes := text.take 3071

/-- `RichNotify`: the payload that is given to `sceNotificationSend`, or nothing where it
has no room; the outer `none` is an access outside of an array. -/
def richNotify (id : UInt64) (tm : Tm) (text : Bytes) : Option (Option Bytes) :=
  (appendJsonEscaped (List.replicate 4096 0) (message text ++ [0])).map fun escapedMessage =>
    let payload := payload (cStr escapedMessage) (createdAt tm) (toDecimal id.toNat)
    if 8192 ≤ payload.length then none else some payload

section Document

open Json (object array string)

/-- `viewData`: the icon, the texts and the action of the toast. -/
def viewData (escapedMessage : Bytes) : Bytes :=
  object 4 [
    (bytes "icon", object 6 [
      (bytes "type", string (bytes "Url")),
      (bytes "parameters", object 8 [(bytes "url", string notifyIconFile)])]),
    (bytes "message", object 6 [(bytes "body", string escapedMessage)]),
    (bytes "subMessage", object 6 [(bytes "body", string (bytes "ezRemote Client"))]),
    (bytes "actions", array 6 [
      object 8 [
        (bytes "actionName", string (bytes "View Download Status")),
        (bytes "actionType", string (bytes "DeepLink")),
        (bytes "defaultFocus", bytes "true"),
        (bytes "parameters", object 10 [
          (bytes "actionUrl", string (bytes "http://localhost:6701/download_status.html"))])]])]

def platformViews (escapedMessage : Bytes) : Bytes :=
  object 4 [
    (bytes "previewDisabled", object 6 [
      (bytes "viewData", object 8 [
        (bytes "icon", object 10 [
          (bytes "type", string (bytes "Predefined")),
          (bytes "parameters", object 12 [(bytes "icon", string (bytes "community"))])]),
        (bytes "message", object 10 [(bytes "body", string escapedMessage)])])])]

def rawData (escapedMessage : Bytes) : Bytes :=
  object 2 [
    (bytes "viewTemplateType", string (bytes "InteractiveToastTemplateB")),
    (bytes "channelType", string (bytes "ServiceFeedback")),
    (bytes "bundleName", string (bytes "ezRemoteClientWelcome")),
    (bytes "useCaseId", string (bytes "IDC")),
    (bytes "soundEffect", string (bytes "none")),
    (bytes "toastOverwriteType", string (bytes "InQueue")),
    (bytes "isImmediate", bytes "true"),
    (bytes "priority", bytes "100"),
    (bytes "viewData", viewData escapedMessage),
    (bytes "platformViews", platformViews escapedMessage)]

def notification (escapedMessage createdAt notificationId : Bytes) : Bytes :=
  object 0 [
    (bytes "rawData", rawData escapedMessage),
    (bytes "createdDateTime", string createdAt),
    (bytes "localNotificationId", string notificationId)]

set_option maxRecDepth 4000 in
theorem payload_eq_notification (escapedMessage createdAt notificationId : Bytes) :
    payload escapedMessage createdAt notificationId =
      notification escapedMessage createdAt notificationId := by
  unfold payload notification rawData viewData platformViews notifyIconFile
  simp only [List.map_cons, List.map_nil, Json.join, Json.line, object, array, string,
    List.append_assoc, List.cons_append, List.nil_append]
  repeat rw [bytes_ofList]
  rfl

end Document

open Json (StringBody Derives Members isPlain derives_object derives_array derives_string
  members_singleton members_cons)

variable {escapedMessage createdAt notificationId : Bytes}

theorem members_body (h : StringBody escapedMessage) :
    Members [(bytes "body", Json.string escapedMessage)] :=
  members_singleton rfl (.string h)

theorem derives_viewData (h : StringBody escapedMessage) :
    Derives .value (viewData escapedMessage) := by
  have hicon : Members [(bytes "type", Json.string (bytes "Url")),
      (bytes "parameters", Json.object 8 [(bytes "url", Json.string notifyIconFile)])] :=
    members_cons rfl (derives_string rfl)
      (members_singleton rfl (derives_object (members_singleton rfl (derives_string rfl))))
  have hsub : Members [(bytes "body", Json.string (bytes "ezRemote Client"))] :=
    members_singleton rfl (derives_string rfl)
  have hurl : Members [(bytes "actionUrl",
      Json.string (bytes "http://localhost:6701/download_status.html"))] :=
    members_singleton rfl (derives_string rfl)
  have haction : Members [(bytes "actionName", Json.string (bytes "View Download Status")),
      (bytes "actionType", Json.string (bytes "DeepLink")), (bytes "defaultFocus", bytes "true"),
      (bytes "parameters", Json.object 10 [(bytes "actionUrl",
        Json.string (bytes "http://localhost:6701/download_status.html"))])] :=
    members_cons rfl (derives_string rfl) (members_cons rfl (derives_string rfl)
      (members_cons rfl .true (members_singleton rfl (derives_object hurl))))
  have hactions := derives_array (n := 6) (List.cons_ne_nil _ [])
    (List.forall_mem_singleton.mpr (derives_object (n := 8) haction))
  exact derives_object (members_cons rfl (derives_object hicon)
    (members_cons rfl (derives_object (members_body h))
      (members_cons rfl (derives_object hsub) (members_singleton rfl hactions))))

theorem derives_platformViews (h : StringBody escapedMessage) :
    Derives .value (platformViews escapedMessage) := by
  have hicon : Members [(bytes "type", Json.string (bytes "Predefined")),
      (bytes "parameters",
        Json.object 12 [(bytes "icon", Json.string (bytes "community"))])] :=
    members_cons rfl (derives_string rfl)
      (members_singleton rfl (derives_object (members_singleton rfl (derives_string rfl))))
  have hmessage := derives_object (n := 10) (members_body h)
  exact derives_object (members_singleton rfl (derives_object (members_singleton rfl
    (derives_object (members_cons rfl (derives_object hicon) (members_singleton rfl hmessage))))))

theorem derives_rawData (h : StringBody escapedMessage) :
    Derives .value (rawData escapedMessage) := by
  have hpriority : Derives .value (bytes "100") := by
    have hall : (bytes "100").all (fun b => decide (48 ≤ b ∧ b ≤ 57)) = true := rfl
    have hdigits : Json.Digits (bytes "100") :=
      ⟨by decide, fun b hb => of_decide_eq_true (List.all_eq_true.mp hall b hb)⟩
    have hnumber : Json.Number [] (bytes "100") [] [] :=
      ⟨.inl rfl, ⟨hdigits, fun h => absurd h (by decide)⟩, .inl rfl, .inl rfl⟩
    have hvalue := Derives.number hnumber
    rwa [List.nil_append, List.append_nil, List.append_nil] at hvalue
  have hviews : Members [(bytes "viewData", viewData escapedMessage),
      (bytes "platformViews", platformViews escapedMessage)] :=
    members_cons rfl (derives_viewData h) (members_singleton rfl (derives_platformViews h))
  have htoast : Members ((bytes "toastOverwriteType", Json.string (bytes "InQueue")) ::
      (bytes "isImmediate", bytes "true") :: (bytes "priority", bytes "100") ::
      [(bytes "viewData", viewData escapedMessage),
        (bytes "platformViews", platformViews escapedMessage)]) :=
    members_cons rfl (derives_string rfl)
      (members_cons rfl .true (members_cons rfl hpriority hviews))
  exact derives_object (members_cons rfl (derives_string rfl) (members_cons rfl (derives_string rfl)
    (members_cons rfl (derives_string rfl) (members_cons rfl (derives_string rfl)
      (members_cons rfl (derives_string rfl) htoast)))))

theorem wellFormed_payload (he : StringBody escapedMessage) (hc : isPlain createdAt = true)
    (hi : isPlain notificationId = true) :
    Json.WellFormed (payload escapedMessage createdAt notificationId) := by
  have hvalue : Derives .value (notification escapedMessage createdAt notificationId) :=
    derives_object (members_cons rfl (derives_rawData he)
      (members_cons rfl (derives_string hc) (members_singleton rfl (derives_string hi))))
  have hnone : Json.Ws [] := fun b hb => absurd hb List.not_mem_nil
  have helement := Derives.element hnone hvalue hnone
  rw [List.nil_append, List.append_nil, ← payload_eq_notification] at helement
  exact helement

theorem printed_of_wellFormed_payload
    (h : Json.WellFormed (payload escapedMessage createdAt notificationId)) :
    ∀ b ∈ escapedMessage, Json.Printed b := by
  intro b hb
  apply Derives.printed h
  unfold payload
  simp only [List.mem_append, hb, true_or, or_true]

theorem isPlain_append {a b : Bytes} : isPlain (a ++ b) = true ↔
    isPlain a = true ∧ isPlain b = true := by
  unfold isPlain
  rw [List.all_append, Bool.and_eq_true]

theorem isPlain_toDecimal (n : Int) : isPlain (toDecimal n) = true := by
  unfold isPlain
  rw [List.all_eq_true]
  intro b hb
  obtain ⟨hge, hle⟩ := mem_toDecimal hb
  have hplain : Json.Unescaped b := by
    refine ⟨?_, ?_, ?_⟩
    · rw [UInt8.le_iff_toNat_le]
      exact Nat.le_trans (by decide) hge
    · rintro rfl
      exact absurd hge (by decide)
    · rintro rfl
      exact absurd hle (by decide)
  exact decide_eq_true hplain

theorem isPlain_twoDigits (n : Nat) : isPlain (twoDigits n) = true := by
  unfold twoDigits
  split
  · exact isPlain_append.mpr ⟨rfl, isPlain_toDecimal n⟩
  · exact isPlain_toDecimal n

theorem isPlain_createdAt (tm : Tm) : isPlain (Notify.createdAt tm) = true := by
  unfold Notify.createdAt
  simp only [isPlain_append, isPlain_toDecimal, isPlain_twoDigits, true_and, and_true]
  exact ⟨⟨⟨⟨⟨rfl, rfl⟩, rfl⟩, rfl⟩, rfl⟩, rfl⟩

/-- The length of the payload of a text. -/
def payloadLength (id : UInt64) (tm : Tm) (text : Bytes) : Nat :=
  1204 + 2 * (escaped (fitting 4096 (message text))).length + (Notify.createdAt tm).length +
    (toDecimal id.toNat).length

theorem length_payload (escapedMessage createdAt notificationId : Bytes) :
    (payload escapedMessage createdAt notificationId).length =
      1204 + 2 * escapedMessage.length + createdAt.length + notificationId.length := by
  unfold payload notifyIconFile
  repeat rw [bytes_ofList]
  simp only [List.length_append, List.length_map, List.length_cons, List.length_nil]
  omega

theorem zero_notMem_text (announcement : Announcement) (destPath : Bytes) :
    0 ∉ announcement.text destPath := by
  have hpath := zero_notMem_cStr destPath
  have hdecimal : ∀ n, 0 ∉ toDecimal n := fun n h => absurd (mem_toDecimal h).1 (by decide)
  cases announcement <;> simp only [Announcement.text, List.mem_append, hpath, hdecimal, or_false]
  all_goals decide

/-- `RichNotify` touches no memory outside of its arrays, and what it sends is JSON. -/
def SendsJson (id : UInt64) (tm : Tm) (text : Bytes) : Prop :=
  ∃ sent, richNotify id tm text = some sent ∧ ∀ payload ∈ sent, Json.WellFormed payload

theorem richNotify_spec (id : UInt64) (tm : Tm) {text : Bytes} (htext : 0 ∉ text) :
    richNotify id tm text = some (if 8192 ≤ payloadLength id tm text then none else
      some (payload (escaped (fitting 4096 (message text))) (Notify.createdAt tm)
        (toDecimal id.toNat))) := by
  have hmessage : 0 ∉ message text := fun h => htext (List.mem_of_mem_take h)
  have harray : (List.replicate 4096 (0 : UInt8)).head? = some 0 := by simp
  obtain ⟨out, hout, -, -, hcontent⟩ := appendJsonEscaped_spec harray hmessage
  rw [List.length_replicate] at hcontent
  unfold richNotify payloadLength
  rw [hout, Option.map_some, hcontent]
  dsimp only
  rw [length_payload]

theorem sendsJson_iff (id : UInt64) (tm : Tm) {text : Bytes} (htext : 0 ∉ text) :
    SendsJson id tm text ↔
      8192 ≤ payloadLength id tm text ∨ NoRawControl 4096 (message text) := by
  unfold SendsJson
  rw [richNotify_spec id tm htext, noRawControl_iff]
  simp only [Option.some.injEq, exists_eq_left']
  by_cases hlong : 8192 ≤ payloadLength id tm text
  · rw [if_pos hlong]
    exact iff_of_true (fun sent h => absurd h (Option.not_mem_none sent)) (.inl hlong)
  · rw [if_neg hlong, or_iff_right hlong]
    simp only [Option.mem_some_iff, forall_eq']
    constructor
    · intro hjson
      exact printed_of_escaped (printed_of_wellFormed_payload hjson)
    · intro hprinted
      exact wellFormed_payload (unescapes_escaped hprinted).stringBody (isPlain_createdAt tm)
        (isPlain_toDecimal _)

/-- The escaped message is the content of a string literal, and what `RichNotify` sends
is JSON, exactly when no control byte without an escape is in what fits. -/
theorem notification_json_iff {dst message : Bytes} (hdst : dst.head? = some 0)
    (hmessage : 0 ∉ message) (id : UInt64) (tm : Tm) (announcement : Announcement)
    (destPath : Bytes) :
    (JsonEscaped dst message ↔ NoRawControl dst.length message) ∧
      (SendsJson id tm (announcement.text destPath) ↔
        8192 ≤ payloadLength id tm (announcement.text destPath) ∨
          NoRawControl 4096 (Notify.message (announcement.text destPath))) :=
  ⟨escaped_iff hdst hmessage, sendsJson_iff id tm (zero_notMem_text announcement destPath)⟩

/-- A quotation mark and a new line in an array of eight bytes, and a plain path. -/
theorem notification_json_quoted :
    JsonEscaped (List.replicate 8 0) (bytes "a\"\n") ∧
      SendsJson 7 ⟨2024, 1, 2, 3, 4, 5⟩ (Announcement.started.text (bytes "/data/a")) := by
  have hempty : (List.replicate 8 (0 : UInt8)).head? = some 0 := rfl
  have hmessage : 0 ∉ bytes "a\"\n" := by decide
  have h := notification_json_iff hempty hmessage 7 ⟨2024, 1, 2, 3, 4, 5⟩ .started
    (bytes "/data/a")
  exact ⟨h.1.mpr (by decide), h.2.mpr (.inr (by decide +kernel))⟩

/-- A control byte without an escape. -/
theorem not_jsonEscaped_control :
    ¬∀ dst message : Bytes, dst.head? = some 0 → 0 ∉ message → JsonEscaped dst message := by
  intro h
  have hescaped := h [0, 0] [1] rfl (by decide)
  have hcontrol : ¬NoRawControl 2 [1] := by decide
  exact hcontrol ((escaped_iff rfl (by decide)).mp hescaped)

end EzRemote.Notify

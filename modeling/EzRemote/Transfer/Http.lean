import EzRemote.Util
import EzRemote.Transfer.Local

/-!
# BaseClient::Get

The HTTP download.  httplib passes the body of the final response to the
content receiver whatever its status, and `BaseClient::Get` looks only at
whether there is a `Result`.
-/

namespace EzRemote.Transfer

/-- The fields of `BaseClient` that a request is built from. -/
structure BaseClient where
  basePath : Bytes
  cookies : List (Bytes × Bytes)
  deriving DecidableEq, Repr

structure HttpRequest where
  path : Bytes
  headers : List (Bytes × Bytes)
  deriving DecidableEq, Repr

/-- The final response: its status, the pieces of its body in the order in which
the content receiver gets them, and whether the body was read completely.  The body
of a redirect that is not followed is kept from the receiver, and the response is not
complete. -/
structure HttpReply where
  status : Nat
  body : List Bytes
  complete : Bool
  deriving DecidableEq, Repr

namespace BaseClient

variable (client : BaseClient)

def setCookies (headers : List (Bytes × Bytes)) : List (Bytes × Bytes) :=
  if client.cookies = [] then headers
  else headers ++ [(bytes "Cookie",
    (bytes "; ").intercalate (client.cookies.map fun c => c.1 ++ bytes "=" ++ c.2))]

def getFullPath (path : Bytes) : Bytes :=
  replaceDoubleSlash (client.basePath ++ slash :: trim (trim path (bytes " ")) (bytes "/"))

/-- The request of `Get`. -/
def getRequest (path : Bytes) (offset : Nat) : HttpRequest :=
  { path := client.getFullPath path
    headers := client.setCookies [] ++
      if 0 < offset then [(bytes "Range", bytes "bytes=" ++ toDecimal offset ++ bytes "-")] else [] }

end BaseClient

/-- The content receiver: `std::ofstream::write` stores nothing more once the
stream is not good. -/
def receiveBody (disk : LocalDisk) : Nat → Bool → Bytes → List Bytes → Bytes
  | _, _, file, [] => file
  | k, good, file, data :: body =>
    let part := if good then disk.store k data else []
    receiveBody disk (k + 1) (good && part.length = data.length) (file ++ part) body

/-- `BaseClient::Get`; the result of `file_stream.open` is not looked at. -/
def BaseClient.get (client : BaseClient) (send : HttpRequest → HttpReply) (disk : LocalDisk)
    (t : Target) (path : Bytes) (offset : Nat) : Int × Target :=
  let reply := send (client.getRequest path offset)
  let file :=
    if disk.opens then some (receiveBody disk 0 true (t.opened offset) reply.body) else t.file
  (if reply.complete then 1 else 0, ⟨file, offset + reply.body.flatten.length⟩)

theorem receiveBody_sound {disk : LocalDisk} (h : disk.Sound) (k : Nat) (file : Bytes)
    (body : List Bytes) : receiveBody disk k true file body = file ++ body.flatten := by
  induction body generalizing k file with
  | nil => simp [receiveBody]
  | cons data body ih =>
    rw [receiveBody]
    simp only [if_true, h.store, decide_true, Bool.and_self]
    rw [ih, List.flatten_cons, List.append_assoc]

variable (client : BaseClient) (send : HttpRequest → HttpReply)

/-- On a sound disk the body is appended to the prefix, whatever the response. -/
theorem get_sound {disk : LocalDisk} (hd : disk.Sound) {t : Target} {P : Bytes}
    (hP : t.opened P.length = P) (path : Bytes) :
    (client.get send disk t path P.length).2.file =
      some (P ++ (send (client.getRequest path P.length)).body.flatten) := by
  unfold BaseClient.get
  simp only [hd.opens, if_true, hP, receiveBody_sound hd]

/-- `Get` does not depend on the status of the response. -/
theorem get_status (disk : LocalDisk) (t : Target) (path : Bytes) (offset status : Nat) :
    client.get (fun req => { send req with status := status }) disk t path offset =
      client.get send disk t path offset := rfl

/-- A response that ignores the `Range` header of a resumed download appends the
whole file to its beginning. -/
theorem get_rangeIgnored {disk : LocalDisk} (hd : disk.Sound) {t : Target} {P R : Bytes}
    (hP : t.opened P.length = P) (path : Bytes)
    (hbody : (send (client.getRequest path P.length)).body.flatten = R) (hne : P ≠ []) :
    (client.get send disk t path P.length).2.file ≠ some R := by
  rw [get_sound client send hd hP, hbody, ne_eq, Option.some.injEq]
  simpa using hne

/-- HTTP download integrity, for an output file that opens with the prefix `P`:
it is right after a `Get` that returns 1 exactly when the body, whatever the
status, is the rest of the remote file. -/
theorem http_integrity_iff {disk : LocalDisk} (hd : disk.Sound) {t : Target} {P R : Bytes}
    (hP : t.opened P.length = P) (hpre : P <+: R) (path : Bytes) :
    ((client.get send disk t path P.length).1 = 1 →
        (client.get send disk t path P.length).2.file = some R) ↔
      ((send (client.getRequest path P.length)).complete = false ∨
        (send (client.getRequest path P.length)).body.flatten = R.drop P.length) := by
  rw [get_sound client send hd hP, Option.some.injEq, append_eq_iff_drop hpre]
  have hret : (client.get send disk t path P.length).1 = 1 ↔
      (send (client.getRequest path P.length)).complete = true := by
    unfold BaseClient.get
    by_cases hc : (send (client.getRequest path P.length)).complete = true <;> simp [hc]
  rw [hret, ← Bool.not_eq_true]
  exact imp_iff_not_or

def plainClient : BaseClient := ⟨bytes "/files", []⟩

/-- A server that answers every range of `abc` correctly. -/
def abcServer (req : HttpRequest) : HttpReply :=
  if req.headers = [] then ⟨200, [bytes "ab", bytes "c"], true⟩
  else ⟨206, [bytes "b", bytes "c"], true⟩

/-- A resumed download of `abc` that is answered with its rest. -/
theorem http_integrity_resumed :
    (plainClient.get abcServer .ideal ⟨some (bytes "a"), 0⟩ (bytes "x") 1).2.file =
      some (bytes "abc") :=
  (http_integrity_iff (P := bytes "a") (R := bytes "abc") plainClient abcServer LocalDisk.ideal_sound rfl
    (by decide) (bytes "x")).mpr (.inr (by decide)) (by decide)

/-- A missing file: the error page is stored as the download. -/
theorem http_integrity_notFound : ¬ ∀ (client : BaseClient) (send : HttpRequest → HttpReply)
    (t : Target) (P R path : Bytes), t.file = some P → P <+: R →
      (client.get send .ideal t path P.length).1 = 1 →
        (client.get send .ideal t path P.length).2.file = some R := by
  intro hall
  have := hall plainClient (fun _ => ⟨404, [bytes "Not Found"], true⟩) ⟨some [], 0⟩ []
    (bytes "abc") (bytes "x") rfl (by decide) (by decide)
  exact absurd this (by decide)

end EzRemote.Transfer

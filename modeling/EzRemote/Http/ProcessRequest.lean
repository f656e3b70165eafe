import EzRemote.Http.ChunkedBody
import EzRemote.Http.RangeHeader

/-!
# Reading a request

`Server::process_request` up to the handlers: the request line, the headers, the
ranges and the body.
-/

namespace EzRemote.Http

variable {σ : Type*}

/-- `Params`, a multimap, in the order of `emplace`. -/
abbrev Params := List (Bytes × Bytes)

/-- The function that `parse_query_text` splits with, over all the parts. -/
def queryParams : List Bytes → List Bytes → Params
  | _, [] => []
  | cache, kv :: kvs =>
    if kv ∈ cache then queryParams cache kvs
    else
      let r : Bytes × Bytes := (split kv 61 none).foldl
        (fun r part => if r.1 = [] then (part, r.2) else (r.1, part)) ([], [])
      (if r.1 ≠ [] then [(decodeUrl true r.1, decodeUrl true r.2)] else []) ++
        queryParams (kv :: cache) kvs

def parseQueryText (s : Bytes) : Params := queryParams [] (split s 38 none)

/-- What `parse_request_line` sets. -/
structure RequestLine where
  method : Bytes
  target : Bytes
  version : Bytes
  path : Bytes
  params : Params

def methods : List Bytes :=
  [bytes "GET", bytes "HEAD", bytes "POST", bytes "PUT", bytes "DELETE",
    bytes "CONNECT", bytes "OPTIONS", bytes "TRACE", bytes "PATCH", bytes "PRI"]

def parseRequestLine (s : Bytes) : Option RequestLine :=
  let s := cStr s
  if ¬ crlf <:+ s then none
  else
    match split (s.take (s.length - 2)) 32 none with
    | [method, target, version] =>
      if method ∉ methods then none
      else if version ≠ bytes "HTTP/1.1" ∧ version ≠ bytes "HTTP/1.0" then none
      else
        let target := target.takeWhile (· ≠ 35)
        match split target 63 (some 2) with
        | [] => some ⟨method, target, version, [], []⟩
        | [path] => some ⟨method, target, version, decodeUrl false path, []⟩
        | [path, query] =>
          some ⟨method, target, version, decodeUrl false path,
            if 0 < query.length then parseQueryText query else []⟩
        | _ => none
    | _ => none

structure MultipartFormData where
  name : Bytes
  content : Bytes
  filename : Bytes
  contentType : Bytes

/-- What the handlers get. -/
structure Request where
  line : RequestLine
  headers : Headers
  ranges : List Range
  params : Params
  body : Bytes
  files : List MultipartFormData

/-- What is written for a request: an error, `100 Continue`, or a response by the handlers. -/
inductive Outcome
  | error (status : Nat)
  | interim
  | routed (request : Request)

def expectContent (method : Bytes) : Bool :=
  method ∈ [bytes "POST", bytes "PUT", bytes "PATCH", bytes "PRI", bytes "DELETE"]

/-- A request that `read_content_core` reads no body of. -/
def bodiless (method : Bytes) (headers : Headers) : Bool :=
  method = bytes "DELETE" && !hasHeader headers (bytes "Content-Length")

/-- A body is read, by `routing` and then `read_content_core`. -/
def readsContent (method : Bytes) (headers : Headers) : Bool :=
  expectContent method && !bodiless method headers

def requestUriMaxLength : Nat := 8192
def formUrlEncodedPayloadMaxLength : Nat := 8192

/-- `req.ranges`. -/
def requestRanges (headers : Headers) : Option (List Range) :=
  if hasHeader headers (bytes "Range") then
    parseRangeHeader (getHeaderValue headers (bytes "Range") [])
  else some []

def isForm (headers : Headers) : Bool :=
  bytes "application/x-www-form-urlencoded" <+: getHeaderValue headers (bytes "Content-Type") []

def isMultipartFormData (headers : Headers) : Bool :=
  bytes "multipart/form-data" <+: getHeaderValue headers (bytes "Content-Type") []

/-- The request is the last on its connection. -/
def closes (version : Bytes) (headers : Headers) : Bool :=
  let connection := getHeaderValue headers (bytes "Connection") []
  connection = bytes "close" || (version = bytes "HTTP/1.0" && connection ≠ bytes "Keep-Alive")

section

variable (strm : Reader UInt8 σ) (parser : MultipartParser) (payloadMaxLength : Nat)
  (peer : Headers) (write : Outcome → Bool)

end

/-- A body as it is sent. -/
inductive WireBody
  | none
  | plain (payload : Bytes)
  | chunked (body : ChunkedBody)

namespace WireBody

def payload : WireBody → Bytes
  | none => []
  | plain payload => payload
  | chunked body => body.payload

def wire : WireBody → Bytes
  | none => []
  | plain payload => payload
  | chunked body => body.wire

def trailer : WireBody → Headers
  | none => []
  | plain _ => []
  | chunked body => body.trailer.filterMap fun field => parseHeader field.text

/-- The method and the headers say which body it is, and how long it is. -/
def Announced (method : Bytes) (headers : Headers) : WireBody → Prop
  | none => readsContent method headers = false
  | plain payload => readsContent method headers = true ∧
      isChunkedTransferEncoding headers = false ∧ hasHeader headers (bytes "Content-Length") = true ∧
      getHeaderValueU64 headers (bytes "Content-Length") 0 = payload.length
  | chunked _ => readsContent method headers = true ∧ isChunkedTransferEncoding headers = true

/-- There is a body, and with its length it says that it is longer than the limit. -/
def exceeds (payloadMaxLength : Nat) : WireBody → Bool
  | none => false
  | plain payload => payloadMaxLength < payload.length
  | chunked _ => false

def isSent : WireBody → Bool
  | none => false
  | plain _ => true
  | chunked _ => true

end WireBody

def headersOf (fields : List Field) : Headers := fields.filterMap fun field => parseHeader field.text

/-- A request as it is sent to a server that adds the headers `peer`.  It is no
`multipart/form-data`, whose body goes to the parser in the pieces that arrive. -/
structure WireRequest (peer : Headers) where
  text : Bytes
  oneLine : 10 ∉ text
  fits : text.length + 2 ≤ requestUriMaxLength
  line : RequestLine
  parsed : parseRequestLine (text ++ crlf) = some line
  fields : List Field
  ranges : List Range
  ranged : requestRanges (headersOf fields ++ peer) = some ranges
  supported : unsupported (headersOf fields ++ peer) = false
  body : WireBody
  announced : body.Announced line.method (headersOf fields ++ peer)
  plain : isMultipartFormData (headersOf fields ++ peer ++ body.trailer) = false

namespace WireRequest

variable {peer : Headers} (r : WireRequest peer)

def wire : Bytes :=
  r.text ++ crlf ++ (r.fields.flatMap Field.wire ++ crlf ++ r.body.wire)

def headers : Headers := headersOf r.fields ++ peer

def closes : Bool := Http.closes r.line.version (headersOf r.fields)

/-- The request is a form with its fields in the body. -/
def isForm : Bool := r.body.isSent && Http.isForm (r.headers ++ r.body.trailer)

/-- The response. -/
def answer (payloadMaxLength : Nat) : Outcome :=
  if r.body.exceeds payloadMaxLength then .error payloadTooLarge
  else if r.isForm ∧ formUrlEncodedPayloadMaxLength < r.body.payload.length then
    .error payloadTooLarge
  else
    .routed
      { line := r.line
        headers := r.headers ++ r.body.trailer
        ranges := r.ranges
        params := r.line.params ++ if r.isForm then parseQueryText r.body.payload else []
        body := r.body.payload
        files := [] }

end WireRequest

section

variable {strm : Reader UInt8 σ}

variable {peer : Headers} (r : WireRequest peer) (payloadMaxLength : Nat)

end

section

variable {strm : Reader UInt8 σ} {J : σ → Prop} (hJ : strm.Kept J)
include hJ

end

end EzRemote.Http

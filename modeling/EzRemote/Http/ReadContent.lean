import EzRemote.Clients.Cookies
import EzRemote.Http.LineReader

/-!
# Reading the body of a message

`detail::read_content`: a body that is sent in chunks, one of a given length, and
one that ends with the connection.
-/

namespace EzRemote.Http

variable {σ β : Type*}

/-- `Headers`, a multimap that ignores the case of its keys, in the order of `emplace`. -/
abbrev Headers := List (Bytes × Bytes)

def compareCaseIgnore (a b : Bytes) : Bool := a.map Clients.toLower = b.map Clients.toLower

def findHeader (headers : Headers) (key : Bytes) : Option (Bytes × Bytes) :=
  headers.find? fun header => compareCaseIgnore header.1 key

def hasHeader (headers : Headers) (key : Bytes) : Bool := (findHeader headers key).isSome

def getHeaderValue (headers : Headers) (key default : Bytes) : Bytes :=
  (findHeader headers key).elim default fun header => cStr header.2

def getHeaderValueU64 (headers : Headers) (key : Bytes) (default : Nat) : Nat :=
  (findHeader headers key).elim default fun header => (strtoul 10 header.2).getD 0

/-- `parse_header`, what `fn` is called with. -/
def parseHeader (text : Bytes) : Option (Bytes × Bytes) :=
  let text := text.rdropWhile isSpaceOrTab
  let key := text.takeWhile (· ≠ 58)
  let val := ((text.dropWhile (· ≠ 58)).drop 1).dropWhile isSpaceOrTab
  if key = text then none
  else if val = [] then none
  else if key = [] then none
  else some (key, if compareCaseIgnore key (bytes "Location") then val else decodeUrl false val)

/-- `ContentReceiverWithProgress`, with the state that it closes over: it is called with a
piece, its offset and the length, 0 where that is not known. -/
abbrev ContentReceiver (β : Type*) := Bytes → Nat → Nat → β → Bool × β

/-- What the functions leave: the result, the connection and the receiver. -/
structure Content (σ β : Type*) where
  ok : Bool
  strm : σ
  x : β

def recvBufsiz : Nat := 16384

def headerMaxLength : Nat := 8192

section

variable (strm : Reader UInt8 σ) (out : ContentReceiver β)

/-- `read_content_with_length`, when `r` bytes were read. -/
def readContentWithLength (progress : Option (Nat → Nat → Bool)) (len r : Nat) (s : σ) (x : β) :
    Content σ β :=
  if r < len then
    match strm.read (min (len - r) recvBufsiz) s with
    | (none, t) => ⟨false, t, x⟩
    | (some [], t) => ⟨false, t, x⟩
    | (some (c :: buf), t) =>
      let y := out (c :: buf) r len x
      let r' := r + (buf.length + 1)
      if y.1 = false then ⟨false, t, y.2⟩
      else if ∀ p ∈ progress, p r' len = true then
        readContentWithLength progress len r' t y.2
      else ⟨false, t, y.2⟩
  else ⟨true, s, x⟩
termination_by len - r

def skipContentWithLength (len r : Nat) (s : σ) : σ :=
  if r < len then
    match strm.read (min (len - r) recvBufsiz) s with
    | (none, t) => t
    | (some [], t) => t
    | (some (_ :: buf), t) => skipContentWithLength len (r + (buf.length + 1)) t
  else s
termination_by len - r

/-- `read_content_without_length`, when `r` bytes were read. -/
def readContentWithoutLength (r : Nat) (s : σ) (x : β) : Content σ β :=
  match h : strm.read recvBufsiz s with
  | (none, t) => ⟨true, t, x⟩
  | (some [], t) => ⟨true, t, x⟩
  | (some (c :: buf), t) =>
    let y := out (c :: buf) r 0 x
    if y.1 = false then ⟨false, t, y.2⟩
    else readContentWithoutLength (r + (buf.length + 1)) t y.2
termination_by (strm.content s).length
decreasing_by exact strm.read_shorter (by decide) h

theorem readSize_pos {len r : Nat} (hr : r < len) : 0 < min (len - r) recvBufsiz :=
  Nat.lt_min.mpr ⟨Nat.sub_pos_of_lt hr, by decide⟩

theorem readContentWithLength_le (progress : Option (Nat → Nat → Bool)) (len r : Nat) (s : σ)
    (x : β) : (strm.content (readContentWithLength strm out progress len r s x).strm).length ≤
      (strm.content s).length := by
  induction h : len - r using Nat.strongRecOn generalizing r s x with
  | _ n ih =>
    rw [readContentWithLength]
    by_cases hr : r < len
    · have hpos := readSize_pos hr
      rw [if_pos hr]
      obtain ⟨hs, t, hread, ht⟩ | ⟨hs, t, hread, ht⟩ | ⟨c, buf, t, hread, -, hcontent⟩ :=
        strm.read_cases hpos s
      · rw [hread]
        simp only [ht, List.length_nil]
        exact Nat.zero_le _
      · rw [hread]
        simp only [ht, List.length_nil]
        exact Nat.zero_le _
      · have hshorter : (strm.content t).length ≤ (strm.content s).length :=
          (strm.read_shorter hpos hread).le
        rw [hread]
        dsimp only
        by_cases hout : (out (c :: buf) r len x).1 = false
        · rw [if_pos hout]
          exact hshorter
        · rw [if_neg hout]
          by_cases hp : ∀ p ∈ progress, p (r + (buf.length + 1)) len = true
          · rw [if_pos hp]
            exact (ih (len - (r + (buf.length + 1))) (by omega) _ t _ rfl).trans hshorter
          · rw [if_neg hp]
            exact hshorter
    · rw [if_neg hr]

/-- What the loop over the chunks leaves; `ok` when it comes to the last. -/
structure Chunks (σ β : Type*) where
  ok : Bool
  line : StreamLineReader
  strm : σ
  x : β

/-- The loop of `read_content_chunked`, with the line of a size in the line reader. -/
def readChunks (line : StreamLineReader) (s : σ) (x : β) : Chunks σ β :=
  match strtoul 16 line.ptr with
  | none => ⟨false, line, s, x⟩
  | some chunkLen =>
    if chunkLen = ulongMax then ⟨false, line, s, x⟩
    else if chunkLen = 0 then ⟨true, line, s, x⟩
    else
      let c := readContentWithLength strm out none chunkLen 0 s x
      if c.ok = false then ⟨false, line, c.strm, c.x⟩
      else
        let g := getline strm line c.strm
        if _ : g.ok = false then ⟨false, g.line, g.strm, c.x⟩
        else if cStr g.line.ptr ≠ crlf then ⟨false, g.line, g.strm, c.x⟩
        else
          let g' := getline strm g.line g.strm
          if _ : g'.ok = false then ⟨false, g'.line, g'.strm, c.x⟩
          else readChunks g'.line g'.strm c.x
termination_by (strm.content s).length
decreasing_by
  have hbody : (strm.content c.strm).length ≤ (strm.content s).length :=
    readContentWithLength_le strm out none chunkLen 0 s x
  have hend : (strm.content g.strm).length < (strm.content c.strm).length :=
    getline_shorter (eq_true_of_ne_false ‹¬ g.ok = false›)
  have hsize : (strm.content g'.strm).length < (strm.content g.strm).length :=
    getline_shorter (eq_true_of_ne_false ‹¬ g'.ok = false›)
  exact (hsize.trans hend).trans_le hbody

/-- The loop over the trailer, with its first line in the line reader. -/
def readTrailer (line : StreamLineReader) (s : σ) (headers : Headers) : Content σ Headers :=
  if cStr line.ptr = crlf then ⟨true, s, headers⟩
  else if headerMaxLength < line.size then ⟨false, s, headers⟩
  else
    let headers := headers ++ (parseHeader (line.ptr.take (line.size - 2))).toList
    let g := getline strm line s
    if _ : g.ok = false then ⟨false, g.strm, headers⟩ else readTrailer g.line g.strm headers
termination_by (strm.content s).length
decreasing_by exact getline_shorter (eq_true_of_ne_false ‹¬ g.ok = false›)

/-- What `read_content` leaves, with the headers, which a trailer adds to, and the status. -/
structure Received (σ β : Type*) where
  ok : Bool
  strm : σ
  headers : Headers
  status : Nat
  x : β

/-- `read_content_chunked`; `ok`, and the rest as `read_content` leaves it. -/
def readContentChunked (headers : Headers) (status : Nat) (s : σ) (x : β) : Received σ β :=
  let g := getline strm (.new 16) s
  if g.ok = false then ⟨false, g.strm, headers, status, x⟩
  else
    let c := readChunks strm out g.line g.strm x
    if c.ok = false then ⟨false, c.strm, headers, status, c.x⟩
    else
      let g := getline strm c.line c.strm
      if g.ok = false then ⟨false, g.strm, headers, status, c.x⟩
      else
        let t := readTrailer strm g.line g.strm headers
        ⟨t.ok, t.strm, t.x, status, c.x⟩

end

def unsupportedMediaType : Nat := 415
def payloadTooLarge : Nat := 413
def badRequest : Nat := 400

def isChunkedTransferEncoding (headers : Headers) : Bool :=
  compareCaseIgnore (getHeaderValue headers (bytes "Transfer-Encoding") []) (bytes "chunked")

/-- The encodings that `prepare_content_receiver` turns down: the library is built without
zlib and without brotli. -/
def unsupported (headers : Headers) : Bool :=
  let encoding := getHeaderValue headers (bytes "Content-Encoding") []
  encoding = bytes "gzip" || encoding = bytes "deflate" || (bytes "br") <:+: encoding

/-- `read_content` with `prepare_content_receiver`. -/
def readContent (strm : Reader UInt8 σ) (payloadMaxLength : Nat)
    (progress : Option (Nat → Nat → Bool)) (receiver : ContentReceiver β) (decompress : Bool)
    (headers : Headers) (status : Nat) (s : σ) (x : β) : Received σ β :=
  if decompress ∧ unsupported headers then ⟨false, s, headers, unsupportedMediaType, x⟩
  else if isChunkedTransferEncoding headers then
    let r := readContentChunked strm receiver headers status s x
    if r.ok then r else { r with status := badRequest }
  else if hasHeader headers (bytes "Content-Length") = false then
    let c := readContentWithoutLength strm receiver 0 s x
    ⟨c.ok, c.strm, headers, if c.ok then status else badRequest, c.x⟩
  else
    let len := getHeaderValueU64 headers (bytes "Content-Length") 0
    if payloadMaxLength < len then
      ⟨false, skipContentWithLength strm len 0 s, headers, payloadTooLarge, x⟩
    else if 0 < len then
      let c := readContentWithLength strm receiver progress len 0 s x
      ⟨c.ok, c.strm, headers, if c.ok then status else badRequest, c.x⟩
    else ⟨true, s, headers, status, x⟩

section

variable {strm : Reader UInt8 σ} {J : σ → Prop} (hJ : strm.Kept J) (out : ContentReceiver β)
include hJ

end

end EzRemote.Http

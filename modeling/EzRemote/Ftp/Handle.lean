import Mathlib.Algebra.Ring.Nat
import EzRemote.Util
import EzRemote.Pool.Client

/-!
# The control handle of FtpClient

`struct ftphandle`, `Readline` and `ReadResponse` of `clients/ftpclient.cpp`.
`none` is undefined behaviour of the source: a write outside `response`, a
number that `sscanf` cannot represent, a `recv` that returns more than it was
asked for.
-/

namespace EzRemote.Ftp

open Pool (TransferState)

/-- What one `recv` returns; no bytes are the end of the stream. -/
inductive Recv
  | error
  | data (b : Bytes)
  deriving DecidableEq, Repr

/-- `FTP_CLIENT_CONTROL`, `FTP_CLIENT_READ` and `FTP_CLIENT_WRITE`. -/
inductive Direction
  | control | read | write
  deriving DecidableEq, Repr

def ftpClientBufsiz : Nat := 1048576

/-- `sizeof(response)`. -/
def responseSize : Nat := 512

def lf : UInt8 := 10
def cr : UInt8 := 13
def crlf : Bytes := [cr, lf]

/-- `struct ftphandle` as a control handle; the defaults are those of
`ClearHandle`.  `buf` holds the bytes up to `cput`, `cget` is an offset in it,
and `handle` tells a socket from 0.  `cmode` stays at `pasv`: nothing calls
`SetConnmode`. -/
structure FtpHandle where
  handle : Bool := false
  dir : Direction := .control
  buf : Bytes := []
  cget : Nat := 0
  cavail : Nat := 0
  cleft : Nat := 0
  response : Bytes := List.replicate responseSize 0
  offset : Int := 0
  correctpasv : Bool := false
  transfer : TransferState := {}
  isConnected : Bool := false
  deriving DecidableEq, Repr

/-- A write into a buffer. -/
def overwrite (buf : Bytes) (pos : Nat) (data : Bytes) : Bytes :=
  buf.take pos ++ data ++ buf.drop (pos + data.length)

namespace FtpHandle

variable (h : FtpHandle)

def unread : Bytes := (h.buf.drop h.cget).take h.cavail

def writeResponse (pos : Nat) (data : Bytes) : FtpHandle :=
  { h with response := overwrite h.response pos data }

/-- `sprintf` and `strcpy` into `response`. -/
def setResponse (text : Bytes) : FtpHandle := h.writeResponse 0 (text ++ [0])

/-- The two pointers move on behind `x` bytes. -/
def advance (x : Nat) : FtpHandle := { h with cget := h.cget + x, cavail := h.cavail - x }

/-- The buffer starts over once `cget` has reached `cput`. -/
def rewind : FtpHandle :=
  if h.buf.length = h.cget then
    { h with buf := [], cget := 0, cavail := 0, cleft := ftpClientBufsiz }
  else h

/-- `recv` has put `b` at `cput`. -/
def received (b : Bytes) : FtpHandle :=
  { h with buf := h.buf ++ b, cavail := h.cavail + b.length, cleft := h.cleft - b.length }

end FtpHandle

/-- What `memccpy` copies: up to and including the first `c`. -/
def upTo (c : UInt8) : Bytes → Bytes
  | [] => []
  | b :: bs => if b = c then [b] else b :: upTo c bs

/-- What a pass of the loop of `Readline` leads to: a `break`, or `recv`. -/
inductive Pass
  | done (retval : Int) (h : FtpHandle)
  | more (max bp retval : Nat) (h : FtpHandle)

/-- The loop up to `recv`, behind the copy: the `max == 1` exit and the rewind. -/
def readlineRest (max bp retval : Nat) (h : FtpHandle) : Pass :=
  if max = 1 then .done retval (h.writeResponse 0 [0]) else .more max bp retval h.rewind

/-- One pass of the loop of `Readline` up to `recv`.  `bp` is an offset in
`response`, and `max` is at least 1. -/
def readlinePass (max bp retval : Nat) (h : FtpHandle) : Option Pass :=
  if 0 < h.cavail then
    let src := h.unread.take (if h.cavail ≤ max then h.cavail else max - 1)
    let line := upTo lf src
    let x := line.length
    if responseSize ≤ bp + x then none
    else
      let h := (h.writeResponse bp (line ++ [0])).advance x
      if lf ∈ src then
        if bp + x < 2 then none
        else if cStr (h.response.drop (bp + x - 2)) = crlf then
          some (.done (retval + x - 1) (h.writeResponse (bp + x - 2) [lf, 0]))
        else some (.done (retval + x) h)
      else some (readlineRest (max - x) (bp + x) (retval + x) h)
  else some (readlineRest max bp retval h)

/-- `recv` has returned 0: one more pass, then the loop ends. -/
def readlineEof (max bp retval : Nat) (h : FtpHandle) (wire : List Recv) :
    Option (Int × FtpHandle × List Recv) :=
  match readlinePass max bp retval h with
  | none => none
  | some (.done result h) => some (result, h, wire)
  | some (.more _ _ retval h) => some (if retval = 0 then -1 else retval, h, wire)

/-- The loop of `Readline`; `wire` lists what its calls of `recv` return. -/
def readlineLoop : List Recv → Nat → Nat → Nat → FtpHandle → Option (Int × FtpHandle × List Recv)
  | [], max, bp, retval, h =>
    match readlinePass max bp retval h with
    | none => none
    | some (.done result h) => some (result, h, [])
    | some (.more max bp retval h) => readlineEof max bp retval h []
  | r :: wire, max, bp, retval, h =>
    match readlinePass max bp retval h with
    | none => none
    | some (.done result h) => some (result, h, r :: wire)
    | some (.more max bp retval h) =>
      match r with
      | .error => some (-1, h, wire)
      | .data [] => readlineEof max bp retval h wire
      | .data b =>
        if h.cleft < b.length then none
        else readlineLoop wire max bp retval (h.received b)

end EzRemote.Ftp

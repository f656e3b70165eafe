import EzRemote.Config
import EzRemote.Lib.Reader

/-!
# SocketStream

`detail::SocketStream::read`, which reads ahead into a buffer of its own where
it is asked for little, and `write_data` on the socket to a peer.
-/

namespace EzRemote.Http

/-- What one `recv` can find: the bytes of a segment, at least one. -/
structure Segment where
  bytes : Bytes
  ne_nil : bytes ≠ []

/-- The socket as `select` and `recv` show it: the segments that arrive, and
whether the other end closes the connection after them or no more comes, which
`select` or `recv` report as an error. -/
structure Socket where
  arriving : List Segment
  closes : Bool

/-- The bytes that arrive, whatever their segments. -/
def Socket.bytes (sock : Socket) : Bytes := (sock.arriving.map Segment.bytes).flatten

/-- `read_socket` behind `is_readable`. -/
def readSocket (size : Nat) (sock : Socket) : Option Bytes × Socket :=
  match sock.arriving with
  | [] => (if sock.closes then some [] else none, sock)
  | segment :: arriving =>
    if h : segment.bytes.length ≤ size then (some segment.bytes, { sock with arriving := arriving })
    else (some (segment.bytes.take size),
      { sock with
        arriving := ⟨segment.bytes.drop size, fun hnil => h (List.drop_eq_nil_iff.mp hnil)⟩ ::
          arriving })

/-- The first `read_buff_content_size_` bytes of `read_buff_`, and the socket. -/
structure SocketStream where
  sock : Socket
  readBuff : Bytes
  readBuffOff : Nat

def readBuffSize : Nat := 4096

def SocketStream.read (size : Nat) (strm : SocketStream) : Option Bytes × SocketStream :=
  let size := min size 9223372036854775807
  if strm.readBuffOff < strm.readBuff.length then
    let remainingSize := strm.readBuff.length - strm.readBuffOff
    if size ≤ remainingSize then
      (some ((strm.readBuff.drop strm.readBuffOff).take size),
        { strm with readBuffOff := strm.readBuffOff + size })
    else
      (some (strm.readBuff.drop strm.readBuffOff),
        { strm with readBuffOff := strm.readBuffOff + remainingSize })
  else if size < readBuffSize then
    match readSocket readBuffSize strm.sock with
    | (none, sock) => (none, ⟨sock, [], 0⟩)
    | (some n, sock) =>
      if n.length ≤ size then (some n, ⟨sock, [], 0⟩) else (some (n.take size), ⟨sock, n, size⟩)
  else
    let r := readSocket size strm.sock
    (r.1, ⟨r.2, [], 0⟩)

/-- What is still to be read: the rest of the buffer, then what arrives. -/
def SocketStream.content (strm : SocketStream) : Bytes :=
  strm.readBuff.drop strm.readBuffOff ++ strm.sock.bytes

theorem Socket.arriving_eq_nil {sock : Socket} (h : sock.bytes = []) : sock.arriving = [] := by
  obtain ⟨arriving, closes⟩ := sock
  cases arriving with
  | nil => rfl
  | cons segment arriving =>
    obtain ⟨hsegment, -⟩ := List.append_eq_nil_iff.mp h
    exact absurd hsegment segment.ne_nil

theorem readSocket_nil (size : Nat) {sock : Socket} (h : sock.bytes = []) :
    readSocket size sock = (if sock.closes then some [] else none, sock) := by
  unfold readSocket
  rw [Socket.arriving_eq_nil h]

theorem readSocket_some {size : Nat} (hsize : 0 < size) {sock : Socket} (h : sock.bytes ≠ []) :
    ∃ n sock', readSocket size sock = (some n, sock') ∧ n ≠ [] ∧ n.length ≤ size ∧
      sock.bytes = n ++ sock'.bytes := by
  obtain ⟨arriving, closes⟩ := sock
  cases arriving with
  | nil => exact absurd rfl h
  | cons segment arriving =>
    unfold readSocket
    dsimp only
    by_cases hlen : segment.bytes.length ≤ size
    · rw [dif_pos hlen]
      exact ⟨_, _, rfl, segment.ne_nil, hlen, rfl⟩
    · rw [dif_neg hlen]
      refine ⟨_, _, rfl, ?_, List.length_take_le _ _, ?_⟩
      · intro hnil
        have hzero := congrArg List.length hnil
        rw [List.length_take, List.length_nil] at hzero
        omega
      · show segment.bytes ++ _ = segment.bytes.take size ++ (segment.bytes.drop size ++ _)
        rw [← List.append_assoc, List.take_append_drop]

namespace SocketStream

variable {strm : SocketStream} {size : Nat}

theorem read_end (size : Nat) (h : strm.content = []) :
    (strm.read size).1.getD [] = [] ∧ (strm.read size).2.content = [] := by
  obtain ⟨hbuff, hsock⟩ := List.append_eq_nil_iff.mp h
  have hoff := List.drop_eq_nil_iff.mp hbuff
  have hclosed : (if strm.sock.closes = true then some ([] : Bytes) else none).getD [] = [] := by
    by_cases hc : strm.sock.closes = true
    · rw [if_pos hc, Option.getD_some]
    · rw [if_neg hc, Option.getD_none]
  unfold read
  dsimp only
  rw [if_neg (Nat.not_lt.mpr hoff), readSocket_nil _ hsock, readSocket_nil _ hsock]
  by_cases hsize : min size 9223372036854775807 < readBuffSize
  · rw [if_pos hsize]
    by_cases hc : strm.sock.closes = true
    · rw [if_pos hc]
      exact ⟨rfl, hsock⟩
    · rw [if_neg hc]
      exact ⟨rfl, hsock⟩
  · rw [if_neg hsize]
    exact ⟨hclosed, hsock⟩

theorem read_piece (hsize : 0 < size) (h : strm.content ≠ []) :
    ∃ piece t, strm.read size = (some piece, t) ∧ piece ≠ [] ∧ piece.length ≤ size ∧
      strm.content = piece ++ t.content := by
  obtain ⟨n, hn⟩ : ∃ n, n = min size 9223372036854775807 := ⟨_, rfl⟩
  have hpos : 0 < n := by omega
  have hle : n ≤ size := by omega
  unfold read
  dsimp only
  rw [← hn]
  by_cases hoff : strm.readBuffOff < strm.readBuff.length
  · -- from the buffer
    rw [if_pos hoff]
    -- a request beyond what is buffered is answered with the rest of the buffer only
    by_cases hrem : n ≤ strm.readBuff.length - strm.readBuffOff
    · rw [if_pos hrem]
      refine ⟨_, _, rfl, ?_, (List.length_take_le _ _).trans hle, ?_⟩
      · intro hnil
        have hzero := congrArg List.length hnil
        rw [List.length_take, List.length_drop, List.length_nil] at hzero
        omega
      · show _ = _ ++ (strm.readBuff.drop (strm.readBuffOff + n) ++ _)
        rw [← List.drop_drop, ← List.append_assoc, List.take_append_drop]
        rfl
    · rw [if_neg hrem]
      refine ⟨_, _, rfl, ?_, ?_, ?_⟩
      · intro hnil
        have := List.drop_eq_nil_iff.mp hnil
        omega
      · rw [List.length_drop]
        omega
      · have hall : strm.readBuff.length ≤
            strm.readBuffOff + (strm.readBuff.length - strm.readBuffOff) := by omega
        show _ = _ ++ (strm.readBuff.drop _ ++ _)
        rw [List.drop_eq_nil_of_le hall]
        rfl
  · have hcontent : strm.content = strm.sock.bytes := by
      unfold content
      rw [List.drop_eq_nil_of_le (Nat.le_of_not_lt hoff), List.nil_append]
    rw [hcontent] at h ⊢
    rw [if_neg hoff]
    by_cases hsmall : n < readBuffSize
    · -- into the buffer
      obtain ⟨bs, sock, hread, hne, -, hbytes⟩ :=
        readSocket_some (show 0 < readBuffSize by decide) h
      rw [if_pos hsmall, hread]
      dsimp only
      by_cases hfit : bs.length ≤ n
      · rw [if_pos hfit]
        exact ⟨_, _, rfl, hne, hfit.trans hle, hbytes⟩
      · rw [if_neg hfit]
        refine ⟨_, _, rfl, ?_, (List.length_take_le _ _).trans hle, ?_⟩
        · intro hnil
          have hzero := congrArg List.length hnil
          rw [List.length_take, List.length_nil] at hzero
          omega
        · show _ = _ ++ (bs.drop n ++ _)
          rw [← List.append_assoc, List.take_append_drop, hbytes]
    · -- past the buffer
      obtain ⟨bs, sock, hread, hne, hlen, hbytes⟩ := readSocket_some hpos h
      rw [if_neg hsmall, hread]
      exact ⟨_, _, rfl, hne, hlen.trans hle, hbytes⟩

end SocketStream

/-- `SocketStream` is a connection to read from. -/
def socketStream : Reader UInt8 SocketStream where
  read := fun size strm => strm.read size
  content := SocketStream.content
  read_end := fun size _ h => SocketStream.read_end size h
  read_piece := fun _ _ hsize h => SocketStream.read_piece hsize h

/-- The socket to the peer, by the calls that were made before: whether the
server is being stopped, what `is_writable` says, and how many bytes `send` takes
beyond the first, if it does not fail. -/
structure PeerSocket where
  isShuttingDown : Nat → Bool
  isWritable : Nat → Bool
  send : Nat → Option Nat

/-- The calls made so far, and what the peer got of the body. -/
structure Written where
  calls : Nat
  body : Bytes
  deriving DecidableEq, Repr

def Written.called (s : Written) : Written := { s with calls := s.calls + 1 }

@[simp] theorem Written.called_body (s : Written) : s.called.body = s.body := rfl

def writeData (c : PeerSocket) (text : Bytes) (s : Written) : Bool × Written :=
  if text = [] then (true, s)
  else
    match c.send s.calls with
    | none => (false, s.called)
    | some more =>
      writeData c (text.drop (more + 1)) ⟨s.calls + 1, s.body ++ text.take (more + 1)⟩
termination_by text.length
decreasing_by
  have hpos : 0 < text.length := List.length_pos_iff.mpr ‹_›
  rw [List.length_drop]
  omega

/-- No call fails, though `send` may take a part only. -/
structure PeerSocket.Holds (c : PeerSocket) : Prop where
  running : ∀ n, c.isShuttingDown n = false
  writable : ∀ n, c.isWritable n = true
  sends : ∀ n, (c.send n).isSome = true

/-- A socket that takes two bytes at a time. -/
def twoAtATime : PeerSocket := ⟨fun _ => false, fun _ => true, fun _ => some 1⟩

theorem twoAtATime_holds : twoAtATime.Holds := ⟨fun _ => rfl, fun _ => rfl, fun _ => rfl⟩

theorem writeData_isPrefix (c : PeerSocket) (text : Bytes) (s : Written) :
    ∃ sent, (writeData c text s).2.body = s.body ++ sent ∧ sent <+: text ∧
      ((writeData c text s).1 = true → sent = text) ∧
      (c.Holds → (writeData c text s).1 = true) := by
  fun_induction writeData c text s with
  | case1 s => exact ⟨[], (List.append_nil _).symm, List.nil_prefix, fun _ => rfl, fun _ => rfl⟩
  | case2 text s hne hsend =>
    refine ⟨[], (List.append_nil _).symm, List.nil_prefix, fun h => (by cases h), fun hc => ?_⟩
    have := hc.sends s.calls
    rw [hsend] at this
    cases this
  | case3 text s hne more hsend ih =>
    obtain ⟨sent, hbody, hsent, hall, hholds⟩ := ih
    have hjoin : text.take (more + 1) ++ text.drop (more + 1) = text := List.take_append_drop _ _
    refine ⟨text.take (more + 1) ++ sent, ?_, ?_, fun h => ?_, hholds⟩
    · rw [hbody, List.append_assoc]
    · have := (List.prefix_append_right_inj (text.take (more + 1))).mpr hsent
      rwa [hjoin] at this
    · rw [hall h, hjoin]

end EzRemote.Http

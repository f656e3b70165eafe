import EzRemote.Ftp.Framing

/-!
# The buffer of Readline

`Readline(buf, max, nControl)` for any buffer and any `max`.  `none` is an access
outside the buffer, a negative count or one larger than the space that is left,
or a `recv` that returns more than it was asked for.
-/

namespace EzRemote.Ftp

/-- A write into a buffer, which must have room for it. -/
def store (buf : Bytes) (pos : Nat) (data : Bytes) : Option Bytes :=
  if pos + data.length ≤ buf.length then some (overwrite buf pos data) else none

/-- What `Readline` returns and leaves: `copied` counts the bytes that it has
moved into the buffer. -/
structure LineResult where
  retval : Int
  buf : Bytes
  copied : Nat
  h : FtpHandle
  wire : List Recv
  deriving DecidableEq, Repr

/-- What a pass of the loop leads to: a `break`, or `recv`. -/
inductive LinePass
  | done (retval : Int) (buf : Bytes) (copied : Nat) (h : FtpHandle)
  | more (buf : Bytes) (max bp retval : Nat) (h : FtpHandle)
  deriving DecidableEq, Repr

/-- The loop behind the copy, up to `recv`. -/
def lineRest (buf : Bytes) (max bp retval : Nat) (h : FtpHandle) : Option LinePass :=
  if max = 1 then (store buf 0 [0]).map fun buf => .done retval buf bp h
  else some (.more buf max bp retval h.rewind)

/-- The count of `memccpy`. -/
def copyCount (max cavail : Nat) : Option Nat :=
  if cavail ≤ max then some cavail else if max = 0 then none else some (max - 1)

/-- One pass of the loop up to `recv`; `bp` is an offset in the buffer. -/
def linePass (buf : Bytes) (max bp retval : Nat) (h : FtpHandle) : Option LinePass :=
  if 0 < h.cavail then
    (copyCount max h.cavail).bind fun count =>
      if buf.length < bp + count then none
      else
        let src := h.unread.take count
        let line := upTo lf src
        let x := line.length
        (store buf bp (line ++ [0])).bind fun buf =>
          let h := h.advance x
          if lf ∈ src then
            if bp + x < 2 then none
            else if cStr (buf.drop (bp + x - 2)) = crlf then
              (store buf (bp + x - 2) [lf, 0]).map fun buf => .done (retval + x - 1) buf (bp + x) h
            else some (.done (retval + x) buf (bp + x) h)
          else lineRest buf (max - x) (bp + x) (retval + x) h
  else lineRest buf max bp retval h

/-- `recv` has returned 0: one more pass, then the loop ends. -/
def lineEof (buf : Bytes) (max bp retval : Nat) (h : FtpHandle) (wire : List Recv) :
    Option LineResult :=
  (linePass buf max bp retval h).map fun
    | .done result buf copied h => ⟨result, buf, copied, h, wire⟩
    | .more buf _ bp retval h => ⟨if retval = 0 then -1 else retval, buf, bp, h, wire⟩

/-- The loop; `wire` lists what its calls of `recv` return. -/
def lineLoop : List Recv → Bytes → Nat → Nat → Nat → FtpHandle → Option LineResult
  | [], buf, max, bp, retval, h =>
    (linePass buf max bp retval h).bind fun
      | .done result buf copied h => some ⟨result, buf, copied, h, []⟩
      | .more buf max bp retval h => lineEof buf max bp retval h []
  | r :: wire, buf, max, bp, retval, h =>
    (linePass buf max bp retval h).bind fun
      | .done result buf copied h => some ⟨result, buf, copied, h, r :: wire⟩
      | .more buf max bp retval h =>
        match r with
        | .error => some ⟨-1, buf, bp, h, wire⟩
        | .data [] => lineEof buf max bp retval h wire
        | .data b =>
          if h.cleft < b.length then none
          else lineLoop wire buf max bp retval (h.received b)

/-- `Readline`. -/
def readlineInto (buf : Bytes) (max : Nat) (h : FtpHandle) (wire : List Recv) : Option LineResult :=
  if max = 0 then some ⟨0, buf, 0, h, wire⟩ else lineLoop wire buf max 0 0 h

/-- What the calls of `recv` bring before an error or the end of the stream. -/
def segments : List Recv → List Bytes
  | .data (b :: bs) :: wire => (b :: bs) :: segments wire
  | _ => []

/-- The pieces in which a call sees its bytes: what is in the buffer of the
handle, then the segments. -/
def pieces (h : FtpHandle) (wire : List Recv) : List Bytes := h.unread :: segments wire

/-- A piece ends exactly behind byte `max` and has at least two bytes, and no
line ends among the first `max - 1` bytes. -/
def Overruns (max : Nat) (pieces : List Bytes) : Prop :=
  ∃ before piece behind, pieces = before ++ piece :: behind ∧ 2 ≤ piece.length ∧
    (before ++ [piece]).flatten.length = max ∧ lf ∉ (before ++ [piece]).flatten.take (max - 1)

/-- The first byte is a line end. -/
def StartsWithLf (pieces : List Bytes) : Prop := pieces.flatten.head? = some lf

/-- No `recv` returns more than the buffer of the handle holds. -/
def Bounded (wire : List Recv) : Prop := ∀ r ∈ wire, r.bytes.length ≤ ftpClientBufsiz

/-- The first piece decides, or leaves it to the others. -/
theorem overruns_cons {max : Nat} {piece : Bytes} {pieces : List Bytes} (hmax : 2 ≤ max) :
    Overruns max (piece :: pieces) ↔ lf ∉ piece.take (max - 1) ∧
      (piece.length = max ∨ piece.length < max - 1 ∧ Overruns (max - piece.length) pieces) := by
  constructor
  · rintro ⟨before, p, behind, heq, hp, hlen, hlf⟩
    cases before with
    | nil =>
      cases heq
      simp only [List.nil_append, List.flatten_singleton] at hlen hlf
      exact ⟨hlf, .inl hlen⟩
    | cons q before =>
      cases heq
      rw [List.cons_append, List.flatten_cons] at hlen hlf
      have hrest : 2 ≤ (before ++ [p]).flatten.length := by
        rw [List.flatten_append, List.length_append, List.flatten_singleton]
        omega
      rw [List.length_append] at hlen
      rw [List.take_append] at hlf
      rw [List.mem_append, not_or] at hlf
      refine ⟨hlf.1, .inr ⟨by omega, before, p, behind, rfl, hp, by omega, ?_⟩⟩
      rw [show max - piece.length - 1 = max - 1 - piece.length by omega]
      exact hlf.2
  · rintro ⟨hlf, hlen | ⟨hlen, before, p, behind, rfl, hp, htotal, hrest⟩⟩
    · exact ⟨[], piece, pieces, rfl, by omega, by simpa using hlen, by simpa using hlf⟩
    · refine ⟨piece :: before, p, behind, rfl, hp, ?_, ?_⟩
      · rw [List.cons_append, List.flatten_cons, List.length_append]
        omega
      · rw [List.cons_append, List.flatten_cons, List.take_append, List.mem_append, not_or]
        refine ⟨hlf, ?_⟩
        rwa [show max - 1 - piece.length = max - piece.length - 1 by omega]

theorem upTo_append_of_mem {c : UInt8} {a : Bytes} (b : Bytes) (h : c ∈ a) :
    upTo c (a ++ b) = upTo c a := by
  induction a with
  | nil => cases h
  | cons x a ih =>
    rw [List.cons_append, upTo, upTo]
    by_cases hx : x = c
    · rw [if_pos hx, if_pos hx]
    · rw [if_neg hx, if_neg hx, ih ((List.mem_cons.mp h).resolve_left (Ne.symm hx))]

theorem upTo_append_of_notMem {c : UInt8} {a : Bytes} (b : Bytes) (h : c ∉ a) :
    upTo c (a ++ b) = a ++ upTo c b := by
  induction a with
  | nil => rfl
  | cons x a ih =>
    rw [List.mem_cons, not_or] at h
    rw [List.cons_append, upTo, if_neg (Ne.symm h.1), ih h.2, List.cons_append]

theorem length_upTo_le (c : UInt8) (b : Bytes) : (upTo c b).length ≤ b.length := by
  induction b with
  | nil => exact Nat.le_refl _
  | cons x b ih =>
    unfold upTo
    split
    · exact Nat.succ_le_succ (Nat.zero_le _)
    · exact Nat.succ_le_succ ih

theorem length_upTo_lt_two {b : Bytes} (h : lf ∈ b) :
    (upTo lf b).length < 2 ↔ b.head? = some lf := by
  cases b with
  | nil => cases h
  | cons x b =>
    unfold upTo
    by_cases hx : x = lf
    · rw [if_pos hx, hx]
      exact iff_of_true (by decide) rfl
    · rw [if_neg hx]
      have hb : lf ∈ b := (List.mem_cons.mp h).resolve_left (Ne.symm hx)
      refine iff_of_false ?_ (fun heq => hx (Option.some.inj heq))
      cases b with
      | nil => cases hb
      | cons y b =>
        unfold upTo
        split <;> simp

/-- `cget + cavail = cput`. -/
def FtpHandle.Pointers (h : FtpHandle) : Prop := h.cget + h.cavail = h.buf.length

/-- What the rewind leaves. -/
def FtpHandle.emptied (h : FtpHandle) : FtpHandle :=
  { h with buf := [], cget := 0, cavail := 0, cleft := ftpClientBufsiz }

theorem FtpHandle.Pointers.length_unread {h : FtpHandle} (hp : h.Pointers) :
    h.unread.length = h.cavail := by
  unfold FtpHandle.Pointers at hp
  rw [FtpHandle.unread, List.length_take, List.length_drop]
  omega

theorem FtpHandle.Pointers.advance {h : FtpHandle} (hp : h.Pointers) {x : Nat} (hx : x ≤ h.cavail) :
    (h.advance x).Pointers := by
  unfold FtpHandle.Pointers at *
  show h.cget + x + (h.cavail - x) = h.buf.length
  omega

theorem length_store {buf buf' : Bytes} {pos : Nat} {data : Bytes}
    (h : store buf pos data = some buf') : buf'.length = buf.length := by
  unfold store at h
  split at h
  · rename_i hfit
    cases h
    exact length_overwrite hfit
  · cases h

theorem store_some (buf : Bytes) (pos : Nat) (data : Bytes) (h : pos + data.length ≤ buf.length) :
    ∃ buf', store buf pos data = some buf' ∧ buf'.length = buf.length :=
  ⟨_, if_pos h, length_overwrite h⟩

theorem store_none {buf : Bytes} {pos : Nat} {data : Bytes} (h : buf.length < pos + data.length) :
    store buf pos data = none := if_neg (Nat.not_le.mpr h)

section Pass

variable {h : FtpHandle} (hp : h.Pointers) {buf : Bytes} {max bp : Nat}
  (hbuf : buf.length = bp + max) (hmax : 2 ≤ max) (retval : Nat)
include hp hbuf hmax

theorem linePass_eq (h0 : h.unread ≠ []) : ∃ src, linePass buf max bp retval h =
      ((store buf bp (upTo lf src ++ [0])).bind fun buf =>
        if lf ∈ src then
          if bp + (upTo lf src).length < 2 then none
          else if cStr (buf.drop (bp + (upTo lf src).length - 2)) = crlf then
            (store buf (bp + (upTo lf src).length - 2) [lf, 0]).map fun buf =>
              .done (retval + (upTo lf src).length - 1) buf (bp + (upTo lf src).length)
                (h.advance (upTo lf src).length)
          else some (.done (retval + (upTo lf src).length) buf (bp + (upTo lf src).length)
            (h.advance (upTo lf src).length))
        else lineRest buf (max - (upTo lf src).length) (bp + (upTo lf src).length)
          (retval + (upTo lf src).length) (h.advance (upTo lf src).length)) ∧
      src = if h.unread.length ≤ max then h.unread else h.unread.take (max - 1) := by
  have hlen := hp.length_unread
  have hpos : 0 < h.cavail := hlen ▸ List.length_pos_iff.mpr h0
  refine ⟨_, ?_, rfl⟩
  unfold linePass copyCount
  rw [if_pos hpos, hlen]
  by_cases hle : h.cavail ≤ max
  · rw [if_pos hle, if_pos hle, Option.bind_some, if_neg (by omega),
      List.take_of_length_le (Nat.le_of_eq hlen)]
  · rw [if_neg hle, if_neg hle, if_neg (by omega), Option.bind_some, if_neg (by omega)]

/-- A line ends in the buffer of the handle: the pass takes it, unless it is the
lone line end of a call that has copied nothing. -/
theorem linePass_line (hlf : lf ∈ h.unread.take (max - 1)) :
    (linePass buf max bp retval h = none ↔ bp = 0 ∧ h.unread.head? = some lf) ∧
      ∀ q, linePass buf max bp retval h = some q → ∃ result buf' x,
        q = .done result buf' (bp + x) (h.advance x) ∧ x ≤ h.cavail := by
  have hne : h.unread ≠ [] := by
    intro h0
    rw [h0, List.take_nil] at hlf
    cases hlf
  obtain ⟨src, hpass, hsrc⟩ := linePass_eq hp hbuf hmax retval hne
  have hsplit : ∃ rest, src = h.unread.take (max - 1) ++ rest := by
    rw [hsrc]
    split
    · exact ⟨_, (List.take_append_drop _ _).symm⟩
    · exact ⟨[], (List.append_nil _).symm⟩
  obtain ⟨rest, hsplit⟩ := hsplit
  have hline : upTo lf src = upTo lf (h.unread.take (max - 1)) := by
    rw [hsplit, upTo_append_of_mem _ hlf]
  have hmem : lf ∈ src := by
    rw [hsplit]
    exact List.mem_append_left _ hlf
  have hshort : (upTo lf src).length ≤ max - 1 := by
    rw [hline]
    exact (length_upTo_le _ _).trans (List.length_take_le _ _)
  have hav : (upTo lf src).length ≤ h.cavail := by
    rw [hline, ← hp.length_unread]
    refine (length_upTo_le _ _).trans ?_
    rw [List.length_take]
    exact Nat.min_le_right _ _
  have hhead : src.head? = h.unread.head? := by
    rw [hsrc]
    split
    · rfl
    · rw [List.head?_take, if_neg (by omega)]
  -- `bp - 2` is before the buffer only behind a line end that is alone
  have htwo := length_upTo_lt_two hmem
  have hpos : 0 < (upTo lf src).length := by
    cases hs : src with
    | nil =>
      rw [hs] at hmem
      cases hmem
    | cons x b =>
      unfold upTo
      split <;> simp
  obtain ⟨buf', hstore, hlen⟩ : ∃ buf', store buf bp (upTo lf src ++ [0]) = some buf' ∧
      buf'.length = buf.length := by
    apply store_some
    rw [List.length_append, List.length_singleton]
    omega
  rw [hpass, hstore, Option.bind_some, if_pos hmem]
  by_cases hbad : bp + (upTo lf src).length < 2
  · rw [if_pos hbad]
    refine ⟨iff_of_true rfl ⟨by omega, ?_⟩, fun q hq => by cases hq⟩
    rw [← hhead]
    exact htwo.mp (by omega)
  · rw [if_neg hbad]
    have hgood : ¬ (bp = 0 ∧ h.unread.head? = some lf) := by
      rintro ⟨h0, hh⟩
      rw [← hhead] at hh
      have := htwo.mpr hh
      omega
    split
    · have hlen : bp + (upTo lf src).length - 2 + [lf, (0 : UInt8)].length ≤ buf'.length := by
        simp only [List.length_cons, List.length_nil]
        omega
      obtain ⟨buf'', hstore', -⟩ := store_some buf' (bp + (upTo lf src).length - 2) [lf, 0] hlen
      rw [hstore', Option.map_some]
      refine ⟨iff_of_false (Option.some_ne_none _) hgood, ?_⟩
      intro q hq
      cases hq
      exact ⟨_, _, _, rfl, hav⟩
    · refine ⟨iff_of_false (Option.some_ne_none _) hgood, ?_⟩
      intro q hq
      cases hq
      exact ⟨_, _, _, rfl, hav⟩

/-- Exactly as many bytes as there is room for: the NUL does not fit. -/
theorem linePass_full (hlf : lf ∉ h.unread.take (max - 1)) (hlen : h.unread.length = max) :
    linePass buf max bp retval h = none := by
  have hne : h.unread ≠ [] := by
    apply List.ne_nil_of_length_pos
    omega
  obtain ⟨src, hpass, hsrc⟩ := linePass_eq hp hbuf hmax retval hne
  rw [if_pos (Nat.le_of_eq hlen)] at hsrc
  have hcopied : upTo lf src = h.unread := by
    rw [hsrc, ← List.take_append_drop (max - 1) h.unread, upTo_append_of_notMem _ hlf]
    congr 1
    have hone : (h.unread.drop (max - 1)).length = 1 := by
      rw [List.length_drop]
      omega
    obtain ⟨x, hx⟩ := List.length_eq_one_iff.mp hone
    rw [hx]
    unfold upTo
    split
    · rfl
    · rfl
  rw [hpass, hcopied, store_none, Option.bind_none]
  rw [List.length_append, List.length_singleton]
  omega

/-- More bytes than that, or one less: the buffer is full and the call ends. -/
theorem linePass_cut (hlf : lf ∉ h.unread.take (max - 1)) (hlong : max - 1 ≤ h.unread.length)
    (hlen : h.unread.length ≠ max) :
    ∃ buf', linePass buf max bp retval h =
      some (.done ↑(retval + (max - 1)) buf' (bp + (max - 1)) (h.advance (max - 1))) := by
  have hne : h.unread ≠ [] := by
    apply List.ne_nil_of_length_pos
    omega
  obtain ⟨src, hpass, hsrc⟩ := linePass_eq hp hbuf hmax retval hne
  have hcut : src = h.unread.take (max - 1) := by
    rw [hsrc]
    split
    · rw [List.take_of_length_le]
      omega
    · rfl
  have hx : (h.unread.take (max - 1)).length = max - 1 := by
    rw [List.length_take]
    omega
  obtain ⟨buf', hstore, hblen⟩ : ∃ buf', store buf bp (h.unread.take (max - 1) ++ [0]) = some buf' ∧
      buf'.length = buf.length := by
    apply store_some
    rw [List.length_append, hx, List.length_singleton]
    omega
  obtain ⟨buf'', hstore', -⟩ := store_some buf' 0 [0]
    (by simp only [List.length_cons, List.length_nil]; omega)
  refine ⟨buf'', ?_⟩
  rw [hpass, hcut, upTo_of_notMem hlf, hstore, Option.bind_some, if_neg hlf, hx, lineRest,
    if_pos (by omega), hstore', Option.map_some]

/-- Fewer bytes: the call goes on to `recv` with an empty buffer. -/
theorem linePass_more (hlf : lf ∉ h.unread.take (max - 1)) (hshort : h.unread.length < max - 1) :
    ∃ buf', buf'.length = buf.length ∧ linePass buf max bp retval h =
      some (.more buf' (max - h.unread.length) (bp + h.unread.length) (retval + h.unread.length)
        h.emptied) := by
  have hlen := hp.length_unread
  unfold FtpHandle.Pointers at hp
  rw [List.take_of_length_le (Nat.le_of_lt hshort)] at hlf
  by_cases h0 : h.unread = []
  · have hav : h.cavail = 0 := by
      rw [← hlen, h0]
      rfl
    refine ⟨buf, rfl, ?_⟩
    unfold linePass lineRest FtpHandle.rewind
    rw [if_neg (by omega), if_neg (by omega), if_pos (by omega), h0]
    rfl
  · obtain ⟨src, hpass, hsrc⟩ :=
      linePass_eq (by unfold FtpHandle.Pointers; exact hp) hbuf hmax retval h0
    rw [if_pos (by omega)] at hsrc
    obtain ⟨buf', hstore, hblen⟩ : ∃ buf', store buf bp (h.unread ++ [0]) = some buf' ∧
        buf'.length = buf.length := by
      apply store_some
      rw [List.length_append, List.length_singleton]
      omega
    refine ⟨buf', hblen, ?_⟩
    rw [hpass, hsrc, upTo_of_notMem hlf, hstore, Option.bind_some, if_neg hlf, lineRest,
      if_neg (by omega)]
    congr 2
    unfold FtpHandle.rewind
    rw [if_pos]
    · rfl
    · show h.buf.length = h.cget + h.unread.length
      omega

end Pass

theorem FtpHandle.emptied_pointers (h : FtpHandle) : h.emptied.Pointers := rfl

theorem FtpHandle.unread_emptied (h : FtpHandle) : h.emptied.unread = [] := rfl

theorem FtpHandle.Pointers.received {h : FtpHandle} (hp : h.Pointers) (b : Bytes) :
    (h.received b).Pointers := by
  unfold FtpHandle.Pointers at *
  show h.cget + (h.cavail + b.length) = (h.buf ++ b).length
  rw [List.length_append]
  omega

theorem FtpHandle.unread_received_emptied (h : FtpHandle) (b : Bytes) :
    (h.emptied.received b).unread = b := by
  show (([] ++ b).drop 0).take (0 + b.length) = b
  rw [List.nil_append, List.drop_zero, Nat.zero_add, List.take_length]

theorem lineEof_emptied {buf : Bytes} {max bp : Nat} (hbuf : buf.length = bp + max) (hmax : 2 ≤ max)
    (retval : Nat) (h : FtpHandle) (wire : List Recv) :
    ∃ result buf', lineEof buf max bp retval h.emptied wire =
      some ⟨result, buf', bp, h.emptied, wire⟩ := by
  obtain ⟨buf', -, hpass⟩ := linePass_more h.emptied_pointers hbuf hmax retval
    (by rw [h.unread_emptied, List.take_nil]; exact List.not_mem_nil)
    (by rw [h.unread_emptied, List.length_nil]; omega)
  refine ⟨if retval = 0 then -1 else (retval : Int), buf', ?_⟩
  rw [lineEof, hpass]
  rfl

/-- The rest of a call that has copied `bp` bytes goes wrong. -/
def Strays (max bp : Nat) (pieces : List Bytes) : Prop :=
  Overruns max pieces ∨ bp = 0 ∧ StartsWithLf pieces

section Strays

variable {max bp : Nat} (hmax : 2 ≤ max) {piece : Bytes} (pieces : List Bytes)
include hmax

theorem strays_line (hlf : lf ∈ piece.take (max - 1)) :
    Strays max bp (piece :: pieces) ↔ bp = 0 ∧ piece.head? = some lf := by
  cases piece with
  | nil =>
    rw [List.take_nil] at hlf
    cases hlf
  | cons x piece =>
    unfold Strays
    rw [overruns_cons hmax]
    exact or_iff_right (fun h => h.1 hlf)

theorem not_startsWithLf (hne : piece ≠ []) (hlf : lf ∉ piece.take (max - 1)) :
    ¬ StartsWithLf (piece :: pieces) := by
  intro h
  cases piece with
  | nil => exact hne rfl
  | cons x piece =>
    apply hlf
    obtain ⟨k, hk⟩ : ∃ k, max - 1 = k + 1 := ⟨max - 2, by omega⟩
    rw [hk, List.take_succ_cons, ← Option.some.inj h]
    exact List.mem_cons_self

theorem not_strays_cut (hlf : lf ∉ piece.take (max - 1)) (hlong : max - 1 ≤ piece.length)
    (hlen : piece.length ≠ max) : ¬ Strays max bp (piece :: pieces) := by
  have hne : piece ≠ [] := by
    apply List.ne_nil_of_length_pos
    omega
  rintro (h | ⟨-, h⟩)
  · rcases ((overruns_cons hmax).mp h).2 with heq | ⟨hlt, -⟩
    · exact hlen heq
    · omega
  · exact not_startsWithLf hmax pieces hne hlf h

theorem strays_more (hlf : lf ∉ piece.take (max - 1)) (hshort : piece.length < max - 1) :
    Strays max bp (piece :: pieces) ↔ Strays (max - piece.length) (bp + piece.length) pieces := by
  unfold Strays
  apply or_congr
  · rw [overruns_cons hmax]
    constructor
    · rintro ⟨-, heq | ⟨-, h⟩⟩
      · omega
      · exact h
    · exact fun h => ⟨hlf, .inr ⟨hshort, h⟩⟩
  · by_cases hne : piece = []
    · rw [hne]
      rfl
    · have hpos := List.length_pos_iff.mpr hne
      exact iff_of_false (fun h => not_startsWithLf hmax pieces hne hlf h.2) (by omega)

end Strays

theorem not_overruns_nil (max : Nat) : ¬ Overruns max [] := by
  rintro ⟨before, piece, behind, heq, -⟩
  cases before <;> cases heq

theorem not_strays_nil (max bp : Nat) : ¬ Strays max bp [] := by
  rintro (h | ⟨-, h⟩)
  · exact not_overruns_nil max h
  · cases h

/-- What a call takes off the connection: the bytes that it has copied, and
nothing else. -/
structure Consumed (bp : Nat) (text : Bytes) (r : LineResult) : Prop where
  pointers : r.h.Pointers
  copied : bp ≤ r.copied
  rest : r.h.unread ++ wireBytes r.wire = text.drop (r.copied - bp)

theorem lineLoop_of_none {buf : Bytes} {max bp retval : Nat} {h : FtpHandle} (wire : List Recv)
    (hpass : linePass buf max bp retval h = none) : lineLoop wire buf max bp retval h = none := by
  cases wire <;> (unfold lineLoop; rw [hpass]; rfl)

theorem lineLoop_of_done {buf buf' : Bytes} {max bp retval c : Nat} {result : Int}
    {h g : FtpHandle} (wire : List Recv)
    (hpass : linePass buf max bp retval h = some (.done result buf' c g)) :
    lineLoop wire buf max bp retval h = some ⟨result, buf', c, g, wire⟩ := by
  cases wire <;> (unfold lineLoop; rw [hpass]; rfl)

theorem consumed_advance {h : FtpHandle} (hp : h.Pointers) {x : Nat} (hx : x ≤ h.cavail) (bp : Nat)
    (result : Int) (buf : Bytes) (wire : List Recv) :
    Consumed bp (h.unread ++ wireBytes wire) ⟨result, buf, bp + x, h.advance x, wire⟩ where
  pointers := hp.advance hx
  copied := Nat.le_add_right _ _
  rest := by
    show (h.advance x).unread ++ wireBytes wire = _
    rw [FtpHandle.unread_advance, Nat.add_sub_cancel_left, List.drop_append_of_le_length]
    rw [hp.length_unread]
    exact hx

/-- A call that ends behind the bytes of its buffer. -/
theorem consumed_emptied {h : FtpHandle} {wire wire' : List Recv}
    (hwire : wireBytes wire = wireBytes wire') (bp : Nat) (result : Int) (buf : Bytes) :
    Consumed bp (h.unread ++ wireBytes wire)
      ⟨result, buf, bp + h.unread.length, h.emptied, wire'⟩ where
  pointers := h.emptied_pointers
  copied := Nat.le_add_right _ _
  rest := by
    show h.emptied.unread ++ wireBytes wire' = _
    rw [h.unread_emptied, Nat.add_sub_cancel_left, List.drop_left, hwire, List.nil_append]

theorem Consumed.append {bp : Nat} {a text : Bytes} {r : LineResult}
    (h : Consumed (bp + a.length) text r) : Consumed bp (a ++ text) r := by
  obtain ⟨hp, hc, hrest⟩ := h
  refine ⟨hp, by omega, ?_⟩
  have hbehind : a.drop (r.copied - bp) = [] := List.drop_of_length_le (by omega)
  rw [hrest, List.drop_append, hbehind, List.nil_append, Nat.sub_sub]

/-- The call goes wrong on the streams that stray, and otherwise takes exactly
what it has copied. -/
def LineSpec (wire : List Recv) (buf : Bytes) (max bp retval : Nat) (h : FtpHandle) : Prop :=
  (lineLoop wire buf max bp retval h = none ↔ Strays max bp (pieces h wire)) ∧
    ∀ r, lineLoop wire buf max bp retval h = some r → Consumed bp (h.unread ++ wireBytes wire) r

theorem lineSpec_of_some {wire : List Recv} {buf : Bytes} {max bp retval : Nat} {h : FtpHandle}
    {r : LineResult} (hloop : lineLoop wire buf max bp retval h = some r)
    (hs : ¬ Strays max bp (pieces h wire)) (hc : Consumed bp (h.unread ++ wireBytes wire) r) :
    LineSpec wire buf max bp retval h := by
  refine ⟨iff_of_false (by rw [hloop]; exact Option.some_ne_none _) hs, ?_⟩
  intro r' hr
  rw [hloop] at hr
  cases hr
  exact hc

theorem lineSpec_last {wire : List Recv} {buf : Bytes} {max bp retval : Nat} {h : FtpHandle}
    {r : LineResult} (hmax : 2 ≤ max) (hlf : lf ∉ h.unread.take (max - 1))
    (hshort : h.unread.length < max - 1) (hseg : segments wire = [])
    (hloop : lineLoop wire buf max bp retval h = some r) (hcopied : r.copied = bp + h.unread.length)
    (hh : r.h = h.emptied) (hwire : wireBytes wire = wireBytes r.wire) :
    LineSpec wire buf max bp retval h := by
  apply lineSpec_of_some hloop
  · rw [pieces, hseg, strays_more hmax _ hlf hshort]
    exact not_strays_nil _ _
  · have hc := consumed_emptied (h := h) hwire bp r.retval r.buf
    rw [← hcopied, ← hh] at hc
    exact hc

section Call

variable (wire : List Recv) {buf : Bytes} {max bp : Nat} (retval : Nat) {h : FtpHandle}
  (hp : h.Pointers) (hbuf : buf.length = bp + max) (hmax : 2 ≤ max)
include hp hbuf hmax

theorem lineSpec_decided (hd : lf ∈ h.unread.take (max - 1) ∨ max - 1 ≤ h.unread.length) :
    LineSpec wire buf max bp retval h := by
  by_cases hlf : lf ∈ h.unread.take (max - 1)
  · obtain ⟨hnone, hdone⟩ := linePass_line hp hbuf hmax retval hlf
    have hs : Strays max bp (pieces h wire) ↔ linePass buf max bp retval h = none :=
      (strays_line hmax _ hlf).trans hnone.symm
    cases hpass : linePass buf max bp retval h with
    | none =>
      have hloop := lineLoop_of_none wire hpass
      exact ⟨iff_of_true hloop (hs.mpr hpass), fun r hr => by rw [hloop] at hr; cases hr⟩
    | some q =>
      obtain ⟨result, buf', x, rfl, hx⟩ := hdone q hpass
      apply lineSpec_of_some (lineLoop_of_done wire hpass)
      · rw [hs, hpass]
        exact Option.some_ne_none _
      · exact consumed_advance hp hx bp _ _ _
  · have hlong := hd.resolve_left hlf
    by_cases hlen : h.unread.length = max
    · have hloop := lineLoop_of_none wire (linePass_full hp hbuf hmax retval hlf hlen)
      refine ⟨iff_of_true hloop (.inl ?_), fun r hr => by rw [hloop] at hr; cases hr⟩
      exact (overruns_cons hmax).mpr ⟨hlf, .inl hlen⟩
    · obtain ⟨buf', hpass⟩ := linePass_cut hp hbuf hmax retval hlf hlong hlen
      apply lineSpec_of_some (lineLoop_of_done wire hpass)
      · exact not_strays_cut hmax _ hlf hlong hlen
      · apply consumed_advance hp
        rw [← hp.length_unread]
        exact hlong

end Call

theorem lineLoop_spec (wire : List Recv) {buf : Bytes} {max bp : Nat} (retval : Nat)
    {h : FtpHandle} (hp : h.Pointers) (hbuf : buf.length = bp + max) (hmax : 2 ≤ max)
    (hw : Bounded wire) : LineSpec wire buf max bp retval h := by
  -- induction on the calls of `recv`
  induction wire generalizing buf max bp retval h with
  | nil =>
    by_cases hd : lf ∈ h.unread.take (max - 1) ∨ max - 1 ≤ h.unread.length
    · exact lineSpec_decided [] retval hp hbuf hmax hd
    · rw [not_or, Nat.not_le] at hd
      obtain ⟨hlf, hshort⟩ := hd
      obtain ⟨buf', hlen, hpass⟩ := linePass_more hp hbuf hmax retval hlf hshort
      have hbuf' : buf'.length = bp + h.unread.length + (max - h.unread.length) := by omega
      obtain ⟨result, buf'', heof⟩ := lineEof_emptied hbuf' (by omega) (retval + h.unread.length)
        h []
      have hloop : lineLoop [] buf max bp retval h =
          some ⟨result, buf'', bp + h.unread.length, h.emptied, []⟩ := by
        rw [lineLoop, hpass]
        exact heof
      exact lineSpec_last hmax hlf hshort rfl hloop rfl rfl rfl
  | cons x wire ih =>
    by_cases hd : lf ∈ h.unread.take (max - 1) ∨ max - 1 ≤ h.unread.length
    · exact lineSpec_decided _ retval hp hbuf hmax hd
    · rw [not_or, Nat.not_le] at hd
      obtain ⟨hlf, hshort⟩ := hd
      obtain ⟨buf', hlen, hpass⟩ := linePass_more hp hbuf hmax retval hlf hshort
      have hbuf' : buf'.length = bp + h.unread.length + (max - h.unread.length) := by omega
      rcases x with _ | (_ | ⟨b, bs⟩)
      · have hloop : lineLoop (.error :: wire) buf max bp retval h =
            some ⟨-1, buf', bp + h.unread.length, h.emptied, wire⟩ := by
          rw [lineLoop, hpass]
          rfl
        exact lineSpec_last hmax hlf hshort rfl hloop rfl rfl rfl
      · obtain ⟨result, buf'', heof⟩ := lineEof_emptied hbuf' (by omega) (retval + h.unread.length)
          h wire
        have hloop : lineLoop (.data [] :: wire) buf max bp retval h =
            some ⟨result, buf'', bp + h.unread.length, h.emptied, wire⟩ := by
          rw [lineLoop, hpass]
          exact heof
        exact lineSpec_last hmax hlf hshort rfl hloop rfl rfl rfl
      · have hfit := hw _ List.mem_cons_self
        obtain ⟨hstep, hconsumed⟩ := ih (retval + h.unread.length)
          (h.emptied_pointers.received (b :: bs)) hbuf' (by omega)
          (fun r hr => hw r (List.mem_cons_of_mem _ hr))
        have hloop : lineLoop (.data (b :: bs) :: wire) buf max bp retval h =
            lineLoop wire buf' (max - h.unread.length) (bp + h.unread.length)
              (retval + h.unread.length) (h.emptied.received (b :: bs)) := by
          rw [lineLoop, hpass]
          exact if_neg (Nat.not_lt.mpr hfit)
        have hpieces : pieces (h.emptied.received (b :: bs)) wire = (b :: bs) :: segments wire := by
          rw [pieces, h.unread_received_emptied]
        rw [LineSpec, hloop]
        constructor
        · rw [hstep, hpieces]
          exact (strays_more hmax _ hlf hshort).symm
        · intro r hr
          have hc := hconsumed r hr
          rw [h.unread_received_emptied] at hc
          exact hc.append

/-- The loop of `ReadResponse` is the one on the buffer `response`. -/
def LinePass.onResponse : LinePass → Pass
  | .done retval buf _ h => .done retval { h with response := buf }
  | .more buf max bp retval h => .more max bp retval { h with response := buf }

theorem unread_response (h : FtpHandle) (buf : Bytes) :
    { h with response := buf }.unread = h.unread := rfl

theorem rewind_response (h : FtpHandle) (buf : Bytes) :
    { h with response := buf }.rewind = { h.rewind with response := buf } := by
  unfold FtpHandle.rewind
  split <;> rfl

theorem readlineRest_eq {buf : Bytes} (hbuf : buf.length = responseSize) (max bp retval : Nat)
    (h : FtpHandle) : some (readlineRest max bp retval { h with response := buf }) =
      (lineRest buf max bp retval h).map LinePass.onResponse := by
  unfold readlineRest lineRest
  split
  · have hstore : store buf 0 [0] = some (overwrite buf 0 [0]) := if_pos (by rw [hbuf]; decide)
    rw [hstore]
    rfl
  · rw [rewind_response]
    rfl

theorem readlinePass_eq {buf : Bytes} {max bp : Nat} (retval : Nat) (h : FtpHandle)
    (hbuf : buf.length = responseSize) (hroom : bp + max = responseSize) (hmax : 1 ≤ max) :
    readlinePass max bp retval { h with response := buf } =
      (linePass buf max bp retval h).map LinePass.onResponse := by
  unfold readlinePass linePass
  by_cases hav : 0 < h.cavail
  · have hcount : copyCount max h.cavail =
        some (if h.cavail ≤ max then h.cavail else max - 1) := by
      unfold copyCount
      by_cases hle : h.cavail ≤ max
      · rw [if_pos hle, if_pos hle]
      · rw [if_neg hle, if_neg hle, if_neg (by omega)]
    have hle : (if h.cavail ≤ max then h.cavail else max - 1) ≤ max := by
      split <;> omega
    rw [if_pos hav, if_pos hav, hcount]
    generalize (if h.cavail ≤ max then h.cavail else max - 1) = count at hle
    have hcopy : ¬ buf.length < bp + count := by omega
    rw [Option.bind_some, if_neg hcopy, unread_response]
    simp only [FtpHandle.writeResponse, FtpHandle.advance]
    generalize h.unread.take count = src
    generalize upTo lf src = line
    by_cases hfull : responseSize ≤ bp + line.length
    · rw [if_pos hfull, store_none (by rw [List.length_append, List.length_singleton]; omega)]
      rfl
    · have hstore : store buf bp (line ++ [0]) = some (overwrite buf bp (line ++ [0])) :=
        if_pos (by rw [List.length_append, List.length_singleton]; omega)
      have hlen := length_store hstore
      rw [if_neg hfull, hstore, Option.bind_some]
      by_cases hlf : lf ∈ src
      · rw [if_pos hlf, if_pos hlf]
        by_cases hshort : bp + line.length < 2
        · rw [if_pos hshort, if_pos hshort]
          rfl
        · rw [if_neg hshort, if_neg hshort]
          by_cases hend : cStr ((overwrite buf bp (line ++ [0])).drop (bp + line.length - 2)) = crlf
          · refine (if_pos hend).trans ?_
            rw [if_pos hend, store, if_pos]
            · rfl
            · rw [hlen, List.length_cons, List.length_singleton]
              omega
          · refine (if_neg hend).trans ?_
            rw [if_neg hend]
            rfl
      · rw [if_neg hlf, if_neg hlf]
        exact readlineRest_eq (hlen.trans hbuf) _ _ _ (h.advance line.length)
  · rw [if_neg hav, if_neg hav]
    exact readlineRest_eq hbuf max bp retval h

theorem linePass_room {buf buf' : Bytes} {max bp retval max' bp' retval' : Nat} {h h' : FtpHandle}
    (hbuf : buf.length = bp + max) (hmax : 1 ≤ max)
    (hpass : linePass buf max bp retval h = some (.more buf' max' bp' retval' h')) :
    buf'.length = buf.length ∧ bp' + max' = bp + max ∧ 1 ≤ max' := by
  unfold linePass at hpass
  by_cases hav : 0 < h.cavail
  · rw [if_pos hav] at hpass
    obtain ⟨count, -, hpass⟩ := Option.bind_eq_some_iff.mp hpass
    by_cases hcopy : buf.length < bp + count
    · rw [if_pos hcopy] at hpass
      cases hpass
    rw [if_neg hcopy] at hpass
    obtain ⟨b, hstore, hpass⟩ := Option.bind_eq_some_iff.mp hpass
    have hlen := length_store hstore
    have hfit : bp + (upTo lf (h.unread.take count) ++ [0]).length ≤ buf.length := by
      by_contra hover
      rw [store, if_neg hover] at hstore
      cases hstore
    rw [List.length_append, List.length_singleton] at hfit
    by_cases hlf : lf ∈ h.unread.take count
    · rw [if_pos hlf] at hpass
      split at hpass
      · cases hpass
      split at hpass
      · obtain ⟨_, -, hpass⟩ := Option.map_eq_some_iff.mp hpass
        cases hpass
      · cases hpass
    · rw [if_neg hlf, lineRest] at hpass
      split at hpass
      · obtain ⟨_, -, hpass⟩ := Option.map_eq_some_iff.mp hpass
        cases hpass
      · cases hpass
        omega
  · rw [if_neg hav, lineRest] at hpass
    split at hpass
    · obtain ⟨_, -, hpass⟩ := Option.map_eq_some_iff.mp hpass
      cases hpass
    · cases hpass
      omega

/-- What `ReadResponse` sees of a call. -/
def LineResult.onResponse (r : LineResult) : Int × FtpHandle × List Recv :=
  (r.retval, { r.h with response := r.buf }, r.wire)

theorem readlineEof_eq {buf : Bytes} {max bp : Nat} (retval : Nat) (h : FtpHandle)
    (wire : List Recv) (hbuf : buf.length = responseSize) (hroom : bp + max = responseSize)
    (hmax : 1 ≤ max) : readlineEof max bp retval { h with response := buf } wire =
      (lineEof buf max bp retval h wire).map LineResult.onResponse := by
  unfold readlineEof lineEof
  rw [readlinePass_eq retval h hbuf hroom hmax]
  cases linePass buf max bp retval h with
  | none => rfl
  | some q => cases q <;> rfl

theorem readlineLoop_eq (wire : List Recv) {buf : Bytes} {max bp : Nat} (retval : Nat)
    (h : FtpHandle) (hbuf : buf.length = responseSize) (hroom : bp + max = responseSize)
    (hmax : 1 ≤ max) : readlineLoop wire max bp retval { h with response := buf } =
      (lineLoop wire buf max bp retval h).map LineResult.onResponse := by
  -- induction on the calls of `recv`
  induction wire generalizing buf max bp retval h with
  | nil =>
    unfold readlineLoop lineLoop
    rw [readlinePass_eq retval h hbuf hroom hmax]
    cases hpass : linePass buf max bp retval h with
    | none => rfl
    | some q =>
      cases q with
      | done => rfl
      | more buf' max' bp' retval' h' =>
        obtain ⟨hlen, hsum, hpos⟩ := linePass_room (hbuf.trans hroom.symm) hmax hpass
        exact readlineEof_eq retval' h' [] (hlen.trans hbuf) (hsum.trans hroom) hpos
  | cons x wire ih =>
    unfold readlineLoop lineLoop
    rw [readlinePass_eq retval h hbuf hroom hmax]
    cases hpass : linePass buf max bp retval h with
    | none => rfl
    | some q =>
      cases q with
      | done => rfl
      | more buf' max' bp' retval' h' =>
        obtain ⟨hlen, hsum, hpos⟩ := linePass_room (hbuf.trans hroom.symm) hmax hpass
        rcases x with _ | (_ | ⟨b, bs⟩)
        · rfl
        · exact readlineEof_eq retval' h' wire (hlen.trans hbuf) (hsum.trans hroom) hpos
        · show (if h'.cleft < (b :: bs).length then none else _) =
            ((if h'.cleft < (b :: bs).length then none else _ : Option LineResult)).map _
          by_cases hfit : h'.cleft < (b :: bs).length
          · rw [if_pos hfit, if_pos hfit]
            rfl
          · rw [if_neg hfit, if_neg hfit]
            exact ih retval' (h'.received (b :: bs)) (hlen.trans hbuf) (hsum.trans hroom) hpos

/-- What `calloc` leaves, calls of `Readline` that return, and any use of the
other fields in between. -/
inductive Reached : FtpHandle → Prop
  | start {h : FtpHandle} (hbuf : h.buf = []) (hget : h.cget = 0) (hav : h.cavail = 0) : Reached h
  | call {h : FtpHandle} {buf : Bytes} {max : Nat} {wire : List Recv} {r : LineResult}
      (hr : Reached h) (hbuf : buf.length = max) (hmax : 2 ≤ max) (hw : Bounded wire)
      (hcall : readlineInto buf max h wire = some r) : Reached r.h
  | other {h g : FtpHandle} (hr : Reached h) (hbuf : g.buf = h.buf) (hget : g.cget = h.cget)
      (hav : g.cavail = h.cavail) : Reached g

theorem readlineInto_eq {max : Nat} (hmax : 2 ≤ max) (buf : Bytes) (h : FtpHandle)
    (wire : List Recv) : readlineInto buf max h wire = lineLoop wire buf max 0 0 h :=
  if_neg (by omega)

theorem Reached.pointers {h : FtpHandle} (hr : Reached h) : h.Pointers := by
  induction hr with
  | start hbuf hget hav =>
    unfold FtpHandle.Pointers
    rw [hbuf, hget, hav]
    rfl
  | call _ hbuf hmax hw hcall ih =>
    rw [readlineInto_eq hmax] at hcall
    have hlen := hbuf.trans (Nat.zero_add _).symm
    exact ((lineLoop_spec _ 0 ih hlen hmax hw).2 _ hcall).pointers
  | other _ hbuf hget hav ih =>
    unfold FtpHandle.Pointers at *
    rw [hbuf, hget, hav]
    exact ih

section Inside

variable {h : FtpHandle} (hr : Reached h) {buf : Bytes} {max : Nat} (hbuf : buf.length = max)
  (hmax : 2 ≤ max) {wire : List Recv} (hw : Bounded wire)
include hr hbuf hmax hw

/-- The streams on which a call leaves its buffer. -/
theorem readlineInto_eq_none_iff : readlineInto buf max h wire = none ↔
    Overruns max (pieces h wire) ∨ StartsWithLf (pieces h wire) := by
  have hlen := hbuf.trans (Nat.zero_add _).symm
  rw [readlineInto_eq hmax, (lineLoop_spec wire 0 hr.pointers hlen hmax hw).1, Strays,
    eq_self, true_and]

/-- A call stays inside its buffer and takes exactly what it has copied, unless a
piece ends exactly behind the buffer without a line end, or the first byte is
one. -/
theorem readline_inside_iff :
    (∃ r, readlineInto buf max h wire = some r ∧ Consumed 0 (h.unread ++ wireBytes wire) r) ↔
      ¬ Overruns max (pieces h wire) ∧ ¬ StartsWithLf (pieces h wire) := by
  have hlen := hbuf.trans (Nat.zero_add _).symm
  rw [← not_or, ← readlineInto_eq_none_iff hr hbuf hmax hw, ← ne_eq, Option.ne_none_iff_exists']
  constructor
  · rintro ⟨r, hcall, -⟩
    exact ⟨r, hcall⟩
  · rintro ⟨r, hcall⟩
    refine ⟨r, hcall, ?_⟩
    rw [readlineInto_eq hmax] at hcall
    exact (lineLoop_spec wire 0 hr.pointers hlen hmax hw).2 r hcall

end Inside

/-- A call on `response` is undefined where it leaves those 512 bytes. -/
theorem readline_eq_none_iff {s : Session} (hr : Reached s.h)
    (hresp : s.h.response.length = responseSize) (hw : Bounded s.wire) :
    readline s = none ↔ Overruns responseSize (pieces s.h s.wire) ∨
      StartsWithLf (pieces s.h s.wire) := by
  rw [← readlineInto_eq_none_iff hr hresp (by decide) hw, readlineInto_eq (by decide)]
  have hloop := readlineLoop_eq s.wire 0 s.h hresp (Nat.zero_add _) (by decide)
  have hself : { s.h with response := s.h.response } = s.h := rfl
  rw [hself] at hloop
  unfold readline
  rw [hloop]
  cases lineLoop s.wire s.h.response responseSize 0 0 s.h with
  | none => exact iff_of_true rfl rfl
  | some r => exact iff_of_false (Option.some_ne_none _) (Option.some_ne_none _)

/-- The line `AB`. -/
theorem readline_inside_line : ∃ r, readlineInto (List.replicate 512 0) 512 {}
    [.data [65, 66, 13, 10]] = some r ∧ Consumed 0 [65, 66, 13, 10] r := by
  have hw : Bounded [.data [65, 66, 13, 10]] := by
    unfold Bounded
    decide
  apply (readline_inside_iff (.start rfl rfl rfl) List.length_replicate (by decide) hw).mpr
  refine ⟨?_, by unfold StartsWithLf; decide⟩
  show ¬ Overruns 512 [[], [65, 66, 13, 10]]
  rw [overruns_cons (by decide), overruns_cons (by decide)]
  rintro ⟨-, h | ⟨-, -, h | ⟨-, h⟩⟩⟩
  · exact absurd h (by decide)
  · exact absurd h (by decide)
  · exact not_overruns_nil _ h

/-- 512 bytes without a line end, and a lone line end. -/
theorem readline_leaves_buffer :
    (¬ ∃ r, readlineInto (List.replicate 512 0) 512 {} [.data (List.replicate 512 65)] = some r ∧
      Consumed 0 (List.replicate 512 65) r) ∧
    ¬ ∃ r, readlineInto (List.replicate 512 0) 512 {} [.data [lf]] = some r ∧
      Consumed 0 [lf] r := by
  constructor
  · have hlen : (List.replicate 512 (65 : UInt8)).length = 512 := List.length_replicate
    have hw : Bounded [.data (List.replicate 512 65)] := by
      intro r hr
      rw [List.mem_singleton.mp hr]
      show (List.replicate 512 (65 : UInt8)).length ≤ ftpClientBufsiz
      rw [hlen]
      decide
    have hover : Overruns 512 [[], List.replicate 512 65] := by
      refine ⟨[[]], List.replicate 512 65, [], rfl, ?_, ?_, ?_⟩
      · rw [hlen]
        decide
      · rw [List.singleton_append, List.flatten_cons, List.nil_append, List.flatten_singleton, hlen]
      · intro hmem
        rw [List.singleton_append, List.flatten_cons, List.nil_append, List.flatten_singleton] at hmem
        exact absurd (List.eq_of_mem_replicate (List.mem_of_mem_take hmem)) (by decide)
    have hnone : readlineInto (List.replicate 512 0) 512 {} [.data (List.replicate 512 65)] = none :=
      (readlineInto_eq_none_iff (.start rfl rfl rfl) List.length_replicate (by decide) hw).mpr
        (.inl hover)
    rw [hnone]
    rintro ⟨r, hr, -⟩
    cases hr
  · have hw : Bounded [.data [lf]] := by
      unfold Bounded
      decide
    have hstart : StartsWithLf (pieces {} [.data [lf]]) := rfl
    have hnone : readlineInto (List.replicate 512 0) 512 {} [.data [lf]] = none :=
      (readlineInto_eq_none_iff (.start rfl rfl rfl) List.length_replicate (by decide) hw).mpr
        (.inr hstart)
    rw [hnone]
    rintro ⟨r, hr, -⟩
    cases hr

end EzRemote.Ftp

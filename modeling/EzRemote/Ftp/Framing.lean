import EzRemote.Ftp.Client

/-!
# Reply framing

What `Readline` and `ReadResponse` make of a control connection that carries
well formed replies: each call takes exactly one line or one reply off it,
however the bytes are cut into segments.
-/

namespace EzRemote.Ftp

@[simp] theorem length_overwrite {buf : Bytes} {pos : Nat} {data : Bytes}
    (h : pos + data.length ≤ buf.length) : (overwrite buf pos data).length = buf.length := by
  simp only [overwrite, List.length_append, List.length_take, List.length_drop]
  omega

theorem take_overwrite {buf : Bytes} {pos : Nat} (data : Bytes) (h : pos ≤ buf.length) :
    (overwrite buf pos data).take (pos + data.length) = buf.take pos ++ data := by
  have hlen : (buf.take pos ++ data).length = pos + data.length := by
    rw [List.length_append, List.length_take, Nat.min_eq_left h]
  rw [overwrite, ← hlen, List.take_left]

theorem cStr_append_nul (b rest : Bytes) : cStr (b ++ 0 :: rest) = cStr b := by
  unfold cStr
  rw [List.takeWhile_append, List.takeWhile_cons_of_neg (by simp), List.append_nil]
  split
  · rename_i hlen
    exact ((List.takeWhile_prefix _).eq_of_length hlen).symm
  · rfl

theorem cStr_append_zero {b : Bytes} (rest : Bytes) (h : 0 ∉ b) : cStr (b ++ 0 :: rest) = b := by
  rw [cStr_append_nul, cStr_of_notMem h]

theorem upTo_append {c : UInt8} {b : Bytes} (rest : Bytes) (h : c ∉ b) :
    upTo c (b ++ c :: rest) = b ++ [c] := by
  induction b with
  | nil => simp [upTo]
  | cons x b ih =>
    rw [List.mem_cons, not_or] at h
    rw [List.cons_append, upTo, if_neg (Ne.symm h.1), ih h.2, List.cons_append]

theorem upTo_of_notMem {c : UInt8} {b : Bytes} (h : c ∉ b) : upTo c b = b := by
  induction b with
  | nil => rfl
  | cons x b ih =>
    rw [List.mem_cons, not_or] at h
    rw [upTo, if_neg (Ne.symm h.1), ih h.2]

namespace FtpHandle

/-- What the reader of replies leaves alone. -/
structure Core where
  handle : Bool
  dir : Direction
  offset : Int
  correctpasv : Bool
  transfer : Pool.TransferState
  deriving DecidableEq

def core (h : FtpHandle) : Core := ⟨h.handle, h.dir, h.offset, h.correctpasv, h.transfer⟩

/-- `cget + cavail = cput`, and the response array has its size. -/
structure Balanced (h : FtpHandle) : Prop where
  buffer : h.cget + h.cavail = h.buf.length
  response : h.response.length = responseSize

variable {h : FtpHandle}

theorem Balanced.length_unread (hb : h.Balanced) : h.unread.length = h.cavail := by
  have := hb.buffer
  rw [unread, List.length_take, List.length_drop]
  omega

theorem unread_advance (h : FtpHandle) (x : Nat) : (h.advance x).unread = h.unread.drop x := by
  show ((h.buf.drop (h.cget + x)).take (h.cavail - x)) = ((h.buf.drop h.cget).take h.cavail).drop x
  rw [List.drop_take, List.drop_drop]

theorem Balanced.advance (hb : h.Balanced) {x : Nat} (hx : x ≤ h.cavail) :
    (h.advance x).Balanced := by
  refine ⟨?_, hb.response⟩
  have := hb.buffer
  show h.cget + x + (h.cavail - x) = h.buf.length
  omega

theorem Balanced.writeResponse (hb : h.Balanced) {pos : Nat} {data : Bytes}
    (hp : pos + data.length ≤ responseSize) : (h.writeResponse pos data).Balanced := by
  refine ⟨hb.buffer, ?_⟩
  show (overwrite h.response pos data).length = responseSize
  rw [length_overwrite (by rw [hb.response]; exact hp), hb.response]

theorem Balanced.rewind_eq (hb : h.Balanced) (h0 : h.cavail = 0) :
    h.rewind = { h with buf := [], cget := 0, cavail := 0, cleft := ftpClientBufsiz } := by
  have := hb.buffer
  unfold rewind
  rw [if_pos (by omega)]

end FtpHandle

open FtpHandle

/-- A line without its end. -/
structure IsLine (line : Bytes) : Prop where
  lf_notMem : lf ∉ line
  nul_notMem : (0 : UInt8) ∉ line

/-- The line, its end and a `NUL` fit the response array. -/
def FitsLine (line : Bytes) : Prop := line.length + 3 ≤ responseSize

theorem cStr_response {line response : Bytes}
    (h : response.take (line.length + 2) = line ++ [lf, 0]) :
    cStr response = cStr (line ++ [lf]) := by
  rw [← List.take_append_drop (line.length + 2) response, h,
    show line ++ [lf, 0] = line ++ [lf] ++ [0] by simp, List.append_assoc]
  exact cStr_append_nul _ _

theorem IsLine.cStr_eq {line : Bytes} (hline : IsLine line) :
    cStr (line ++ [lf]) = line ++ [lf] := by
  apply cStr_of_notMem
  rw [List.mem_append, not_or]
  exact ⟨hline.nul_notMem, by decide⟩

theorem readlinePass_done {h : FtpHandle} {bp max : Nat} {line t more : Bytes} (hb : h.Balanced)
    (hline : line.length + 3 ≤ responseSize) (hmax : bp + max = responseSize)
    (hu : h.unread = t ++ lf :: more) (ht : lf ∉ t) (hw : h.response.take bp ++ t = line ++ [cr]) :
    ∃ g : FtpHandle, readlinePass max bp bp h = some (.done (line.length + 1) g) ∧ g.Balanced ∧
      g.core = h.core ∧ g.unread = more ∧ g.response.take (line.length + 2) = line ++ [lf, 0] := by
  have hbp : bp ≤ h.response.length := by rw [hb.response]; omega
  have hlen : bp + t.length = line.length + 1 := by
    have := congrArg List.length hw
    simpa [Nat.min_eq_left hbp] using this
  have hav : t.length + 1 + more.length = h.cavail := by
    rw [← hb.length_unread, hu]
    simp only [List.length_append, List.length_cons]
    omega
  -- the copy reaches the end of the line
  obtain ⟨rest, hsrc⟩ : ∃ rest, h.unread.take (if h.cavail ≤ max then h.cavail else max - 1) =
      t ++ lf :: rest := by
    refine ⟨more.take ((if h.cavail ≤ max then h.cavail else max - 1) - (t.length + 1)), ?_⟩
    have hsplit : t ++ lf :: more = (t ++ [lf]) ++ more := by simp
    rw [hu, hsplit, List.take_append, List.take_of_length_le]
    · simp
    · rw [List.length_append, List.length_singleton]
      unfold responseSize at *
      split <;> omega
  have hx : (upTo lf (t ++ lf :: rest)).length = t.length + 1 := by
    rw [upTo_append rest ht, List.length_append, List.length_singleton]
  let g := (h.writeResponse bp (t ++ [lf] ++ [0])).advance (t.length + 1)
  have hfit : bp + (t ++ [lf] ++ [0]).length ≤ responseSize := by
    simp only [List.length_append, List.length_singleton]
    unfold responseSize at *
    omega
  have hg : g.Balanced := (hb.writeResponse hfit).advance (by
    show t.length + 1 ≤ h.cavail
    omega)
  have hprefix : g.response.take (line.length + 3) = line ++ [cr, lf, 0] := by
    have hw3 : line.length + 3 = bp + (t ++ [lf] ++ [0]).length := by
      simp only [List.length_append, List.length_singleton]
      omega
    rw [hw3]
    show (overwrite h.response bp (t ++ [lf] ++ [0])).take _ = _
    rw [take_overwrite _ hbp, ← List.append_assoc, ← List.append_assoc, hw]
    simp
  have hcrlf : cStr (g.response.drop line.length) = crlf := by
    have hsplit : g.response = line ++ [cr, lf, 0] ++ g.response.drop (line.length + 3) := by
      conv_lhs => rw [← List.take_append_drop (line.length + 3) g.response, hprefix]
    rw [hsplit, List.append_assoc, List.drop_left]
    exact cStr_append_zero (b := crlf) _ (by decide)
  refine ⟨g.writeResponse line.length [lf, 0], ?_, hg.writeResponse (by simpa using by omega), rfl,
    ?_, ?_⟩
  · unfold readlinePass
    rw [if_pos (by omega)]
    simp only [hsrc, hx]
    rw [if_neg (by unfold responseSize at *; omega), if_pos (by simp), if_neg (by omega),
      upTo_append rest ht]
    have hat : bp + (t.length + 1) - 2 = line.length := by omega
    rw [hat, if_pos hcrlf]
    congr 2
    push_cast
    omega
  · show ((h.writeResponse bp (t ++ [lf] ++ [0])).advance (t.length + 1)).unread = more
    rw [unread_advance]
    show h.unread.drop (t.length + 1) = more
    rw [hu, show t ++ lf :: more = (t ++ [lf]) ++ more by simp,
      show t.length + 1 = (t ++ [lf]).length by simp, List.drop_left]
  · show (overwrite g.response line.length [lf, 0]).take (line.length + [lf, 0].length) = _
    rw [take_overwrite _ (by rw [hg.response]; omega)]
    have := congrArg (List.take line.length) hprefix
    rw [List.take_take, Nat.min_eq_left (by omega), List.take_left] at this
    rw [this]

theorem readlinePass_more {h : FtpHandle} {bp max : Nat} (hb : h.Balanced)
    (hfit : bp + h.cavail + 1 < responseSize) (hmax : bp + max = responseSize)
    (hu : lf ∉ h.unread) :
    ∃ g : FtpHandle,
      readlinePass max bp bp h =
        some (.more (max - h.cavail) (bp + h.cavail) (bp + h.cavail) g) ∧
      g.response.length = responseSize ∧ g.core = h.core ∧ g.buf = [] ∧ g.cget = 0 ∧
      g.cavail = 0 ∧ g.cleft = ftpClientBufsiz ∧
      g.response.take (bp + h.cavail) = h.response.take bp ++ h.unread := by
  have hbp : bp ≤ h.response.length := by rw [hb.response]; omega
  unfold readlinePass
  by_cases h0 : 0 < h.cavail
  · have htake : h.unread.take (if h.cavail ≤ max then h.cavail else max - 1) = h.unread := by
      rw [if_pos (by omega), List.take_of_length_le (Nat.le_of_eq hb.length_unread)]
    rw [if_pos h0]
    simp only [htake, upTo_of_notMem hu, hb.length_unread, if_neg hu]
    rw [if_neg (by omega)]
    let g := (h.writeResponse bp (h.unread ++ [0])).advance h.cavail
    have hg : g.Balanced := by
      refine (hb.writeResponse ?_).advance (Nat.le_refl h.cavail)
      rw [List.length_append, hb.length_unread, List.length_singleton]
      omega
    refine ⟨g.rewind, ?_, ?_⟩
    · rw [readlineRest, if_neg (by omega)]
    · rw [hg.rewind_eq (Nat.sub_self h.cavail)]
      refine ⟨hg.response, rfl, rfl, rfl, rfl, rfl, ?_⟩
      have htake := take_overwrite (h.unread ++ [0]) hbp
      rw [List.length_append, hb.length_unread, List.length_singleton] at htake
      have := congrArg (List.take (bp + h.cavail)) htake
      rw [List.take_take, Nat.min_eq_left (by omega), ← List.append_assoc] at this
      show (overwrite h.response bp (h.unread ++ [0])).take (bp + h.cavail) = _
      rw [this, List.take_left']
      rw [List.length_append, List.length_take, Nat.min_eq_left hbp, hb.length_unread]
  · have hc : h.cavail = 0 := Nat.eq_zero_of_not_pos h0
    have hnil : h.unread = [] := List.eq_nil_of_length_eq_zero (by rw [hb.length_unread, hc])
    rw [if_neg h0, readlineRest, if_neg (by omega), hb.rewind_eq hc, hc, hnil]
    exact ⟨_, rfl, hb.response, rfl, rfl, rfl, rfl, rfl, (List.append_nil _).symm⟩

/-- Nothing fails and nothing ends, and a `recv` fits the buffer. -/
def Stream (wire : List Recv) : Prop :=
  ∀ r ∈ wire, ∃ b, r = .data b ∧ b ≠ [] ∧ b.length ≤ ftpClientBufsiz

def wireBytes (wire : List Recv) : Bytes := wire.flatMap Recv.bytes

/-- `text` is what the handle has still to read. -/
structure Buffered (text : Bytes) (h : FtpHandle) (wire : List Recv) : Prop where
  balanced : h.Balanced
  stream : Stream wire
  text : h.unread ++ wireBytes wire = text

theorem Buffered.cases {h : FtpHandle} {wire : List Recv} {t rest : Bytes}
    (hb : Buffered (t ++ lf :: rest) h wire) :
    (∃ more, h.unread = t ++ lf :: more ∧ rest = more ++ wireBytes wire) ∨
      ∃ t', t = h.unread ++ t' ∧ wireBytes wire = t' ++ lf :: rest := by
  rcases List.append_eq_append_iff.mp hb.text with ⟨t', ht, hw⟩ | ⟨b, hu, hr⟩
  · exact .inr ⟨t', ht, hw⟩
  · cases b with
    | nil => exact .inr ⟨[], by simpa using hu.symm, hr.symm⟩
    | cons x more =>
      rw [List.cons_append, List.cons.injEq] at hr
      exact .inl ⟨more, by rw [hu, ← hr.1], hr.2⟩

/-- A line is read off the connection wherever its segments are cut.  The
induction is on the segments, and `bp` bytes of the line are in `response`. -/
theorem readlineLoop_line (wire : List Recv) {h : FtpHandle} {bp max : Nat}
    {line t rest : Bytes} (hb : Buffered (t ++ lf :: rest) h wire)
    (hline : line.length + 3 ≤ responseSize) (hmax : bp + max = responseSize) (ht : lf ∉ t)
    (hw : h.response.take bp ++ t = line ++ [cr]) :
    ∃ g wire', readlineLoop wire max bp bp h = some ((line.length : Int) + 1, g, wire') ∧
      Buffered rest g wire' ∧ g.core = h.core ∧
      g.response.take (line.length + 2) = line ++ [lf, 0] := by
  induction wire generalizing h bp max t with
  | nil =>
    rcases hb.cases with ⟨more, hu, hr⟩ | ⟨t', -, hn⟩
    · obtain ⟨g, hp, hg, hc, hm, hresp⟩ := readlinePass_done hb.balanced hline hmax hu ht hw
      refine ⟨g, [], ?_, ⟨hg, hb.stream, by rw [hm, hr]⟩, hc, hresp⟩
      unfold readlineLoop
      rw [hp]
    · exact absurd (congrArg List.length hn) (by simp [wireBytes])
  | cons r wire ih =>
    rcases hb.cases with ⟨more, hu, hr⟩ | ⟨t', rfl, hn⟩
    · obtain ⟨g, hp, hg, hc, hm, hresp⟩ := readlinePass_done hb.balanced hline hmax hu ht hw
      refine ⟨g, r :: wire, ?_, ⟨hg, hb.stream, by rw [hm, hr]⟩, hc, hresp⟩
      unfold readlineLoop
      rw [hp]
    -- the line goes on in a later segment: the pass copies what there is and receives
    · rw [List.mem_append, not_or] at ht
      have hlen : bp + (h.cavail + t'.length) = line.length + 1 := by
        have := congrArg List.length hw
        rw [List.length_append, List.length_take, List.length_append,
          hb.balanced.length_unread, hb.balanced.response, Nat.min_eq_left (by omega),
          List.length_append, List.length_singleton] at this
        exact this
      obtain ⟨g, hp, hresp, hc, hbuf, hget, hav, hleft, htake⟩ :=
        readlinePass_more hb.balanced (by omega) hmax ht.1
      obtain ⟨b, rfl, hne, hbl⟩ := hb.stream _ List.mem_cons_self
      have hnext : Buffered (t' ++ lf :: rest) (g.received b) wire := by
        refine ⟨⟨?_, hresp⟩, fun r hr => hb.stream r (List.mem_cons_of_mem _ hr), ?_⟩
        · show g.cget + (g.cavail + b.length) = (g.buf ++ b).length
          rw [hget, hav, hbuf, List.nil_append]
          omega
        · show (((g.buf ++ b).drop g.cget).take (g.cavail + b.length)) ++ wireBytes wire = _
          rw [hget, hav, hbuf, List.nil_append, List.drop_zero, Nat.zero_add, List.take_length,
            ← hn]
          rfl
      have hmax' : bp + h.cavail + (max - h.cavail) = responseSize := by omega
      obtain ⟨g', wire', hloop, hg', hc', hr'⟩ :=
        ih hnext hmax' ht.2
          (by
            show g.response.take (bp + h.cavail) ++ t' = line ++ [cr]
            rw [htake, List.append_assoc, hw])
      refine ⟨g', wire', ?_, hg', hc'.trans hc, hr'⟩
      unfold readlineLoop
      rw [hp]
      cases b with
      | nil => exact absurd rfl hne
      | cons x b =>
        show (if g.cleft < (x :: b).length then none else _) = _
        rw [if_neg (by omega)]
        exact hloop

theorem readline_line {s : Session} {line rest : Bytes}
    (hb : Buffered (line ++ crlf ++ rest) s.h s.wire) (hline : lf ∉ line)
    (hfit : FitsLine line) :
    ∃ g wire', readline s =
        some ((line.length : Int) + 1,
          { h := g, wire := wire', trace := .reply (cStr (line ++ [lf])) :: s.trace }) ∧
      Buffered rest g wire' ∧ g.core = s.h.core ∧
      g.response.take (line.length + 2) = line ++ [lf, 0] := by
  have htext : line ++ crlf ++ rest = (line ++ [cr]) ++ lf :: rest := by simp [crlf]
  rw [htext] at hb
  obtain ⟨g, wire', hloop, hg, hc, hresp⟩ :=
    readlineLoop_line s.wire hb hfit (Nat.zero_add responseSize)
      (by
        rw [List.mem_append, not_or]
        exact ⟨hline, by decide⟩)
      (by rw [List.take_zero, List.nil_append])
  refine ⟨g, wire', ?_, hg, hc, hresp⟩
  unfold readline
  rw [hloop]
  simp only [cStr_response hresp]
  rw [if_neg (by omega)]

/-- The lines of a reply. -/
abbrev Reply := List Bytes

/-- The form of a reply: one line, or lines from the first to one that starts
with its code and a blank. -/
inductive WellFormed : Reply → Prop
  | single {l : Bytes} : IsLine l → 3 ≤ l.length → l[3]? ≠ some 45 → WellFormed [l]
  | multi {first last : Bytes} {middle : List Bytes} : (∀ l ∈ first :: (middle ++ [last]), IsLine l) →
      first[3]? = some 45 → (∀ l ∈ middle, l.take 4 ≠ first.take 3 ++ [32]) →
      last.take 4 = first.take 3 ++ [32] → WellFormed (first :: (middle ++ [last]))

/-- The form of a reply by its codes alone, whatever else its lines hold: a code
is three bytes and no NUL. -/
inductive Coded : Reply → Prop
  | single {l : Bytes} : lf ∉ l → 3 ≤ l.length → l[3]? ≠ some 45 → Coded [l]
  | multi {first last : Bytes} {middle : List Bytes} :
      (∀ l ∈ first :: (middle ++ [last]), lf ∉ l) → 0 ∉ first.take 3 → first[3]? = some 45 →
      (∀ l ∈ middle, l.take 4 ≠ first.take 3 ++ [32]) → last.take 4 = first.take 3 ++ [32] →
      Coded (first :: (middle ++ [last]))

theorem WellFormed.coded {r : Reply} (h : WellFormed r) : Coded r := by
  cases h with
  | single hl hlen hdash => exact .single hl.lf_notMem hlen hdash
  | @multi first last middle hline hdash hmid hlast =>
    have hf := hline first List.mem_cons_self
    exact .multi (fun l hl => (hline l hl).lf_notMem)
      (fun h => hf.nul_notMem (List.mem_of_mem_take h)) hdash hmid hlast

theorem WellFormed.isLine {r : Reply} (h : WellFormed r) {l : Bytes} (hl : l ∈ r) : IsLine l := by
  cases h with
  | single hline _ _ => exact List.mem_singleton.mp hl ▸ hline
  | multi hline _ _ _ => exact hline l hl

namespace Reply

def encode (r : Reply) : Bytes := r.flatMap (· ++ crlf)

/-- The digit that tells the kind of the reply. -/
def digit (r : Reply) : UInt8 := (r.headD []).headD 0

def events (r : Reply) : List Event := r.map fun l => .reply (l ++ [lf])

/-- The lines as strings. -/
def seen (r : Reply) : List Event := r.map fun l => .reply (cStr (l ++ [lf]))

/-- Every line fits the response array. -/
def Fits (r : Reply) : Prop := ∀ line ∈ r, FitsLine line

end Reply

def encodeAll (rs : List Reply) : Bytes := rs.flatMap Reply.encode

theorem expects_eq (c : Bytes) (s : Session) :
    expects c s = some (if s.h.response.headD 0 ∈ c then 1 else 0, s) := by
  show (if s.h.response.headD 0 ∈ c then pure 1 else pure 0 : Run Int) s = _
  split <;> rfl

theorem head_response {line response : Bytes} (hne : line ≠ [])
    (h : response.take (line.length + 2) = line ++ [lf, 0]) :
    response.headD 0 = line.headD 0 := by
  rw [← List.take_append_drop (line.length + 2) response, h]
  cases line with
  | nil => exact absurd rfl hne
  | cons x line => rfl

/-- `pending` covers every byte that is to come. -/
theorem Buffered.length_le_pending {text : Bytes} {s : Session} (hb : Buffered text s.h s.wire) :
    text.length ≤ s.pending := by
  have hwire : ∀ wire : List Recv,
      s.h.cavail + (wireBytes wire).length ≤ Session.pending { s with wire := wire } := by
    intro wire
    unfold Session.pending
    induction wire with
    | nil => exact Nat.le_refl _
    | cons r wire ih =>
      dsimp only at ih ⊢
      rw [List.map_cons, List.sum_cons]
      cases r with
      | error =>
        show s.h.cavail + (wireBytes wire).length ≤ s.h.cavail + (1 + _)
        omega
      | data b =>
        show s.h.cavail + (b ++ wireBytes wire).length ≤ s.h.cavail + (b.length + 1 + _)
        rw [List.length_append]
        omega
  rw [← hb.text, List.length_append, hb.balanced.length_unread]
  exact hwire s.wire

theorem length_le_encode (r : Reply) : r.length ≤ r.encode.length := by
  induction r with
  | nil => exact Nat.le_refl _
  | cons l r ih =>
    show r.length + 1 ≤ (l ++ crlf ++ Reply.encode r).length
    rw [List.length_append, List.length_append]
    show r.length + 1 ≤ l.length + 2 + _
    omega

/-- The loop of `ReadResponse` takes the lines up to the one that ends the
reply. -/
theorem readUntil_lines (middle : List Bytes) {s : Session} {last rest matching : Bytes}
    {fuel : Nat} (hb : Buffered (Reply.encode (middle ++ [last]) ++ rest) s.h s.wire)
    (hline : ∀ l ∈ middle ++ [last], lf ∉ l) (hfit : ∀ l ∈ middle ++ [last], FitsLine l)
    (hmid : ∀ l ∈ middle, (cStr (l ++ [lf])).take 4 ≠ (cStr matching).take 4)
    (hlast : (cStr (last ++ [lf])).take 4 = (cStr matching).take 4) (hfuel : middle.length < fuel) :
    ∃ g wire', readUntil matching fuel s =
        some (true,
          { h := g, wire := wire',
            trace := (Reply.seen (middle ++ [last])).reverse ++ s.trace }) ∧
      Buffered rest g wire' ∧ g.core = s.h.core ∧
      g.response.take (last.length + 2) = last ++ [lf, 0] := by
  induction middle generalizing s fuel with
  | nil =>
    obtain ⟨fuel, rfl⟩ := Nat.exists_eq_succ_of_ne_zero (Nat.ne_of_gt hfuel)
    have hl : lf ∉ last := hline last (List.mem_append_right _ List.mem_cons_self)
    have hbuf : Buffered (last ++ crlf ++ rest) s.h s.wire := by
      simpa [Reply.encode] using hb
    obtain ⟨g, wire', hr, hg, hc, hresp⟩ :=
      readline_line hbuf hl (hfit last (List.mem_append_right _ List.mem_cons_self))
    refine ⟨g, wire', ?_, hg, hc, hresp⟩
    show (readline s).bind _ = _
    rw [hr, Option.bind_some]
    show (if (last.length : Int) + 1 = -1 then _ else _ : Run Bool) _ = _
    rw [if_neg (by omega)]
    show (if strncmpEq g.response matching 4 then _ else _ : Run Bool) _ = _
    rw [if_pos (by rw [strncmpEq, cStr_response hresp]; exact hlast)]
    rfl
  | cons l middle ih =>
    obtain ⟨fuel, rfl⟩ := Nat.exists_eq_succ_of_ne_zero (Nat.ne_of_gt (Nat.zero_lt_of_lt hfuel))
    have hl : lf ∉ l := hline l List.mem_cons_self
    have hbuf : Buffered (l ++ crlf ++ (Reply.encode (middle ++ [last]) ++ rest)) s.h s.wire := by
      simpa [Reply.encode] using hb
    obtain ⟨g, wire', hr, hg, hc, hresp⟩ := readline_line hbuf hl (hfit l List.mem_cons_self)
    obtain ⟨g', wire'', hr', hg', hc', hresp'⟩ :=
      ih (s := { h := g, wire := wire', trace := .reply (cStr (l ++ [lf])) :: s.trace }) hg
        (fun x hx => hline x (List.mem_cons_of_mem _ hx))
        (fun x hx => hfit x (List.mem_cons_of_mem _ hx))
        (fun x hx => hmid x (List.mem_cons_of_mem _ hx)) (Nat.lt_of_succ_lt_succ hfuel)
    refine ⟨g', wire'', ?_, hg', hc'.trans hc, hresp'⟩
    show (readline s).bind _ = _
    rw [hr, Option.bind_some]
    show (if (l.length : Int) + 1 = -1 then _ else _ : Run Bool) _ = _
    rw [if_neg (by omega)]
    show (if strncmpEq g.response matching 4 then _ else _ : Run Bool) _ = _
    rw [if_neg (by
      rw [strncmpEq, cStr_response hresp]
      exact hmid l List.mem_cons_self)]
    rw [hr']
    simp [Reply.seen]

theorem take_cStr_eq_iff {b code : Bytes} (hcode : 0 ∉ code) :
    (cStr b).take code.length = code ↔ b.take code.length = code := by
  have hcut : ∀ rest : Bytes, cStr (code ++ rest) = code ++ cStr rest := by
    intro rest
    unfold cStr
    rw [List.takeWhile_append_of_pos]
    intro x hx
    simpa using fun h0 : x = 0 => hcode (h0 ▸ hx)
  constructor
  · intro h
    have hpre : code <+: b := h ▸ (List.take_prefix _ _).trans (List.takeWhile_prefix _)
    obtain ⟨rest, rfl⟩ := hpre
    rw [List.take_left]
  · intro h
    obtain ⟨rest, rfl⟩ : code <+: b := h ▸ List.take_prefix _ _
    rw [hcut, List.take_left]

theorem take_line_iff {line code : Bytes} (hcode : code.length = 3) :
    (line ++ [lf]).take 4 = code ++ [32] ↔ line.take 4 = code ++ [32] := by
  by_cases h4 : 4 ≤ line.length
  · rw [List.take_append_of_le_length h4]
  · constructor
    · intro h
      have hlast := congrArg List.getLast? h
      rw [List.take_of_length_le (by rw [List.length_append, List.length_singleton]; omega),
        List.getLast?_concat, List.getLast?_concat] at hlast
      exact absurd hlast (by decide)
    · intro h
      have := congrArg List.length h
      rw [List.length_take, List.length_append, List.length_singleton] at this
      omega

theorem take_matching {line response : Bytes} (hcode : 0 ∉ line.take 3)
    (h3 : 3 ≤ line.length) (h : response.take (line.length + 2) = line ++ [lf, 0]) :
    (cStr (strncpy response 3 ++ [32, 0])).take 4 = line.take 3 ++ [32] := by
  have hlen : (line.take 3).length = 3 := by
    rw [List.length_take]
    omega
  have hcut : (cStr (line ++ [lf])).take 3 = line.take 3 := by
    have := (take_cStr_eq_iff (b := line ++ [lf]) hcode).mpr
    rw [hlen] at this
    exact this (List.take_append_of_le_length h3)
  have htake : strncpy response 3 = line.take 3 := by
    unfold strncpy
    rw [cStr_response h, hcut, List.take_append_of_le_length (Nat.le_of_eq hlen.symm),
      List.take_of_length_le (Nat.le_of_eq hlen)]
  have hfree : (0 : UInt8) ∉ line.take 3 ++ [32] := by
    rw [List.mem_append, not_or]
    exact ⟨hcode, by decide⟩
  rw [htake, show line.take 3 ++ [32, 0] = (line.take 3 ++ [32]) ++ [0] by simp,
    cStr_append_zero _ hfree, List.take_of_length_le]
  rw [List.length_append, hlen, List.length_singleton]

theorem head_of_code {first last : Bytes} (hlen : 3 < first.length)
    (hlast : last.take 4 = first.take 3 ++ [32]) :
    last ≠ [] ∧ last.headD 0 = first.headD 0 := by
  cases first with
  | nil => exact absurd hlen (by simp)
  | cons y first =>
    cases last with
    | nil => exact absurd (congrArg List.length hlast) (by simp)
    | cons x last => exact ⟨List.cons_ne_nil _ _, (List.cons.inj hlast).1⟩

/-- `ReadResponse` takes one reply off the connection and tells its kind. -/
theorem readResponse_coded {s : Session} {r : Reply} {rest : Bytes}
    (hb : Buffered (r.encode ++ rest) s.h s.wire) (hr : Coded r) (hfit : r.Fits)
    (c : Bytes) :
    ∃ g wire', readResponse c s =
        some (if r.digit ∈ c then 1 else 0,
          { h := g, wire := wire', trace := r.seen.reverse ++ s.trace }) ∧
      Buffered rest g wire' ∧ g.core = s.h.core ∧
      g.response.take ((r.getLastD []).length + 2) = r.getLastD [] ++ [lf, 0] := by
  cases hr with
  | @single line hl hlen hdash =>
    have hbuf : Buffered (line ++ crlf ++ rest) s.h s.wire := by
      simpa [Reply.encode] using hb
    obtain ⟨g, wire', hread, hg, hc, hresp⟩ :=
      readline_line hbuf hl (hfit line List.mem_cons_self)
    refine ⟨g, wire', ?_, hg, hc, hresp⟩
    -- the byte behind the code is no dash: the reply ends here
    have h3 : g.response[3]? ≠ some 45 := by
      intro h3
      have htake : (g.response.take (line.length + 2))[3]? = some 45 := by
        rw [List.getElem?_take_of_lt (by omega), h3]
      rw [hresp] at htake
      by_cases h4 : 3 < line.length
      · rw [List.getElem?_append_left h4] at htake
        exact hdash htake
      · have : line.length = 3 := by omega
        rw [List.getElem?_append_right (by omega), this] at htake
        exact absurd htake (by decide)
    have hne : line ≠ [] := List.ne_nil_of_length_pos (by omega)
    show (readline s).bind _ = _
    rw [hread, Option.bind_some]
    show (if (line.length : Int) + 1 = -1 then _ else _ : Run Int) _ = _
    rw [if_neg (by omega)]
    show (if g.response[3]? = some 45 then _ else _ : Run Int) _ = _
    rw [if_neg h3, expects_eq]
    show some (if g.response.headD 0 ∈ c then (1 : Int) else 0, _) = _
    rw [head_response hne hresp]
    rfl
  | @multi first last middle hline hcode hdash hmid hlast =>
    have hf : lf ∉ first := hline first List.mem_cons_self
    have hbuf :
        Buffered (first ++ crlf ++ (Reply.encode (middle ++ [last]) ++ rest)) s.h s.wire := by
      simpa [Reply.encode] using hb
    obtain ⟨g, wire', hread, hg, hc, hresp⟩ := readline_line hbuf hf (hfit first List.mem_cons_self)
    have hlen : 3 < first.length := (List.getElem?_eq_some_iff.mp hdash).1
    have hmatch := take_matching hcode (by omega) hresp
    have hlen3 : (first.take 3).length = 3 := by
      rw [List.length_take]
      omega
    -- `strncmp` sees the line up to a NUL, but the code it looks for has none
    have hends : ∀ l : Bytes, (cStr (l ++ [lf])).take 4 = first.take 3 ++ [32] ↔
        l.take 4 = first.take 3 ++ [32] := by
      intro l
      have hfree : (0 : UInt8) ∉ first.take 3 ++ [32] := by
        rw [List.mem_append, not_or]
        exact ⟨hcode, by decide⟩
      have hcut := take_cStr_eq_iff (b := l ++ [lf]) hfree
      rw [List.length_append, hlen3, List.length_singleton] at hcut
      exact hcut.trans (take_line_iff hlen3)
    let t : Session := { h := g, wire := wire', trace := .reply (cStr (first ++ [lf])) :: s.trace }
    -- every line takes a byte of what is pending, so the loop has fuel for all
    have hfuel : middle.length < t.pending + 1 := by
      have h1 := Buffered.length_le_pending (s := t) hg
      have h2 := length_le_encode (middle ++ [last])
      rw [List.length_append] at h1 h2
      omega
    obtain ⟨g', wire'', hloop, hg', hc', hresp'⟩ :=
      readUntil_lines middle (s := t) hg
        (fun l hl => hline l (List.mem_cons_of_mem _ hl))
        (fun l hl => hfit l (List.mem_cons_of_mem _ hl))
        (fun l hl h => hmid l hl ((hends l).mp (h.trans hmatch)))
        (((hends last).mpr hlast).trans hmatch.symm) hfuel
    obtain ⟨hne, hhead⟩ := head_of_code hlen hlast
    have hlastD : (first :: (middle ++ [last])).getLastD [] = last := by
      rw [List.getLastD_eq_getLast?, ← List.cons_append, List.getLast?_concat]
      rfl
    rw [hlastD]
    refine ⟨g', wire'', ?_, hg', hc'.trans hc, hresp'⟩
    show (readline s).bind _ = _
    rw [hread, Option.bind_some]
    show (if (first.length : Int) + 1 = -1 then _ else _ : Run Int) _ = _
    rw [if_neg (by omega)]
    show (if g.response[3]? = some 45 then _ else _ : Run Int) _ = _
    rw [if_pos]
    · show (readUntil _ _ _).bind _ = _
      rw [hloop, Option.bind_some]
      show expects c _ = _
      rw [expects_eq]
      show some (if g'.response.headD 0 ∈ c then (1 : Int) else 0, _) = _
      rw [head_response hne hresp', hhead]
      simp [t, Reply.seen, Reply.digit]
    · have htake : (g.response.take (first.length + 2))[3]? = some 45 := by
        rw [hresp, List.getElem?_append_left hlen, hdash]
      rwa [List.getElem?_take_of_lt (by omega)] at htake

theorem readResponse_reply {s : Session} {r : Reply} {rest : Bytes}
    (hb : Buffered (r.encode ++ rest) s.h s.wire) (hr : WellFormed r) (hfit : r.Fits)
    (c : Bytes) :
    ∃ g wire', readResponse c s =
        some (if r.digit ∈ c then 1 else 0,
          { h := g, wire := wire', trace := r.events.reverse ++ s.trace }) ∧
      Buffered rest g wire' ∧ g.core = s.h.core ∧
      cStr g.response = r.getLastD [] ++ [lf] := by
  have hseen : r.seen = r.events := by
    apply List.map_congr_left
    intro l hl
    rw [(hr.isLine hl).cStr_eq]
  have hmem : r.getLastD [] ∈ r := by
    have hne : r ≠ [] := by
      cases hr with
      | single => exact List.cons_ne_nil _ _
      | multi => exact List.cons_ne_nil _ _
    rw [List.getLastD_eq_getLast?, List.getLast?_eq_some_getLast hne]
    exact List.getLast_mem hne
  obtain ⟨g, wire', hread, hg, hc, hresp⟩ := readResponse_coded hb hr.coded hfit c
  rw [hseen] at hread
  exact ⟨g, wire', hread, hg, hc, (cStr_response hresp).trans (hr.isLine hmem).cStr_eq⟩

end EzRemote.Ftp

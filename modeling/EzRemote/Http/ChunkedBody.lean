import EzRemote.Http.ReadContent

/-!
# What arrives of a body

The receiver gets the body in pieces that depend on the connection.  Together
they are what arrived of the body, and a body that says where it ends is read
successfully exactly when all of it arrived.
-/

namespace EzRemote.Http

variable {σ : Type*} {strm : Reader UInt8 σ}

/-- A receiver that takes everything and keeps the pieces. -/
def keep : ContentReceiver (List Bytes) := fun buf _ _ pieces => (true, pieces ++ [buf])

theorem keep_apply (buf : Bytes) (off len : Nat) (pieces : List Bytes) :
    keep buf off len pieces = (true, pieces ++ [buf]) := rfl

theorem accepts_none : ∀ p ∈ (none : Option (Nat → Nat → Bool)), ∀ r len, p r len = true :=
  fun _ hp => nomatch hp

theorem readContentWithLength_keep (strm : Reader UInt8 σ)
    {progress : Option (Nat → Nat → Bool)} (hp : ∀ p ∈ progress, ∀ r len, p r len = true)
    (len r : Nat) (s : σ) (x : List Bytes) :
    ((readContentWithLength strm keep progress len r s x).ok = true ↔
        len - r ≤ (strm.content s).length) ∧
      (readContentWithLength strm keep progress len r s x).x.flatten =
        x.flatten ++ (strm.content s).take (len - r) ∧
      strm.content (readContentWithLength strm keep progress len r s x).strm =
        (strm.content s).drop (len - r) := by
  induction h : len - r using Nat.strongRecOn generalizing r s x with
  | _ n ih =>
    rw [readContentWithLength]
    by_cases hr : r < len
    · have hpos := readSize_pos hr
      have hn : ¬ n = 0 := by omega
      rw [if_pos hr]
      obtain ⟨hs, t, hread, ht⟩ | ⟨hs, t, hread, ht⟩ | ⟨c, buf, t, hread, hlen, hcontent⟩ :=
        strm.read_cases hpos s
      · rw [hread, hs]
        simp [ht, hn]
      · rw [hread, hs]
        simp [ht, hn]
      · -- a piece was read, and less than `n` bytes are missing
        have hlen' : (c :: buf).length ≤ n := by omega
        have hacc : ∀ p ∈ progress, p (r + (buf.length + 1)) len = true := fun p h => hp p h _ _
        obtain ⟨hok, hx, ht⟩ := ih (len - (r + (buf.length + 1))) (by omega) (r + (buf.length + 1))
          t (x ++ [c :: buf]) rfl
        have hrest : len - (r + (buf.length + 1)) = n - (c :: buf).length := by
          rw [List.length_cons]
          omega
        rw [hread]
        simp only [keep_apply, Bool.true_eq_false, if_false]
        rw [if_pos hacc]
        refine ⟨hok.trans ?_, hx.trans ?_, ht.trans ?_⟩
        · rw [hcontent, List.length_append]
          omega
        · rw [hrest, hcontent, List.take_append, List.take_of_length_le hlen', List.flatten_append,
            List.flatten_singleton, List.append_assoc]
        · rw [hrest, hcontent, List.drop_append, List.drop_eq_nil_of_le hlen', List.nil_append]
    · have hn : n = 0 := by omega
      rw [if_neg hr, hn]
      simp

theorem readContentWithoutLength_keep (strm : Reader UInt8 σ) (r : Nat) (s : σ) (x : List Bytes) :
    (readContentWithoutLength strm keep r s x).ok = true ∧
      (readContentWithoutLength strm keep r s x).x.flatten = x.flatten ++ strm.content s ∧
      strm.content (readContentWithoutLength strm keep r s x).strm = [] := by
  induction h : (strm.content s).length using Nat.strongRecOn generalizing r s x with
  | _ n ih =>
    have hpos : 0 < recvBufsiz := by decide
    rw [readContentWithoutLength]
    split
    · rename_i t hread
      obtain ⟨hs, t', hread', ht⟩ | ⟨hs, t', hread', ht⟩ | ⟨c, buf, t', hread', -⟩ :=
        strm.read_cases hpos s <;> cases hread.symm.trans hread'
      rw [hs, List.append_nil]
      exact ⟨rfl, rfl, ht⟩
    · rename_i t hread
      obtain ⟨hs, t', hread', ht⟩ | ⟨hs, t', hread', ht⟩ | ⟨c, buf, t', hread', -⟩ :=
        strm.read_cases hpos s <;> cases hread.symm.trans hread'
      rw [hs, List.append_nil]
      exact ⟨rfl, rfl, ht⟩
    · rename_i c buf t hread
      obtain ⟨-, hcontent⟩ := strm.read_some hpos hread
      obtain ⟨hok, hx, ht⟩ := ih (strm.content t).length (h ▸ strm.read_shorter hpos hread)
        (r + (buf.length + 1)) t (x ++ [c :: buf]) rfl
      simp only [keep_apply, Bool.true_eq_false, if_false]
      refine ⟨hok, hx.trans ?_, ht⟩
      rw [hcontent, List.flatten_append, List.flatten_singleton, List.append_assoc]

/-- A chunk: any line that is read as the size, then the payload. -/
structure Chunk where
  sizeLine : Bytes
  payload : Bytes
  oneLine : 10 ∉ sizeLine
  size : strtoul 16 (sizeLine ++ crlf) = some payload.length
  fits : payload.length < ulongMax
  ne_nil : payload ≠ []

def Chunk.wire (chunk : Chunk) : Bytes := chunk.sizeLine ++ crlf ++ (chunk.payload ++ crlf)

/-- A line of a trailer. -/
structure Field where
  text : Bytes
  oneLine : 10 ∉ text
  ne_nil : text ≠ []
  fits : text.length + 2 ≤ headerMaxLength

def Field.wire (field : Field) : Bytes := field.text ++ crlf

/-- A body in chunks, with any line that is read as the size 0 behind them. -/
structure ChunkedBody where
  chunks : List Chunk
  lastLine : Bytes
  oneLine : 10 ∉ lastLine
  last : strtoul 16 (lastLine ++ crlf) = some 0
  trailer : List Field

namespace ChunkedBody

def payload (body : ChunkedBody) : Bytes := body.chunks.flatMap Chunk.payload

def wire (body : ChunkedBody) : Bytes :=
  body.chunks.flatMap Chunk.wire ++ (body.lastLine ++ crlf) ++
    (body.trailer.flatMap Field.wire ++ crlf)

end ChunkedBody

theorem crlf_line (l : Bytes) (rest : Bytes) : l ++ crlf ++ rest = l ++ [13] ++ 10 :: rest := by
  simp [crlf]

theorem line_crlf (l : Bytes) : l ++ [13] ++ [10] = l ++ crlf := by simp [crlf]

theorem notMem_carriageReturn {l : Bytes} (h : 10 ∉ l) : 10 ∉ l ++ [13] := by
  rw [List.mem_append, not_or]
  exact ⟨h, by decide⟩

theorem notMem_of_cutOff {l c : Bytes} (hl : 10 ∉ l) (h : CutOff c (l ++ crlf)) : 10 ∉ c := by
  rw [← line_crlf] at h
  obtain hcut | ⟨d, rfl, hd⟩ := h.append
  · exact fun hc => notMem_carriageReturn hl (hcut.1.subset hc)
  · have hlen := hd.length_lt
    rw [List.length_singleton, Nat.lt_one_iff, List.length_eq_zero_iff] at hlen
    rw [hlen, List.append_nil]
    exact notMem_carriageReturn hl

theorem cStr_line {l : Bytes} (hl : 10 ∉ l) (hne : l ≠ []) : cStr (l ++ crlf) ≠ crlf := by
  intro h
  have hprefix : crlf <+: l ++ crlf := by
    have hpre : cStr (l ++ crlf) <+: l ++ crlf := List.takeWhile_prefix _
    rwa [h] at hpre
  obtain ⟨a, l, rfl⟩ := List.exists_cons_of_ne_nil hne
  rw [crlf, List.cons_append, List.cons_prefix_cons] at hprefix
  obtain ⟨rfl, htail⟩ := hprefix
  cases l with
  | nil => exact absurd htail (by decide)
  | cons b l =>
    rw [List.cons_append, List.cons_prefix_cons] at htail
    exact hl (htail.1 ▸ List.mem_cons_of_mem _ List.mem_cons_self)

theorem cStr_cut {c : Bytes} (hc : 10 ∉ c) : cStr c ≠ crlf := by
  intro h
  have hmem : (10 : UInt8) ∈ cStr c := by
    rw [h]
    decide
  exact hc (List.takeWhile_subset _ hmem)

theorem getline_nil (line : StreamLineReader) {s : σ} (hs : strm.content s = []) :
    (getline strm line s).ok = false := by
  have hcut := getline_cut line (s := s) (by rw [hs]; exact List.not_mem_nil)
  by_contra h
  exact hcut.1 (eq_true_of_ne_false h) hs

/-- A line and the chunks from it on. -/
def nextChunks (strm : Reader UInt8 σ) (line : StreamLineReader) (s : σ) (x : List Bytes) :
    Chunks σ (List Bytes) :=
  let g := getline strm line s
  if g.ok = false then ⟨false, g.line, g.strm, x⟩ else readChunks strm keep g.line g.strm x

theorem readChunks_last {line : StreamLineReader} (h : strtoul 16 line.ptr = some 0) (s : σ)
    (x : List Bytes) : readChunks strm keep line s x = ⟨true, line, s, x⟩ := by
  rw [readChunks, h]
  rfl

theorem readChunks_chunk {line : StreamLineReader} {chunk : Chunk}
    (h : line.ptr = chunk.sizeLine ++ crlf) (s : σ) (x : List Bytes) :
    readChunks strm keep line s x =
      let c := readContentWithLength strm keep none chunk.payload.length 0 s x
      if c.ok = false then ⟨false, line, c.strm, c.x⟩
      else
        let g := getline strm line c.strm
        if g.ok = false then ⟨false, g.line, g.strm, c.x⟩
        else if cStr g.line.ptr ≠ crlf then ⟨false, g.line, g.strm, c.x⟩
        else nextChunks strm g.line g.strm c.x := by
  have hsize : strtoul 16 line.ptr = some chunk.payload.length := h ▸ chunk.size
  have hne : ¬ chunk.payload.length = 0 := fun h0 => chunk.ne_nil (List.eq_nil_of_length_eq_zero h0)
  rw [readChunks, hsize]
  dsimp only
  rw [if_neg chunk.fits.ne, if_neg hne]
  rfl

theorem readChunks_nil (line : StreamLineReader) {s : σ} (hs : strm.content s = [])
    (x : List Bytes) : (readChunks strm keep line s x).x.flatten = x.flatten ∧
      strm.content (readChunks strm keep line s x).strm = [] := by
  rw [readChunks]
  cases hn : strtoul 16 line.ptr with
  | none => exact ⟨rfl, hs⟩
  | some n =>
    dsimp only
    by_cases hmax : n = ulongMax
    · rw [if_pos hmax]
      exact ⟨rfl, hs⟩
    rw [if_neg hmax]
    by_cases hzero : n = 0
    · rw [if_pos hzero]
      exact ⟨rfl, hs⟩
    rw [if_neg hzero]
    obtain ⟨hok, hx, ht⟩ := readContentWithLength_keep strm accepts_none n 0 s x
    -- the payload is missing
    have hfalse : (readContentWithLength strm keep none n 0 s x).ok = false := by
      by_contra h
      have := hok.mp (eq_true_of_ne_false h)
      rw [hs, List.length_nil] at this
      omega
    rw [if_pos hfalse]
    rw [hs, List.take_nil, List.append_nil] at hx
    rw [hs, List.drop_nil] at ht
    exact ⟨hx, ht⟩

theorem nextChunks_line {l rest : Bytes} (hl : 10 ∉ l) (line : StreamLineReader) {s : σ}
    (hs : strm.content s = l ++ crlf ++ rest) (x : List Bytes) :
    ∃ (line' : StreamLineReader) (t : σ), line'.ptr = l ++ crlf ∧ strm.content t = rest ∧
      nextChunks strm line s x = readChunks strm keep line' t x := by
  rw [crlf_line] at hs
  obtain ⟨hok, hptr, ht⟩ := getline_line (notMem_carriageReturn hl) line hs
  refine ⟨_, _, hptr.trans (line_crlf l), ht, ?_⟩
  unfold nextChunks
  dsimp only
  rw [if_neg (by rw [hok]; decide)]

theorem nextChunks_cutLine (line : StreamLineReader) {s : σ} (hs : 10 ∉ strm.content s)
    (x : List Bytes) : (nextChunks strm line s x).x.flatten = x.flatten ∧
      strm.content (nextChunks strm line s x).strm = [] := by
  obtain ⟨-, -, ht⟩ := getline_cut line hs
  unfold nextChunks
  dsimp only
  by_cases hok : (getline strm line s).ok = false
  · rw [if_pos hok]
    exact ⟨rfl, ht⟩
  · rw [if_neg hok]
    exact readChunks_nil _ ht x

theorem nextChunks_arrived {chunks : List Chunk} {lastLine rest : Bytes} (hl : 10 ∉ lastLine)
    (hlast : strtoul 16 (lastLine ++ crlf) = some 0) (line : StreamLineReader) {s : σ}
    (hs : strm.content s = chunks.flatMap Chunk.wire ++ (lastLine ++ crlf) ++ rest)
    (x : List Bytes) : (nextChunks strm line s x).ok = true ∧
      (nextChunks strm line s x).x.flatten = x.flatten ++ chunks.flatMap Chunk.payload ∧
      strm.content (nextChunks strm line s x).strm = rest := by
  induction chunks generalizing line s x with
  | nil =>
    obtain ⟨line', t, hptr, ht, hnext⟩ := nextChunks_line hl line hs x
    rw [hnext, readChunks_last (hptr ▸ hlast), List.flatMap_nil, List.append_nil]
    exact ⟨rfl, rfl, ht⟩
  | cons chunk chunks ih =>
    have hs' : strm.content s = chunk.sizeLine ++ crlf ++ (chunk.payload ++ ([] ++ crlf ++
        (chunks.flatMap Chunk.wire ++ (lastLine ++ crlf) ++ rest))) := by
      rw [hs, List.flatMap_cons, Chunk.wire]
      simp only [List.append_assoc, List.nil_append]
    obtain ⟨line', t, hptr, ht, hnext⟩ := nextChunks_line chunk.oneLine line hs' x
    -- the payload, then the blank line behind it
    obtain ⟨hok, hx, hc⟩ := readContentWithLength_keep strm accepts_none chunk.payload.length 0 t x
    rw [hnext, readChunks_chunk hptr]
    generalize readContentWithLength strm keep none chunk.payload.length 0 t x = c at hok hx hc ⊢
    rw [ht, Nat.sub_zero, List.take_left] at hx
    rw [ht, Nat.sub_zero, List.drop_left, crlf_line] at hc
    have hok' : c.ok = true := hok.mpr (by rw [ht, List.length_append]; omega)
    obtain ⟨hgok, hgptr, hg⟩ := getline_line (notMem_carriageReturn List.not_mem_nil) line' hc
    dsimp only
    rw [if_neg (by rw [hok']; decide)]
    generalize getline strm line' c.strm = g at hgok hgptr hg ⊢
    have hblank : ¬ cStr g.line.ptr ≠ crlf := by
      rw [hgptr, not_not]
      decide
    rw [if_neg (by rw [hgok]; decide), if_neg hblank]
    obtain ⟨hrok, hrx, hr⟩ := ih g.line hg c.x
    refine ⟨hrok, ?_, hr⟩
    rw [hrx, hx, List.flatMap_cons, List.append_assoc]

/-- Chunks that are cut off: what was handed on is a part of the body, and there is no more
to read. -/
theorem nextChunks_cut {chunks : List Chunk} {lastLine : Bytes} (hl : 10 ∉ lastLine)
    (line : StreamLineReader) {s : σ}
    (hs : CutOff (strm.content s) (chunks.flatMap Chunk.wire ++ (lastLine ++ crlf)))
    (x : List Bytes) : (∃ got, got <+: chunks.flatMap Chunk.payload ∧
        (nextChunks strm line s x).x.flatten = x.flatten ++ got) ∧
      strm.content (nextChunks strm line s x).strm = [] := by
  induction chunks generalizing line s x with
  | nil =>
    rw [List.flatMap_nil, List.nil_append] at hs
    obtain ⟨hx, ht⟩ := nextChunks_cutLine line (notMem_of_cutOff hl hs) x
    exact ⟨⟨[], List.nil_prefix, by rw [hx, List.append_nil]⟩, ht⟩
  | cons chunk chunks ih =>
    rw [List.flatMap_cons, Chunk.wire, List.append_assoc, List.append_assoc] at hs
    obtain hcut | ⟨d, hd, hcut⟩ := hs.append
    · -- in the line of the size
      obtain ⟨hx, ht⟩ := nextChunks_cutLine line (notMem_of_cutOff chunk.oneLine hcut) x
      exact ⟨⟨[], List.nil_prefix, by rw [hx, List.append_nil]⟩, ht⟩
    obtain ⟨line', t, hptr, ht, hnext⟩ := nextChunks_line chunk.oneLine line hd x
    obtain ⟨hok, hx, hc⟩ := readContentWithLength_keep strm accepts_none chunk.payload.length 0 t x
    rw [hnext, readChunks_chunk hptr]
    generalize readContentWithLength strm keep none chunk.payload.length 0 t x = c at hok hx hc ⊢
    rw [ht, Nat.sub_zero] at hok hx hc
    dsimp only
    rw [List.append_assoc] at hcut
    obtain hcut | ⟨e, rfl, hbehind⟩ := hcut.append
    · -- in the payload
      have hlen := hcut.length_lt
      have hfalse : c.ok = false := by
        by_contra h
        have := hok.mp (eq_true_of_ne_false h)
        omega
      rw [if_pos hfalse]
      refine ⟨⟨d, hcut.1.trans (List.prefix_append _ _), ?_⟩, ?_⟩
      · rw [hx, List.take_of_length_le hlen.le]
      · rw [hc, List.drop_eq_nil_of_le hlen.le]
    have hok' : c.ok = true := hok.mpr (by rw [List.length_append]; omega)
    have hgot : chunk.payload <+: (chunk :: chunks).flatMap Chunk.payload := List.prefix_append _ _
    rw [List.take_left] at hx
    rw [List.drop_left] at hc
    rw [if_neg (by rw [hok']; decide)]
    obtain hcut | ⟨f, rfl, hlater⟩ := hbehind.append
    · -- behind the payload
      have hfree : 10 ∉ strm.content c.strm := by
        rw [hc]
        exact notMem_of_cutOff (l := []) List.not_mem_nil hcut
      obtain ⟨-, hgptr, hg⟩ := getline_cut line' hfree
      by_cases hgok : (getline strm line' c.strm).ok = false
      · rw [if_pos hgok]
        exact ⟨⟨_, hgot, hx⟩, hg⟩
      · rw [if_neg hgok, if_pos (by rw [hgptr]; exact cStr_cut hfree)]
        exact ⟨⟨_, hgot, hx⟩, hg⟩
    · -- in a later chunk
      have hblankLine : strm.content c.strm = [] ++ [13] ++ 10 :: f := by
        rw [hc, ← crlf_line, List.nil_append]
      obtain ⟨hgok, hgptr, hg⟩ :=
        getline_line (notMem_carriageReturn List.not_mem_nil) line' hblankLine
      generalize getline strm line' c.strm = g at hgok hgptr hg ⊢
      have hblank : ¬ cStr g.line.ptr ≠ crlf := by
        rw [hgptr, not_not]
        decide
      rw [if_neg (by rw [hgok]; decide), if_neg hblank]
      obtain ⟨⟨got, hpre, hrx⟩, hr⟩ := ih g.line (by rw [hg]; exact hlater) c.x
      refine ⟨⟨chunk.payload ++ got, ?_, ?_⟩, hr⟩
      · rw [List.flatMap_cons]
        exact (List.prefix_append_right_inj _).mpr hpre
      · rw [hrx, hx, List.append_assoc]

/-- A line and the trailer from it on. -/
def nextTrailer (strm : Reader UInt8 σ) (line : StreamLineReader) (s : σ) (headers : Headers) :
    Content σ Headers :=
  let g := getline strm line s
  if g.ok = false then ⟨false, g.strm, headers⟩ else readTrailer strm g.line g.strm headers

theorem readTrailer_blank {line : StreamLineReader} (h : line.ptr = crlf) (s : σ)
    (headers : Headers) : readTrailer strm line s headers = ⟨true, s, headers⟩ := by
  rw [readTrailer, if_pos (by rw [h]; decide)]

theorem readTrailer_field {line : StreamLineReader} {field : Field} (h : line.ptr = field.wire)
    (s : σ) (headers : Headers) : readTrailer strm line s headers =
      nextTrailer strm line s (headers ++ (parseHeader field.text).toList) := by
  have hsize : line.size = field.text.length + 2 := by
    rw [line.size_eq, h, Field.wire, List.length_append]
    rfl
  have hfits : ¬ headerMaxLength < line.size := by
    have := field.fits
    omega
  have htext : line.ptr.take (line.size - 2) = field.text := by
    rw [hsize, h, Field.wire, Nat.add_sub_cancel, List.take_left]
  have hblank : ¬ cStr line.ptr = crlf := by
    rw [h]
    exact cStr_line field.oneLine field.ne_nil
  rw [readTrailer, if_neg hblank, if_neg hfits, htext]
  rfl

theorem nextTrailer_arrived {trailer : List Field} {rest : Bytes} (line : StreamLineReader) {s : σ}
    (hs : strm.content s = trailer.flatMap Field.wire ++ crlf ++ rest) (headers : Headers) :
    (nextTrailer strm line s headers).ok = true ∧
      (nextTrailer strm line s headers).x =
        headers ++ trailer.filterMap (fun field => parseHeader field.text) ∧
      strm.content (nextTrailer strm line s headers).strm = rest := by
  induction trailer generalizing line s headers with
  | nil =>
    rw [List.flatMap_nil, crlf_line] at hs
    obtain ⟨hok, hptr, ht⟩ := getline_line (notMem_carriageReturn List.not_mem_nil) line hs
    unfold nextTrailer
    dsimp only
    rw [if_neg (by rw [hok]; decide), readTrailer_blank hptr, List.filterMap_nil, List.append_nil]
    exact ⟨rfl, rfl, ht⟩
  | cons field trailer ih =>
    have hs' : strm.content s =
        field.text ++ crlf ++ (trailer.flatMap Field.wire ++ crlf ++ rest) := by
      rw [hs, List.flatMap_cons, Field.wire]
      simp only [List.append_assoc]
    rw [crlf_line] at hs'
    obtain ⟨hok, hptr, ht⟩ := getline_line (notMem_carriageReturn field.oneLine) line hs'
    obtain ⟨hrok, hrx, hr⟩ := ih _ ht (headers ++ (parseHeader field.text).toList)
    unfold nextTrailer
    dsimp only
    rw [if_neg (by rw [hok]; decide), readTrailer_field (hptr.trans (line_crlf _))]
    refine ⟨hrok, ?_, hr⟩
    rw [hrx, List.append_assoc, List.filterMap_cons]
    cases parseHeader field.text <;> rfl

theorem nextTrailer_cutLine (line : StreamLineReader) {s : σ} (hs : 10 ∉ strm.content s)
    (headers : Headers) : (nextTrailer strm line s headers).ok = false := by
  obtain ⟨-, hptr, ht⟩ := getline_cut line hs
  unfold nextTrailer
  dsimp only
  by_cases hok : (getline strm line s).ok = false
  · rw [if_pos hok]
  · rw [if_neg hok, readTrailer, if_neg (by rw [hptr]; exact cStr_cut hs)]
    by_cases hlong : headerMaxLength < (getline strm line s).line.size
    · rw [if_pos hlong]
    · rw [if_neg hlong]
      dsimp only
      rw [dif_pos (getline_nil _ ht)]

theorem nextTrailer_cut {trailer : List Field} (line : StreamLineReader) {s : σ}
    (hs : CutOff (strm.content s) (trailer.flatMap Field.wire ++ crlf)) (headers : Headers) :
    (nextTrailer strm line s headers).ok = false := by
  induction trailer generalizing line s headers with
  | nil => exact nextTrailer_cutLine line (notMem_of_cutOff (l := []) List.not_mem_nil hs) headers
  | cons field trailer ih =>
    rw [List.flatMap_cons, List.append_assoc] at hs
    obtain hcut | ⟨d, hd, hcut⟩ := hs.append
    · exact nextTrailer_cutLine line (notMem_of_cutOff field.oneLine hcut) headers
    · rw [Field.wire, crlf_line] at hd
      obtain ⟨hok, hptr, ht⟩ := getline_line (notMem_carriageReturn field.oneLine) line hd
      unfold nextTrailer
      dsimp only
      rw [if_neg (by rw [hok]; decide), readTrailer_field (hptr.trans (line_crlf _))]
      exact ih _ (by rw [ht]; exact hcut) _

theorem readContentChunked_eq (headers : Headers) (status : Nat) (s : σ) (x : List Bytes) :
    readContentChunked strm keep headers status s x =
      let c := nextChunks strm (.new 16) s x
      if c.ok = false then ⟨false, c.strm, headers, status, c.x⟩
      else
        let t := nextTrailer strm c.line c.strm headers
        ⟨t.ok, t.strm, t.x, status, c.x⟩ := by
  unfold readContentChunked nextChunks nextTrailer
  dsimp only
  by_cases hok : (getline strm (.new 16) s).ok = false
  · rw [if_pos hok, if_pos hok]
    rfl
  · rw [if_neg hok, if_neg hok]
    generalize readChunks strm keep _ _ x = c
    by_cases hc : c.ok = false
    · rw [if_pos hc, if_pos hc]
    · rw [if_neg hc, if_neg hc]
      by_cases hg : (getline strm c.line c.strm).ok = false
      · rw [if_pos hg, if_pos hg]
      · rw [if_neg hg, if_neg hg]

variable (strm) (body : ChunkedBody) (headers : Headers) (status : Nat)

theorem readContentChunked_arrived {s : σ} {rest : Bytes}
    (hs : strm.content s = body.wire ++ rest) :
    (readContentChunked strm keep headers status s []).ok = true ∧
      (readContentChunked strm keep headers status s []).x.flatten = body.payload ∧
      (readContentChunked strm keep headers status s []).headers =
        headers ++ body.trailer.filterMap (fun field => parseHeader field.text) ∧
      strm.content (readContentChunked strm keep headers status s []).strm = rest := by
  rw [ChunkedBody.wire, List.append_assoc] at hs
  obtain ⟨hok, hx, hc⟩ := nextChunks_arrived body.oneLine body.last (.new 16) hs []
  rw [readContentChunked_eq]
  generalize nextChunks strm (.new 16) s [] = c at hok hx hc ⊢
  obtain ⟨htok, htx, ht⟩ := nextTrailer_arrived c.line hc headers
  dsimp only
  rw [if_neg (by rw [hok]; decide)]
  exact ⟨htok, hx, htx, ht⟩

theorem readContentChunked_cut {s : σ} (hs : CutOff (strm.content s) body.wire) :
    (readContentChunked strm keep headers status s []).ok = false ∧
      (readContentChunked strm keep headers status s []).x.flatten <+: body.payload := by
  rw [readContentChunked_eq]
  obtain hcut | ⟨d, hd, hcut⟩ := hs.append
  · -- before the trailer, which nothing is left for
    obtain ⟨⟨got, hpre, hx⟩, hc⟩ := nextChunks_cut body.oneLine (.new 16) hcut []
    generalize nextChunks strm (.new 16) s [] = c at hx hc ⊢
    have hfalse :=
      nextTrailer_cutLine c.line (s := c.strm) (by rw [hc]; exact List.not_mem_nil) headers
    dsimp only
    rw [List.flatten_nil, List.nil_append] at hx
    by_cases hok : c.ok = false
    · rw [if_pos hok, hx]
      exact ⟨rfl, hpre⟩
    · rw [if_neg hok, hfalse, hx]
      exact ⟨rfl, hpre⟩
  · -- in the trailer
    obtain ⟨hok, hx, hc⟩ := nextChunks_arrived body.oneLine body.last (.new 16) hd []
    generalize nextChunks strm (.new 16) s [] = c at hok hx hc ⊢
    have hfalse := nextTrailer_cut c.line (by rw [hc]; exact hcut) headers
    dsimp only
    rw [if_neg (by rw [hok]; decide), hfalse, hx]
    exact ⟨rfl, List.prefix_refl _⟩

/-- A body in chunks is read successfully exactly when all of it arrived. -/
theorem readContentChunked_iff {s : σ}
    (h : strm.content s <+: body.wire ∨ body.wire <+: strm.content s) :
    ((readContentChunked strm keep headers status s []).ok = true ↔
        body.wire <+: strm.content s) ∧
      (readContentChunked strm keep headers status s []).x.flatten <+: body.payload ∧
      (body.wire <+: strm.content s →
        (readContentChunked strm keep headers status s []).x.flatten = body.payload) := by
  by_cases harrived : body.wire <+: strm.content s
  · obtain ⟨rest, hrest⟩ := harrived
    obtain ⟨hok, hx, -⟩ := readContentChunked_arrived strm body headers status hrest.symm
    exact ⟨iff_of_true hok ⟨rest, hrest⟩, hx ▸ List.prefix_refl _, fun _ => hx⟩
  · have hcut : CutOff (strm.content s) body.wire :=
      ⟨h.resolve_right harrived, fun heq => harrived (heq ▸ List.prefix_refl _)⟩
    obtain ⟨hok, hx⟩ := readContentChunked_cut strm body headers status hcut
    exact ⟨iff_of_false (ne_true_of_eq_false hok) harrived, hx, fun ha => absurd ha harrived⟩

end EzRemote.Http

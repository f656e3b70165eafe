import EzRemote.Http.ChunkedBody
import EzRemote.Http.SocketStream

/-!
# Writing a body in chunks

`write_content_chunked` without a compressor.  The content provider is called
until `done`, or a write of nothing that no other follows in the same call, says
that no data is left.
-/

namespace EzRemote.Http

/-- What a content provider calls on the data sink: `write`, or `done_with_trailer`,
which is `done` where the trailer is empty. -/
inductive SinkCall
  | write (d : Bytes)
  | done (trailer : Headers)

/-- A call of the content provider: its calls of the data sink and its result. -/
structure ProviderCall where
  sinkCalls : List SinkCall
  ret : Bool

/-- The variables that the data sink works on, and the connection. -/
structure ChunkedSink where
  written : Written
  offset : Nat
  dataAvailable : Bool
  ok : Bool
  deriving DecidableEq, Repr

def chunkText (payload : Bytes) : Bytes := fromIToHex payload.length ++ crlf ++ payload ++ crlf

def fieldText (kv : Bytes × Bytes) : Bytes := kv.1 ++ bytes ": " ++ kv.2

namespace ChunkedSink

/-- `data_sink.write`. -/
def write (c : PeerSocket) (d : Bytes) (s : ChunkedSink) : ChunkedSink :=
  if s.ok then
    let s := { s with dataAvailable := d ≠ [], offset := s.offset + d.length }
    if d ≠ [] then
      let asked := s.written.called
      if !c.isWritable s.written.calls then { s with written := asked, ok := false }
      else
        let r := writeData c (chunkText d) asked
        { s with written := r.2, ok := r.1 }
    else s
  else s

/-- A `write_data` of `done_with_trailer`; the next ones are made even if it fails. -/
def put (c : PeerSocket) (s : ChunkedSink) (text : Bytes) : ChunkedSink :=
  let r := writeData c text s.written
  { s with written := r.2, ok := s.ok && r.1 }

/-- `done_with_trailer`. -/
def done (c : PeerSocket) (trailer : Headers) (s : ChunkedSink) : ChunkedSink :=
  if s.ok then
    (bytes "0\r\n" :: trailer.map (fieldText · ++ crlf) ++ [crlf]).foldl (put c)
      { s with dataAvailable := false }
  else s

def call (c : PeerSocket) (s : ChunkedSink) : SinkCall → ChunkedSink
  | .write d => s.write c d
  | .done trailer => s.done c trailer

/-- The variables before the loop. -/
def start : ChunkedSink := ⟨⟨0, []⟩, 0, true, true⟩

end ChunkedSink

/-- The loop of `write_content_chunked`, for these calls of the provider; without a
result it goes on to call it again. -/
def writeContentChunked (c : PeerSocket) :
    List ProviderCall → ChunkedSink → Option (Bool × ChunkedSink)
  | calls, s =>
    if s.dataAvailable ∧ !c.isShuttingDown s.written.calls then
      let asked := { s with written := s.written.called.called }
      if !c.isWritable s.written.called.calls then some (false, asked)
      else
        match calls with
        | [] => none
        | call :: calls =>
          let s := call.sinkCalls.foldl (ChunkedSink.call c) asked
          if !call.ret then some (false, s)
          else if !s.ok then some (false, s)
          else writeContentChunked c calls s
    else some (true, s)

/-- A call of the provider that only writes. -/
def ProviderCall.writes (ds : List Bytes) : ProviderCall := ⟨ds.map .write, true⟩

/-- The last call of the provider, which says so. -/
def ProviderCall.last (ds : List Bytes) (trailer : Headers) : ProviderCall :=
  ⟨ds.map .write ++ [.done trailer], true⟩

/-- What a write of these bytes sends. -/
def writeText (d : Bytes) : Bytes := if d ≠ [] then chunkText d else []

/-- What `done_with_trailer` sends. -/
def doneText (trailer : Headers) : Bytes :=
  bytes "0\r\n" ++ (trailer.flatMap (fieldText · ++ crlf) ++ crlf)

section

variable {c : PeerSocket} (hc : c.Holds)
include hc

theorem writeData_holds (text : Bytes) (s : Written) :
    (writeData c text s).1 = true ∧ (writeData c text s).2.body = s.body ++ text := by
  obtain ⟨sent, hbody, -, hall, hholds⟩ := writeData_isPrefix c text s
  exact ⟨hholds hc, by rw [hbody, hall (hholds hc)]⟩

theorem write_holds (d : Bytes) {s : ChunkedSink} (hok : s.ok = true) :
    (s.write c d).ok = true ∧ (s.write c d).dataAvailable = decide (d ≠ []) ∧
      (s.write c d).written.body = s.written.body ++ writeText d := by
  unfold ChunkedSink.write writeText
  rw [if_pos hok]
  dsimp only
  by_cases hd : d ≠ []
  · obtain ⟨hdata, hbody⟩ := writeData_holds hc (chunkText d) s.written.called
    rw [if_pos hd, if_pos hd, if_neg (by rw [hc.writable]; decide)]
    exact ⟨hdata, rfl, hbody⟩
  · rw [if_neg hd, if_neg hd]
    exact ⟨hok, rfl, (List.append_nil _).symm⟩

theorem put_holds (texts : List Bytes) {s : ChunkedSink} (hok : s.ok = true) :
    (texts.foldl (ChunkedSink.put c) s).ok = true ∧
      (texts.foldl (ChunkedSink.put c) s).dataAvailable = s.dataAvailable ∧
      (texts.foldl (ChunkedSink.put c) s).written.body = s.written.body ++ texts.flatten := by
  induction texts generalizing s with
  | nil => exact ⟨hok, rfl, (List.append_nil _).symm⟩
  | cons text texts ih =>
    obtain ⟨hdata, hbody⟩ := writeData_holds hc text s.written
    have hput : (s.put c text).ok = true := by
      show (s.ok && _) = true
      rw [hok, hdata]
      rfl
    obtain ⟨hok', havail, hbody'⟩ := ih hput
    refine ⟨hok', havail, hbody'.trans ?_⟩
    show (writeData c text s.written).2.body ++ _ = _
    rw [hbody, List.flatten_cons, List.append_assoc]

theorem done_holds (trailer : Headers) {s : ChunkedSink} (hok : s.ok = true) :
    (s.done c trailer).ok = true ∧ (s.done c trailer).dataAvailable = false ∧
      (s.done c trailer).written.body = s.written.body ++ doneText trailer := by
  unfold ChunkedSink.done
  rw [if_pos hok]
  obtain ⟨hok', havail, hbody⟩ := put_holds hc
    (bytes "0\r\n" :: trailer.map (fieldText · ++ crlf) ++ [crlf])
    (s := { s with dataAvailable := false }) hok
  refine ⟨hok', havail, hbody.trans ?_⟩
  rw [List.cons_append, List.flatten_cons, List.flatten_append, ← List.flatMap_def,
    List.flatten_singleton]
  rfl

theorem writes_holds (ds : List Bytes) {s : ChunkedSink} (hok : s.ok = true) :
    let t := (ds.map SinkCall.write).foldl (ChunkedSink.call c) s
    t.ok = true ∧ t.dataAvailable = ds.getLast?.elim s.dataAvailable (fun d => decide (d ≠ [])) ∧
      t.written.body = s.written.body ++ ds.flatMap writeText := by
  induction ds generalizing s with
  | nil => exact ⟨hok, rfl, (List.append_nil _).symm⟩
  | cons d ds ih =>
    obtain ⟨hwrite, havail, hbody⟩ := write_holds hc d hok
    obtain ⟨hok', havail', hbody'⟩ := ih hwrite
    refine ⟨hok', havail'.trans ?_, hbody'.trans ?_⟩
    · rw [List.getLast?_cons]
      cases ds.getLast? with
      | none => exact havail
      | some last => rfl
    · rw [hbody, List.flatMap_cons, List.append_assoc]

theorem writeContentChunked_round {s : ChunkedSink} (havail : s.dataAvailable = true)
    (sinkCalls : List SinkCall) (calls : List ProviderCall) :
    let t := sinkCalls.foldl (ChunkedSink.call c) { s with written := s.written.called.called }
    t.ok = true → writeContentChunked c (⟨sinkCalls, true⟩ :: calls) s =
      writeContentChunked c calls t := by
  intro t hok
  have hgo : s.dataAvailable = true ∧ (!c.isShuttingDown s.written.calls) = true := by
    rw [hc.running]
    exact ⟨havail, rfl⟩
  conv_lhs => unfold writeContentChunked
  dsimp only
  rw [if_pos hgo, if_neg (by rw [hc.writable]; decide), if_neg (by decide)]
  exact if_neg (by show ¬ (!t.ok) = true; rw [hok]; decide)

omit hc in
theorem writeContentChunked_over {s : ChunkedSink} (havail : s.dataAvailable = false)
    (calls : List ProviderCall) : writeContentChunked c calls s = some (true, s) := by
  unfold writeContentChunked
  exact if_neg fun h => by rw [havail] at h; exact Bool.false_ne_true h.1

/-- The loop comes to an end with the writes up to the first call that ends with an
empty one, and with the end of the body if there is none. -/
theorem writeContentChunked_holds (front : List (List Bytes)) (last : List Bytes)
    (trailer : Headers) {s : ChunkedSink} (hok : s.ok = true) (havail : s.dataAvailable = true) :
    ∃ t ds, writeContentChunked c (front.map .writes ++ [.last last trailer]) s = some (true, t) ∧
      ds <+: front.flatten ++ last ∧
      ((∀ call ∈ front, call.getLast? ≠ some []) → ds = front.flatten ++ last ∧
        t.written.body = s.written.body ++ (ds.flatMap writeText ++ doneText trailer)) ∧
      (¬ (∀ call ∈ front, call.getLast? ≠ some []) →
        t.written.body = s.written.body ++ ds.flatMap writeText) := by
  -- on the calls before the last: the first that ends with an empty write stops the loop
  induction front generalizing s with
  | nil =>
    obtain ⟨hok', -, hbody⟩ :=
      writes_holds hc last (s := { s with written := s.written.called.called }) hok
    obtain ⟨hdone, hover, hbody'⟩ := done_holds hc trailer hok'
    have hcalls : (last.map SinkCall.write ++ [SinkCall.done trailer]).foldl (ChunkedSink.call c)
        { s with written := s.written.called.called } =
          ((last.map SinkCall.write).foldl (ChunkedSink.call c)
            { s with written := s.written.called.called }).done c trailer := by
      rw [List.foldl_append]
      rfl
    have hrun : writeContentChunked c [.last last trailer] s =
        some (true, ((last.map SinkCall.write).foldl (ChunkedSink.call c)
          { s with written := s.written.called.called }).done c trailer) := by
      rw [ProviderCall.last, writeContentChunked_round hc havail _ _ (by rw [hcalls]; exact hdone),
        hcalls, writeContentChunked_over hover]
    refine ⟨_, last, hrun, List.prefix_refl _, fun _ => ⟨rfl, ?_⟩, fun h => ?_⟩
    · rw [hbody', hbody, List.append_assoc]
      rfl
    · exact absurd (fun p hp => absurd hp List.not_mem_nil) h
  | cons call front ih =>
    obtain ⟨hok', havail', hbody⟩ :=
      writes_holds hc call (s := { s with written := s.written.called.called }) hok
    have hround : writeContentChunked c
        ((call :: front).map .writes ++ [.last last trailer]) s = _ :=
      writeContentChunked_round hc havail _ _ hok'
    rw [hround]
    generalize (call.map SinkCall.write).foldl (ChunkedSink.call c)
      { s with written := s.written.called.called } = t at hok' havail' hbody ⊢
    have hbody' : t.written.body = s.written.body ++ call.flatMap writeText := hbody
    by_cases hend : call.getLast? = some []
    · -- the last write of the call was empty
      have hover : t.dataAvailable = false := by
        rw [havail', hend]
        rfl
      refine ⟨t, call, writeContentChunked_over hover _, ?_, fun h => ?_, fun _ => hbody'⟩
      · rw [List.flatten_cons, List.append_assoc]
        exact List.prefix_append _ _
      · exact absurd hend (h call List.mem_cons_self)
    · have hmore : t.dataAvailable = true := by
        rw [havail']
        cases hlast : call.getLast? with
        | none => exact havail
        | some d => exact decide_eq_true fun hd => hend (by rw [hlast, hd])
      obtain ⟨u, ds, hu, hds, hall, hcut⟩ := ih hok' hmore
      refine ⟨u, call ++ ds, hu, ?_, fun h => ?_, fun h => ?_⟩
      · rw [List.flatten_cons, List.append_assoc]
        exact (List.prefix_append_right_inj call).mpr hds
      · obtain ⟨hds, hu⟩ := hall fun p hp => h p (List.mem_cons_of_mem _ hp)
        refine ⟨by rw [hds, List.flatten_cons, List.append_assoc], ?_⟩
        rw [hu, hbody', List.flatMap_append]
        simp only [List.append_assoc]
      · have hfront : ¬ ∀ p ∈ front, p.getLast? ≠ some [] := by
          intro hall
          refine h fun p hp => ?_
          rcases List.mem_cons.mp hp with rfl | hp
          · exact hend
          · exact hall p hp
        rw [hcut hfront, hbody', List.flatMap_append, List.append_assoc]

end

/-- A payload as it is written. -/
def Chunk.ofPayload (payload : Bytes) (fits : payload.length < ulongMax) (ne_nil : payload ≠ []) :
    Chunk where
  sizeLine := fromIToHex payload.length
  payload := payload
  oneLine := fun h => (of_mem_fromIToHex h).2.2.2.2.2.2.2.1 rfl
  size := strtoul_fromIToHex fits.le
  fits := fits
  ne_nil := ne_nil

theorem writeText_chunks {writes : List Bytes} (h : ∀ d ∈ writes, d.length < ulongMax) :
    ∃ chunks : List Chunk, chunks.flatMap Chunk.wire = writes.flatMap writeText ∧
      chunks.flatMap Chunk.payload = writes.flatten := by
  induction writes with
  | nil => exact ⟨[], rfl, rfl⟩
  | cons d writes ih =>
    obtain ⟨chunks, hwire, hpayload⟩ := ih fun d hd => h d (List.mem_cons_of_mem _ hd)
    by_cases hd : d = []
    · refine ⟨chunks, ?_, ?_⟩
      · rw [hwire, hd]
        rfl
      · rw [hpayload, hd]
        rfl
    · refine ⟨.ofPayload d (h d List.mem_cons_self) hd :: chunks, ?_, ?_⟩
      · rw [List.flatMap_cons, List.flatMap_cons, hwire, writeText, if_pos hd, Chunk.wire]
        simp [Chunk.ofPayload, chunkText]
      · rw [List.flatMap_cons, List.flatten_cons, hpayload]
        rfl

/-- A field of a trailer that one line holds and the reader takes. -/
structure TrailerField (kv : Bytes × Bytes) : Prop where
  key : 10 ∉ kv.1
  value : 10 ∉ kv.2
  fits : (fieldText kv).length + 2 ≤ headerMaxLength

def Field.ofHeader (kv : Bytes × Bytes) (h : TrailerField kv) : Field where
  text := fieldText kv
  oneLine := by
    unfold fieldText
    rw [List.mem_append, List.mem_append, not_or, not_or]
    exact ⟨⟨h.key, by decide⟩, h.value⟩
  ne_nil := by
    unfold fieldText
    rw [List.append_assoc]
    exact List.append_ne_nil_of_right_ne_nil _ (List.cons_ne_nil _ _)
  fits := h.fits

theorem doneText_fields {trailer : Headers} (h : ∀ kv ∈ trailer, TrailerField kv) :
    ∃ fields : List Field,
      doneText trailer = bytes "0" ++ crlf ++ (fields.flatMap Field.wire ++ crlf) ∧
      fields.filterMap (fun field => parseHeader field.text) =
        trailer.filterMap fun kv => parseHeader (fieldText kv) := by
  obtain ⟨fields, hwire, hparse⟩ : ∃ fields : List Field,
      fields.flatMap Field.wire = trailer.flatMap (fieldText · ++ crlf) ∧
      fields.filterMap (fun field => parseHeader field.text) =
        trailer.filterMap fun kv => parseHeader (fieldText kv) := by
    induction trailer with
    | nil => exact ⟨[], rfl, rfl⟩
    | cons kv trailer ih =>
      obtain ⟨fields, hwire, hparse⟩ := ih fun p hp => h p (List.mem_cons_of_mem _ hp)
      refine ⟨.ofHeader kv (h kv List.mem_cons_self) :: fields, ?_, ?_⟩
      · rw [List.flatMap_cons, List.flatMap_cons, hwire]
        rfl
      · rw [List.filterMap_cons, List.filterMap_cons, hparse]
        rfl
  refine ⟨fields, ?_, hparse⟩
  rw [doneText, hwire]
  rfl

/-- Round trip on a socket that holds, however much `send` takes at a time: where no
call of the provider but the last ends with an empty write, the reader gets the
same bytes and the trailer over any segments and leaves what comes behind them.
Otherwise the loop ends early, the body has no end, and the reader says so. -/
theorem chunked_round_trip {c : PeerSocket} (hc : c.Holds) (front : List (List Bytes))
    (last : List Bytes) (hfits : ∀ d ∈ front.flatten ++ last, d.length < ulongMax)
    {trailer : Headers} (hfields : ∀ kv ∈ trailer, TrailerField kv) :
    ∃ sent, writeContentChunked c (front.map .writes ++ [.last last trailer]) .start =
        some (true, sent) ∧
      ∀ (headers : Headers) (status : Nat) (s : SocketStream) (rest : Bytes),
        s.content = sent.written.body ++ rest →
        let r := readContentChunked socketStream keep headers status s []
        ((∀ call ∈ front, call.getLast? ≠ some []) →
          r.ok = true ∧ r.x.flatten = (front.flatten ++ last).flatten ∧
          r.headers = headers ++ trailer.filterMap (fun kv => parseHeader (fieldText kv)) ∧
          r.strm.content = rest) ∧
        (¬ (∀ call ∈ front, call.getLast? ≠ some []) → rest = [] →
          r.ok = false ∧ r.x.flatten <+: (front.flatten ++ last).flatten) := by
  obtain ⟨sent, ds, hsent, hds, hall, hcut⟩ :=
    writeContentChunked_holds hc front last trailer (s := .start) rfl rfl
  refine ⟨sent, hsent, fun headers status s rest hs => ?_⟩
  obtain ⟨chunks, hwire, hpayload⟩ :=
    writeText_chunks fun d hd => hfits d (hds.subset hd)
  obtain ⟨fields, hdone, hparse⟩ := doneText_fields hfields
  obtain ⟨body, hbody⟩ : ∃ body : ChunkedBody,
      body = ⟨chunks, bytes "0", by decide, by decide, fields⟩ := ⟨_, rfl⟩
  have hbodyWire : body.wire = ds.flatMap writeText ++ doneText trailer := by
    rw [hbody, hdone, ← hwire, ChunkedBody.wire]
    simp only [List.append_assoc]
  have hbodyPayload : body.payload = ds.flatten := by
    rw [hbody]
    exact hpayload
  constructor
  · intro hwhole
    obtain ⟨hds, hwritten⟩ := hall hwhole
    have hcontent : socketStream.content s = body.wire ++ rest := by
      rw [hbodyWire]
      exact hs.trans (congrArg (· ++ rest) hwritten)
    obtain ⟨hok, hx, hheaders, ht⟩ :=
      readContentChunked_arrived socketStream body headers status hcontent
    refine ⟨hok, by rw [hx, hbodyPayload, hds], ?_, ht⟩
    rw [hheaders, hbody, hparse]
  -- what was sent is a body without its last chunk
  · rintro hearly rfl
    have hwritten : s.content = ds.flatMap writeText := by
      rw [hs, List.append_nil, hcut hearly]
      rfl
    have hcutOff : CutOff (socketStream.content s) body.wire := by
      show CutOff s.content body.wire
      rw [hwritten, hbodyWire]
      refine ⟨List.prefix_append _ _, fun heq => ?_⟩
      have hnil : doneText trailer = [] := List.self_eq_append_right.mp heq
      rw [hdone, List.append_assoc] at hnil
      exact absurd hnil (by simp [bytes])
    obtain ⟨hok, hx⟩ := readContentChunked_cut socketStream body headers status hcutOff
    rw [hbodyPayload] at hx
    refine ⟨hok, hx.trans ?_⟩
    obtain ⟨more, hmore⟩ := hds
    rw [← hmore, List.flatten_append]
    exact List.prefix_append _ _

/-- Two calls of the provider, with an empty write ahead of another. -/
theorem chunked_round_trip_cutElsewhere :
    ∃ sent, writeContentChunked twoAtATime
        [.writes [bytes "ab"], .last [[], bytes "c"] []] .start = some (true, sent) ∧
      ∀ s : SocketStream, s.content = sent.written.body ++ bytes "HTTP" →
        (readContentChunked socketStream keep [] 0 s []).x.flatten = bytes "abc" := by
  obtain ⟨sent, hsent, hread⟩ := chunked_round_trip twoAtATime_holds [[bytes "ab"]] [[], bytes "c"]
    (by decide) (fun kv (hkv : kv ∈ ([] : Headers)) => absurd hkv List.not_mem_nil)
  refine ⟨sent, hsent, fun s hs => ?_⟩
  exact ((hread [] 0 s (bytes "HTTP") hs).1 (by decide)).2.1

end EzRemote.Http

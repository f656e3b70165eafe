import EzRemote.Ftp.Framing

/-!
# Replies and segments

Calls of `ReadResponse` in a row: what they return and what they leave in
`response` depends on the replies, not on the segments that bring them.
-/

namespace EzRemote.Ftp

/-- What a line has left in `response`. -/
def lastLine (response : Bytes) : Bytes := upTo lf response

/-- Calls of `ReadResponse`, with the result of each and the line it leaves in
`response`. -/
def readResponses : List Bytes → Run (List (Int × Bytes))
  | [] => return []
  | c :: cs => do
    let x ← readResponse c
    let s ← MonadState.get
    let xs ← readResponses cs
    return (x, lastLine s.h.response) :: xs

/-- What a call that expects a character of `c` makes of a reply. -/
def answer (c : Bytes) (r : Reply) : Int × Bytes :=
  (if (r.getLastD []).headD 0 ∈ c then 1 else 0, r.getLastD [] ++ [lf])

theorem Coded.last {r : Reply} (h : Coded r) :
    r.digit = (r.getLastD []).headD 0 ∧ lf ∉ r.getLastD [] := by
  cases h with
  | single hl _ _ => exact ⟨rfl, hl⟩
  | @multi first last middle hline hcode hdash hmid hlast =>
    have hlastD : (first :: (middle ++ [last])).getLastD [] = last := by
      rw [List.getLastD_eq_getLast?, ← List.cons_append, List.getLast?_concat]
      rfl
    have hlen : 3 < first.length := (List.getElem?_eq_some_iff.mp hdash).1
    rw [hlastD]
    refine ⟨(head_of_code hlen hlast).2.symm, ?_⟩
    exact hline last (List.mem_cons_of_mem _ (List.mem_append_right _ List.mem_cons_self))

theorem lastLine_eq {line response : Bytes} (hline : lf ∉ line)
    (h : response.take (line.length + 2) = line ++ [lf, 0]) : lastLine response = line ++ [lf] := by
  rw [lastLine, ← List.take_append_drop (line.length + 2) response, h, List.append_assoc]
  exact upTo_append _ hline

theorem readResponse_answer {s : Session} {r : Reply} {rest : Bytes} (c : Bytes)
    (hb : Buffered (r.encode ++ rest) s.h s.wire) (hr : Coded r) (hfit : r.Fits) :
    ∃ s', readResponse c s = some ((answer c r).1, s') ∧
      lastLine s'.h.response = (answer c r).2 ∧ Buffered rest s'.h s'.wire := by
  obtain ⟨g, wire', hread, hg, -, hresp⟩ := readResponse_coded hb hr hfit c
  obtain ⟨hdigit, hlf⟩ := hr.last
  rw [hdigit] at hread
  exact ⟨_, hread, lastLine_eq hlf hresp, hg⟩

/-- Each call takes exactly the next reply off the connection, leaves its last
line and tells its kind, however the bytes are cut into segments. -/
theorem readResponses_answers (cs : List Bytes) {rs : List Reply} {rest : Bytes} {s : Session}
    (hrs : ∀ r ∈ rs, Coded r ∧ r.Fits) (hlen : cs.length = rs.length)
    (hb : Buffered (encodeAll rs ++ rest) s.h s.wire) :
    ∃ s', readResponses cs s = some (List.zipWith answer cs rs, s') ∧
      Buffered rest s'.h s'.wire := by
  induction cs generalizing rs s with
  | nil =>
    have hnil : rs = [] := List.eq_nil_of_length_eq_zero hlen.symm
    subst hnil
    exact ⟨s, rfl, hb⟩
  | cons c cs ih =>
    obtain ⟨r, rs, rfl⟩ : ∃ r rs', rs = r :: rs' :=
      List.exists_cons_of_ne_nil fun h => by rw [h] at hlen; cases hlen
    have hr := hrs r List.mem_cons_self
    have hbuf : Buffered (r.encode ++ (encodeAll rs ++ rest)) s.h s.wire := by
      rw [← List.append_assoc]
      exact hb
    obtain ⟨s₁, hread, hline, hb₁⟩ := readResponse_answer c hbuf hr.1 hr.2
    obtain ⟨s₂, hreads, hb₂⟩ := ih (fun r hr => hrs r (List.mem_cons_of_mem _ hr))
      (Nat.succ.inj hlen) hb₁
    refine ⟨s₂, ?_, hb₂⟩
    show (readResponse c s).bind _ = _
    rw [hread, Option.bind_some]
    show (readResponses cs s₁).bind _ = _
    rw [hreads, Option.bind_some, hline]
    rfl

/-- Reply framing: the results and the lines left behind are those of the
replies, nothing else is consumed, and no segmentation can be told from another. -/
theorem reply_framing (cs : List Bytes) (rs : List Reply) (rest : Bytes)
    (hrs : ∀ r ∈ rs, Coded r ∧ r.Fits) (hlen : cs.length = rs.length) :
    (∀ s : Session, Buffered (encodeAll rs ++ rest) s.h s.wire →
      ∃ s', readResponses cs s = some (List.zipWith answer cs rs, s') ∧
        Buffered rest s'.h s'.wire) ∧
    ∀ s t : Session, Buffered (encodeAll rs ++ rest) s.h s.wire →
      Buffered (encodeAll rs ++ rest) t.h t.wire →
      (readResponses cs s).map Prod.fst = (readResponses cs t).map Prod.fst := by
  constructor
  · exact fun s hb => readResponses_answers cs hrs hlen hb
  · intro s t hs ht
    obtain ⟨s', hs', -⟩ := readResponses_answers cs hrs hlen hs
    obtain ⟨t', ht', -⟩ := readResponses_answers cs hrs hlen ht
    rw [hs', ht']
    rfl

theorem buffered_new {wire : List Recv} (h : Stream wire) :
    Buffered (wireBytes wire) ftpClient wire :=
  ⟨⟨rfl, List.length_replicate⟩, h, rfl⟩

/-- A greeting of two lines and a reply, cut within both line ends. -/
def cutReplies : List Recv :=
  [.data (bytes "220-hi" ++ [cr]), .data (lf :: bytes "220 yo" ++ crlf ++ bytes "33"),
    .data (bytes "1" ++ [cr]), .data [lf]]

theorem reply_framing_cut : ∃ s', readResponses [bytes "2", bytes "2"] ⟨ftpClient, cutReplies, []⟩ =
      some ([(1, bytes "220 yo" ++ [lf]), (0, bytes "331" ++ [lf])], s') := by
  have hstream : Stream cutReplies := by
    intro r hr
    simp only [cutReplies, List.mem_cons, List.not_mem_nil, or_false] at hr
    rcases hr with rfl | rfl | rfl | rfl <;> exact ⟨_, rfl, by decide, by decide⟩
  have hgreeting : Coded (bytes "220-hi" :: ([] ++ [bytes "220 yo"])) :=
    .multi (by decide) (by decide) (by decide) (by simp) (by decide)
  have hreply : Coded [bytes "331"] := .single (by decide) (by decide) (by decide)
  have hrs : ∀ r ∈ ([[bytes "220-hi", bytes "220 yo"], [bytes "331"]] : List Reply),
      Coded r ∧ r.Fits := by
    intro r hr
    simp only [List.mem_cons, List.not_mem_nil, or_false] at hr
    rcases hr with rfl | rfl
    · exact ⟨hgreeting, by unfold Reply.Fits FitsLine; decide⟩
    · exact ⟨hreply, by unfold Reply.Fits FitsLine; decide⟩
  obtain ⟨s', hreads, -⟩ := (reply_framing [bytes "2", bytes "2"]
    [[bytes "220-hi", bytes "220 yo"], [bytes "331"]] [] hrs rfl).1
    ⟨ftpClient, cutReplies, []⟩ (buffered_new hstream)
  exact ⟨s', hreads⟩

end EzRemote.Ftp

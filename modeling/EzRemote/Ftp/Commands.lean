import EzRemote.Lib.Lockstep
import EzRemote.Ftp.Framing

/-!
# Commands in lockstep

Two sessions whose control connections carry the same replies, cut and buffered
in any way, send the same commands and read the same replies up to the data
connection of a `RETR`.
-/

namespace EzRemote.Ftp

open FtpHandle
open Pool (TransferState)

/-- A reply of the form `1xx` that `ok` admits. -/
structure Preliminary (ok : Reply → Prop) (r : Reply) : Prop where
  wellFormed : WellFormed r
  digit : r.digit = 49
  admitted : ok r

/-- A reply of the form `2xx`, `3xx`, `4xx` or `5xx` that `ok` admits. -/
structure Final (ok : Reply → Prop) (r : Reply) : Prop where
  wellFormed : WellFormed r
  digit : 50 ≤ r.digit ∧ r.digit ≤ 53
  admitted : ok r

/-- Every reply is admitted. -/
def anyReply : Reply → Prop := fun _ => True

/-- The replies to a line, whatever segments carry them; `none` is a `send` that
fails. -/
abbrev Replies := List Event → Bytes → Option (List Reply)

/-- A command is answered by one final reply, `RETR` by one preliminary reply
before it unless it is refused. -/
def Answers (ok : Reply → Prop) (cmd : Bytes) (rs : List Reply) : Prop :=
  (∃ f, Final ok f ∧ rs = [f]) ∨
    cmd.take 5 = bytes "RETR " ∧ ∃ p f, Preliminary ok p ∧ Final ok f ∧ rs = [p, f]

/-- Every line that is one command is answered. -/
def Protocol (ok : Reply → Prop) (replies : Replies) : Prop :=
  ∀ trace cmd rs, cr ∉ cmd → lf ∉ cmd → replies trace (cmd ++ crlf) = some rs →
    Answers ok cmd rs

theorem Protocol.single {ok : Reply → Prop} {replies : Replies} (hp : Protocol ok replies)
    {cmd : Bytes} (hcr : cr ∉ cmd) (hlf : lf ∉ cmd) (hretr : cmd.take 5 ≠ bytes "RETR ")
    (trace : List Event) (rs : List Reply) (h : replies trace (cmd ++ crlf) = some rs) :
    ∃ f, Final ok f ∧ rs = [f] := by
  rcases hp trace cmd rs hcr hlf h with hf | ⟨htake, -⟩
  · exact hf
  · exact absurd htake hretr

/-- `segments` carry `text`. -/
structure Carries (segments : List Recv) (text : Bytes) : Prop where
  stream : Stream segments
  text : wireBytes segments = text

/-- The server sends these replies, cut into any segments. -/
def Delivers (srv : Server) (replies : Replies) : Prop :=
  ∀ trace line,
    Option.Rel (fun rs segments => Carries segments (encodeAll rs)) (replies trace line)
      (srv trace line)

/-- Two sessions with the same replies to come and the same settings, whatever
their buffers look like. -/
structure Agree (core : Core) (rs : List Reply) (s t : Session) : Prop where
  left : Buffered (encodeAll rs) s.h s.wire
  right : Buffered (encodeAll rs) t.h t.wire
  coreLeft : s.h.core = core
  coreRight : t.h.core = core
  trace : s.trace = t.trace

def SameTrace (s t : Session) : Prop := s.trace = t.trace

/-- The two response arrays hold the same string. -/
def SameText (s t : Session) : Prop := cStr s.h.response = cStr t.h.response

variable {core : Core} {rs : List Reply}

theorem emit_agree (e : Event) :
    Lockstep (Agree core rs) (emit e) (emit e) fun _ => Agree core rs := by
  apply Lockstep.modify
  intro s t h
  exact ⟨h.left, h.right, h.coreLeft, h.coreRight, congrArg (e :: ·) h.trace⟩

theorem emit_sameTrace (e : Event) :
    Lockstep SameTrace (emit e) (emit e) fun _ => SameTrace := by
  apply Lockstep.modify
  intro s t h
  exact congrArg (e :: ·) h

theorem modifyHandle_sameTrace (f : FtpHandle → FtpHandle) :
    Lockstep SameTrace (modifyHandle f) (modifyHandle f) fun _ => SameTrace := by
  apply Lockstep.modify
  intro s t h
  exact h

theorem readResponse_agree {r : Reply} (hr : WellFormed r) (hfit : r.Fits) (c : Bytes) :
    Lockstep (Agree core (r :: rs)) (readResponse c) (readResponse c) fun x s t =>
      x = (if r.digit ∈ c then 1 else 0) ∧ Agree core rs s t ∧ SameText s t := by
  intro s t h
  obtain ⟨g, wire, hs, hg, hc, htext⟩ := readResponse_reply h.left hr hfit c
  obtain ⟨g', wire', ht, hg', hc', htext'⟩ := readResponse_reply h.right hr hfit c
  rw [hs, ht, h.trace]
  exact .some ⟨rfl, rfl, ⟨hg, hg', hc.trans h.coreLeft, hc'.trans h.coreRight, rfl⟩,
    htext.trans htext'.symm⟩

theorem Buffered.append {text more : Bytes} {h : FtpHandle} {wire segments : List Recv}
    (hb : Buffered text h wire) (hs : Carries segments more) :
    Buffered (text ++ more) h (wire ++ segments) := by
  refine ⟨hb.balanced, ?_, ?_⟩
  · intro r hr
    rcases List.mem_append.mp hr with hr | hr
    · exact hb.stream r hr
    · exact hs.stream r hr
  · rw [wireBytes, List.flatMap_append, ← List.append_assoc]
    exact congrArg₂ (· ++ ·) hb.text hs.text

section Server

variable {replies : Replies} {srv srv' : Server} (hd : Delivers srv replies)
  (hd' : Delivers srv' replies)

include hd hd'

theorem send_agree (line : Bytes) :
    Lockstep (Agree core []) (send srv line) (send srv' line) fun sent s t =>
      if sent then ∃ trace rs, replies trace line = some rs ∧ Agree core rs s t
      else Agree core [] s t := by
  apply Lockstep.get_bind
  intro s t h
  have hs := hd s.trace line
  have ht := hd' s.trace line
  rw [← h.trace]
  cases hr : replies s.trace line with
  | none =>
    rw [hr] at hs ht
    cases hsrv : srv s.trace line with
    | some x => rw [hsrv] at hs; cases hs
    | none =>
      cases hsrv' : srv' s.trace line with
      | some x => rw [hsrv'] at ht; cases ht
      | none =>
        refine (emit_agree _).bind fun _ => Lockstep.pure ?_
        intro s t h
        exact h
  | some rs =>
    rw [hr] at hs ht
    cases hsrv : srv s.trace line with
    | none => rw [hsrv] at hs; cases hs
    | some segments =>
      cases hsrv' : srv' s.trace line with
      | none => rw [hsrv'] at ht; cases ht
      | some segments' =>
        rw [hsrv] at hs
        rw [hsrv'] at ht
        cases hs with
        | some hs =>
          cases ht with
          | some ht =>
            refine Lockstep.bind (Q := fun _ => Agree core rs) (Lockstep.modify ?_) fun _ =>
              (emit_agree _).bind fun _ => Lockstep.pure ?_
            · intro s t h
              exact ⟨h.left.append hs, h.right.append ht, h.coreLeft, h.coreRight, h.trace⟩
            · intro s t h
              exact ⟨_, rs, hr, h⟩

/-- A command that is answered by one reply leaves none behind. -/
theorem ftpSendCmd_agree {cmd : Bytes}
    (hone : ∀ trace rs, replies trace (cStr cmd ++ crlf) = some rs →
      ∃ f, Final Reply.Fits f ∧ rs = [f])
    (expected : Bytes) :
    Lockstep (Agree core []) (ftpSendCmd srv cmd expected) (ftpSendCmd srv' cmd expected)
      fun x s t => Agree core [] s t ∧ (x ≠ 0 → SameText s t) := by
  apply Lockstep.get_bind
  intro s t h
  have hcore : t.h.core = s.h.core := h.coreRight.trans h.coreLeft.symm
  have hh : t.h.handle = s.h.handle := congrArg Core.handle hcore
  have hdir : t.h.dir = s.h.dir := congrArg Core.dir hcore
  rw [hh, hdir]
  apply Lockstep.ite
  · intro _
    exact Lockstep.pure fun s t h => ⟨h, fun hx => absurd rfl hx⟩
  intro _
  apply Lockstep.ite
  · intro _
    exact Lockstep.pure fun s t h => ⟨h, fun hx => absurd rfl hx⟩
  intro _
  apply Lockstep.ite
  · intro _
    exact Lockstep.failure
  intro _
  apply (send_agree hd hd' _).bind
  intro sent
  cases sent with
  | false => exact Lockstep.pure fun s t h => ⟨h, fun hx => absurd rfl hx⟩
  | true =>
    apply Lockstep.of_exists
    intro trace
    apply Lockstep.of_exists
    intro rs
    apply Lockstep.of_and
    intro hrs
    obtain ⟨f, hf, rfl⟩ := hone trace rs hrs
    exact (readResponse_agree hf.wellFormed hf.admitted expected).mono (fun _ _ h => h)
      fun _ _ _ h => ⟨h.2.1, fun _ => h.2.2⟩

variable (hp : Protocol Reply.Fits replies)

include hp

theorem ftpRest_agree :
    Lockstep (Agree core []) (ftpRest srv) (ftpRest srv') fun _ => Agree core [] := by
  apply Lockstep.get_bind
  intro s t h
  have hoff : t.h.offset = s.h.offset :=
    congrArg Core.offset (h.coreRight.trans h.coreLeft.symm)
  rw [hoff]
  have hfree : ∀ b : UInt8, b.toNat < 45 → b ∉ bytes "REST " →
      b ∉ cStr (bytes "REST " ++ toDecimal s.h.offset) := by
    intro b hb hn hm
    rcases List.mem_append.mp (List.takeWhile_subset _ hm) with hm | hm
    · exact hn hm
    · have := (mem_toDecimal hm).1
      omega
  have hzero : ∀ b ∈ bytes "REST ", (decide (b ≠ 0)) = true :=
    List.all_eq_true.mp (by decide)
  have hretr : (cStr (bytes "REST " ++ toDecimal s.h.offset)).take 5 ≠ bytes "RETR " := by
    rw [cStr, List.takeWhile_append_of_pos hzero, List.take_left' (by decide)]
    decide
  apply Lockstep.ite
  · intro _
    exact (ftpSendCmd_agree hd hd' (hp.single (hfree cr (by decide) (by decide))
      (hfree lf (by decide) (by decide)) hretr) _).mono (fun _ _ h => h) fun _ _ _ h => h.1
  · intro _
    exact Lockstep.pure fun _ _ h => h

/-- What a `RETR` that is accepted leaves: its data handle and one final reply. -/
def Opened (core : Core) (d : DataHandle) (s t : Session) : Prop :=
  d.dir = .read ∧ d.ctrl = true ∧ ∃ f, Final Reply.Fits f ∧ Agree core [f] s t

/-- What an attempt to open the data connection leaves. -/
def Tried (core : Core) (x : Int × Option DataHandle) (s t : Session) : Prop :=
  SameTrace s t ∧ ∀ d, x.2 = some d → Opened core d s t

omit hd hd' hp in
theorem tried_none (a : Int) :
    Lockstep (Agree core rs) (pure (a, none) : Run (Int × Option DataHandle)) (pure (a, none))
      (Tried core) :=
  Lockstep.pure fun _ _ h => ⟨h.trace, fun _ hx => nomatch hx⟩

omit hd hd' hp in
theorem ftpDial_agree {cmd : Bytes} (w : World) (address : Bytes) (hrs : Answers Reply.Fits cmd rs) :
    Lockstep (Agree core rs) (ftpDial w address) (ftpDial w address) (Tried core) := by
  apply (emit_agree _).bind
  intro _
  apply Lockstep.ite
  · exact fun _ => tried_none _
  intro _
  rcases hrs with ⟨f, hf, rfl⟩ | ⟨-, p, f, hp, hf, rfl⟩
  · have hno : f.digit ∉ bytes "1" := by
      intro hm
      have : f.digit = 49 := List.mem_singleton.mp hm
      exact absurd (this ▸ hf.digit.1) (by decide)
    apply (readResponse_agree hf.wellFormed hf.admitted _).bind
    intro x
    apply Lockstep.of_and
    intro hx
    rw [if_neg hno] at hx
    subst hx
    exact (tried_none _).mono (fun _ _ h => h.1) fun _ _ _ h => h
  · apply (readResponse_agree hp.wellFormed hp.admitted _).bind
    intro x
    apply Lockstep.of_and
    intro _
    apply Lockstep.ite
    · exact fun _ => (tried_none _).mono (fun _ _ h => h.1) fun _ _ _ h => h
    intro _
    apply Lockstep.ite
    · exact fun _ => (tried_none _).mono (fun _ _ h => h.1) fun _ _ _ h => h
    intro _
    apply Lockstep.get_bind
    intro s t h
    have htr : t.h.transfer = s.h.transfer :=
      congrArg Core.transfer (h.1.coreRight.trans h.1.coreLeft.symm)
    rw [htr]
    apply Lockstep.pure
    intro s t h
    refine ⟨h.1.trace, ?_⟩
    intro d hd
    cases hd
    exact ⟨rfl, rfl, f, hf, h.1⟩

theorem ftpOpenData_agree (w : World) {cmd : Bytes} (hcr : cr ∉ cmd) (hlf : lf ∉ cmd)
    (address : Bytes) :
    Lockstep (Agree core []) (ftpOpenData w srv cmd address) (ftpOpenData w srv' cmd address)
      (Tried core) := by
  apply Lockstep.ite
  · exact fun _ => tried_none _
  intro _
  apply Lockstep.ite
  · exact fun _ => tried_none _
  intro _
  apply Lockstep.get_bind
  intro s t h
  have hdir : t.h.dir = s.h.dir := congrArg Core.dir (h.coreRight.trans h.coreLeft.symm)
  rw [hdir]
  apply Lockstep.ite
  · exact fun _ => tried_none _
  intro _
  apply (send_agree hd hd' _).bind
  intro sent
  cases sent with
  | false => exact tried_none _
  | true =>
    apply Lockstep.of_exists
    intro trace
    apply Lockstep.of_exists
    intro rs
    apply Lockstep.of_and
    intro hrs
    exact ftpDial_agree w address (hp trace cmd rs hcr hlf hrs)

omit hd hd' hp in
theorem pasvAddress_agree (w : World) :
    Lockstep (fun s t => Agree core [] s t ∧ SameText s t) (pasvAddress w) (pasvAddress w)
      fun _ => Agree core [] := by
  apply Lockstep.get_bind
  intro s t h
  have hpasv : t.h.correctpasv = s.h.correctpasv :=
    congrArg Core.correctpasv (h.1.coreRight.trans h.1.coreLeft.symm)
  rw [← h.2, hpasv]
  cases (cStr s.h.response).dropWhile (· ≠ 40) with
  | nil => exact Lockstep.pure fun _ _ h => h.1
  | cons _ cp =>
    dsimp only
    cases scanNumbers 6 cp with
    | none => exact Lockstep.failure
    | some v =>
      apply Lockstep.ite
      · intro _
        unfold correctPasvResponse
        cases w.peer with
        | none =>
          exact ((emit_agree _).mono (fun _ _ h => h.1) fun _ _ _ h => h).bind fun _ =>
            Lockstep.pure fun _ _ h => h
        | some address => exact Lockstep.pure fun _ _ h => h.1
      · intro _
        exact Lockstep.pure fun _ _ h => h.1

theorem ftpOpenPasv_agree (w : World) {cmd : Bytes} (hcr : cr ∉ cmd) (hlf : lf ∉ cmd) :
    Lockstep (Agree core []) (ftpOpenPasv w srv cmd) (ftpOpenPasv w srv' cmd) (Tried core) := by
  apply Lockstep.get_bind
  intro s t h
  have hdir : t.h.dir = s.h.dir := congrArg Core.dir (h.coreRight.trans h.coreLeft.symm)
  rw [hdir]
  apply Lockstep.ite
  · exact fun _ => tried_none _
  intro _
  apply (ftpSendCmd_agree hd hd' (hp.single (by decide) (by decide) (by decide)) _).bind
  intro ok
  apply Lockstep.ite
  · exact fun _ => (tried_none _).mono (fun _ _ h => h.1) fun _ _ _ h => h
  intro hok
  apply ((pasvAddress_agree w).mono (fun _ _ h => ⟨h.1, h.2 hok⟩) fun _ _ _ h => h).bind
  intro address
  cases address with
  | none => exact tried_none _
  | some address =>
    apply (ftpRest_agree hd hd' hp).bind
    intro rest
    apply Lockstep.ite
    · exact fun _ => tried_none _
    · exact fun _ => ftpOpenData_agree hd hd' hp w hcr hlf address

/-- `FtpAccess` runs in lockstep, and a handle that it returns has its final
reply to come. -/
theorem ftpAccess_agree (w : World) {path : Bytes} (hcr : cr ∉ path) (hlf : lf ∉ path) :
    Lockstep (Agree core []) (ftpAccess w srv path) (ftpAccess w srv' path) (Tried core) := by
  apply Lockstep.ite
  · intro _
    apply ((modifyHandle_sameTrace _).mono (fun _ _ h => h.trace) fun _ _ _ h => h).bind
    intro _
    exact Lockstep.pure fun _ _ h => ⟨h, fun _ hx => nomatch hx⟩
  intro _
  apply (ftpSendCmd_agree hd hd' (hp.single (by decide) (by decide) (by decide)) _).bind
  intro ok
  apply Lockstep.ite
  · exact fun _ => (tried_none _).mono (fun _ _ h => h.1) fun _ _ _ h => h
  intro _
  apply Lockstep.ite
  · exact fun _ => (tried_none _).mono (fun _ _ h => h.1) fun _ _ _ h => h
  intro _
  have hfree : ∀ b : UInt8, b ∉ bytes "RETR " → b ∉ path → b ∉ bytes "RETR " ++ cStr path := by
    intro b hb hn hm
    rcases List.mem_append.mp hm with hm | hm
    · exact hb hm
    · exact hn (List.takeWhile_subset _ hm)
  apply ((ftpOpenPasv_agree hd hd' hp w (hfree cr (by decide) hcr)
    (hfree lf (by decide) hlf)).mono (fun _ _ h => h.1) fun _ _ _ h => h).bind
  intro r
  apply Lockstep.ite
  · intro _
    exact Lockstep.pure fun _ _ h => ⟨h.1, fun _ hx => nomatch hx⟩
  · intro _
    exact Lockstep.pure fun _ _ h => h

end Server

end EzRemote.Ftp

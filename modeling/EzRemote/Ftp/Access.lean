import EzRemote.Ftp.Frame
import EzRemote.Ftp.Reuse

/-!
# What FtpAccess reports

`FtpAccess` returns 1 with a data handle once the transfer command has been
answered, or 0, unless the server refuses `REST`.
-/

namespace EzRemote.Ftp

def OnlyReplies (events : List Event) : Prop := ∀ e ∈ events, ∃ line, e = .reply line

theorem OnlyReplies.cons {events : List Event} (h : OnlyReplies events) (line : Bytes) :
    OnlyReplies (.reply line :: events) := by
  intro e he
  rcases List.mem_cons.mp he with rfl | he
  · exact ⟨line, rfl⟩
  · exact h e he

/-- Replies were read between the two states, the last of which is in
`response`. -/
def Answered (s s' : Session) : Prop :=
  ∃ replies, OnlyReplies replies ∧
    s'.trace = .reply (cStr s'.h.response) :: (replies ++ s.trace)

theorem Answered.trans {s s' s'' : Session} (h : Answered s s') (h' : Answered s' s'') :
    Answered s s'' := by
  obtain ⟨replies, hr, ht⟩ := h
  obtain ⟨replies', hr', ht'⟩ := h'
  refine ⟨replies' ++ .reply (cStr s'.h.response) :: replies, ?_, ?_⟩
  · intro e he
    rcases List.mem_append.mp he with he | he
    · exact hr' e he
    · exact hr.cons _ e he
  · rw [ht', ht, List.append_assoc, List.cons_append]

theorem readline_answered {s s' : Session} {x : Int} (h : readline s = some (x, s'))
    (hx : x ≠ -1) : Answered s s' := by
  unfold readline at h
  split at h
  · cases h
  · rename_i retval g wire _
    simp only [Option.some.injEq, Prod.mk.injEq] at h
    obtain ⟨rfl, rfl⟩ := h
    refine ⟨[], fun e he => absurd he List.not_mem_nil, ?_⟩
    rw [if_neg hx]
    rfl

theorem readUntil_answered {matching : Bytes} {fuel : Nat} {s s' : Session}
    (h : readUntil matching fuel s = some (true, s')) : Answered s s' := by
  -- induction on the lines that are left to read
  induction fuel generalizing s with
  | zero => cases h
  | succ fuel ih =>
    obtain ⟨x, s₁, hline, h⟩ := bind_eq_some h
    by_cases hx : x = -1
    · rw [if_pos hx] at h
      cases h
    rw [if_neg hx] at h
    have hfirst := readline_answered hline hx
    obtain ⟨_, _, hget, h⟩ := bind_eq_some h
    cases hget
    split at h
    · cases h
      exact hfirst
    · exact hfirst.trans (ih h)

theorem expects_nonzero {c : Bytes} {s s' : Session} {x : Int}
    (h : expects c s = some (x, s')) (hx : x ≠ 0) : x = 1 ∧ s' = s ∧ s.h.response.headD 0 ∈ c := by
  obtain ⟨_, _, hget, h⟩ := bind_eq_some h
  cases hget
  split at h
  · rename_i hmem
    cases h
    exact ⟨rfl, rfl, hmem⟩
  · cases h
    exact absurd rfl hx

theorem readResponse_nonzero {c : Bytes} {s s' : Session} {x : Int}
    (h : readResponse c s = some (x, s')) (hx : x ≠ 0) :
    x = 1 ∧ Answered s s' ∧ s'.h.response.headD 0 ∈ c := by
  obtain ⟨x', s₁, hline, h⟩ := bind_eq_some h
  by_cases hx' : x' = -1
  · rw [if_pos hx'] at h
    cases h
    exact absurd rfl hx
  rw [if_neg hx'] at h
  have hfirst := readline_answered hline hx'
  obtain ⟨_, _, hget, h⟩ := bind_eq_some h
  cases hget
  split at h
  · obtain ⟨found, s₂, huntil, h⟩ := bind_eq_some h
    cases found with
    | false =>
      cases h
      exact absurd rfl hx
    | true =>
      obtain ⟨hone, rfl, hmem⟩ := expects_nonzero h hx
      exact ⟨hone, hfirst.trans (readUntil_answered huntil), hmem⟩
  · obtain ⟨hone, rfl, hmem⟩ := expects_nonzero h hx
    exact ⟨hone, hfirst, hmem⟩

/-- A handle with an open data socket, and the transfer command answered by a
preliminary reply. -/
structure Usable (cmd : Bytes) (nData : Option DataHandle) (s : Session) : Prop where
  assigned : nData.isSome
  answered : ∃ line replies address earlier, OnlyReplies replies ∧ line.head? = some 49 ∧
    s.trace = .reply line ::
      (replies ++ .dial address true :: .command (cmd ++ crlf) true :: earlier)

theorem send_true {srv : Server} {line : Bytes} {s s' : Session}
    (h : send srv line s = some (true, s')) : s'.trace = .command line true :: s.trace := by
  obtain ⟨_, _, hget, h⟩ := bind_eq_some h
  cases hget
  cases hsrv : srv s.trace line with
  | none =>
    rw [hsrv] at h
    cases h
  | some answer =>
    rw [hsrv] at h
    cases h
    rfl

theorem head_cStr {response : Bytes} {b : UInt8} (h : response.headD 0 = b) (hb : b ≠ 0) :
    (cStr response).head? = some b := by
  cases response with
  | nil => exact absurd h.symm hb
  | cons x response =>
    rw [List.headD_cons] at h
    rw [cStr, List.takeWhile_cons_of_pos (by simpa [h] using hb), h]
    rfl

theorem ftpDial_cases {w : World} {address cmd earlier : _} {s s' : Session}
    {r : Int × Option DataHandle} (hs : s.trace = .command (cmd ++ crlf) true :: earlier)
    (h : ftpDial w address s = some (r, s')) : r.1 = -1 ∨ r.1 = 1 ∧ Usable cmd r.2 s' := by
  obtain ⟨_, s₁, hemit, h⟩ := bind_eq_some h
  cases hemit
  by_cases hc : w.connects = false
  · rw [if_pos hc] at h
    cases h
    exact .inl rfl
  rw [if_neg hc] at h
  obtain ⟨ok, s₂, hread, h⟩ := bind_eq_some h
  by_cases hok : ok = 0
  · rw [if_pos hok] at h
    cases h
    exact .inl rfl
  rw [if_neg hok] at h
  obtain ⟨-, ⟨replies, hreplies, htrace⟩, hmem⟩ := readResponse_nonzero hread hok
  split at h
  · cases h
    exact .inl rfl
  · cases h
    refine .inr ⟨rfl, rfl, cStr s'.h.response, replies, address, earlier, hreplies, ?_, ?_⟩
    · apply head_cStr
      · exact List.mem_singleton.mp hmem
      · decide
    · rw [Bool.not_eq_false] at hc
      rw [htrace, ← hs, ← hc]

theorem ftpOpenData_cases {w : World} {srv : Server} {cmd address : Bytes} {s s' : Session}
    {r : Int × Option DataHandle} (h : ftpOpenData w srv cmd address s = some (r, s')) :
    r.1 = -1 ∨ r.1 = 1 ∧ Usable cmd r.2 s' := by
  unfold ftpOpenData at h
  split at h
  · cases h
    exact .inl rfl
  split at h
  · cases h
    exact .inl rfl
  obtain ⟨_, _, hget, h⟩ := bind_eq_some h
  cases hget
  split at h
  · cases h
    exact .inl rfl
  obtain ⟨sent, s₁, hsend, h⟩ := bind_eq_some h
  cases sent with
  | false =>
    cases h
    exact .inl rfl
  | true => exact ftpDial_cases (send_true hsend) h

/-- `REST` is refused once `TYPE` and `PASV` have been accepted. -/
def RestRefused (w : World) (srv : Server) (path : Bytes) (s : Session) : Prop :=
  path ≠ [] ∧ path.length + 5 < 512 ∧ s.h.offset ≠ 0 ∧
    ∃ typed s₁ ok s₂ address s₃ s₄,
      ftpSendCmd srv (bytes "TYPE I") (bytes "2") s = some (typed, s₁) ∧ typed ≠ 0 ∧
      ftpSendCmd srv (bytes "PASV") (bytes "2") s₁ = some (ok, s₂) ∧ ok ≠ 0 ∧
      pasvAddress w s₂ = some (some address, s₃) ∧
      ftpSendCmd srv (bytes "REST " ++ toDecimal s.h.offset) (bytes "3") s₃ = some (0, s₄)

/-- What `FtpAccess` says of its result. -/
structure AccessSound (w : World) (srv : Server) (path : Bytes) (s : Session) : Prop where
  one : ∀ nData s', ftpAccess w srv path s = some ((1, nData), s') →
    Usable (bytes "RETR " ++ cStr path) nData s'
  otherwise : ∀ ret nData s', ftpAccess w srv path s = some ((ret, nData), s') → ret ≠ 1 → ret = 0
  -- `FtpXfer` and `GetRange` go on with the handle unless the result is 0
  assigned : ∀ ret nData s', ftpAccess w srv path s = some ((ret, nData), s') → ret ≠ 0 →
    nData.isSome

theorem offset_framed (k : Int) : Framed fun s => s.h.offset = k :=
  framed_of_kept fun _ _ hkept hk => (congrArg FtpHandle.offset hkept).symm.trans hk

theorem dir_framed : Framed fun s => s.h.dir = .control :=
  framed_of_kept fun _ _ hkept hd => (congrArg FtpHandle.dir hkept).symm.trans hd

theorem ftpSendCmd_nonzero {srv : Server} {cmd expected : Bytes} {s s' : Session} {x : Int}
    (h : ftpSendCmd srv cmd expected s = some (x, s')) (hx : x ≠ 0) : s.h.dir = .control := by
  by_contra hd
  obtain ⟨_, _, hget, h⟩ := bind_eq_some h
  cases hget
  by_cases hh : s.h.handle = false
  · rw [if_pos hh] at h
    cases h
    exact hx rfl
  · rw [if_neg hh, if_pos hd] at h
    cases h
    exact hx rfl

/-- `FtpOpenPasv` behind the reply to `PASV`. -/
def ftpOpenAt (w : World) (srv : Server) (cmd : Bytes) :
    Option Bytes → Run (Int × Option DataHandle)
  | none => return (-1, none)
  | some address => do
    let rest ← ftpRest srv
    if rest = 0 then return (0, none) else ftpOpenData w srv cmd address

/-- `FtpOpenPasv` fails, opens the connection or returns 0 at the refusal. -/
theorem ftpOpenPasv_cases {w : World} {srv : Server} {cmd : Bytes} {s s' : Session}
    {r : Int × Option DataHandle} (h : ftpOpenPasv w srv cmd s = some (r, s')) :
    r.1 = -1 ∨ (r.1 = 1 ∧ Usable cmd r.2 s') ∨ s.h.offset ≠ 0 ∧ ∃ ok s₂ address s₃,
      ftpSendCmd srv (bytes "PASV") (bytes "2") s = some (ok, s₂) ∧ ok ≠ 0 ∧
      pasvAddress w s₂ = some (some address, s₃) ∧
      ftpSendCmd srv (bytes "REST " ++ toDecimal s.h.offset) (bytes "3") s₃ = some (0, s') := by
  obtain ⟨_, _, hget, h⟩ := bind_eq_some h
  cases hget
  split at h
  · cases h
    exact .inl rfl
  obtain ⟨ok, s₂, hpasv, h⟩ := bind_eq_some h
  by_cases hok : ok = 0
  · rw [if_pos hok] at h
    cases h
    exact .inl rfl
  rw [if_neg hok] at h
  obtain ⟨address, s₃, haddr, h⟩ := bind_eq_some h
  cases address with
  | none =>
    cases h
    exact .inl rfl
  | some address =>
    have hoffset : s₃.h.offset = s.h.offset :=
      (offset_framed s.h.offset).pasvAddress_keeps w _ _ _
        ((offset_framed s.h.offset).ftpSendCmd_keeps srv _ _ _ _ _ rfl hpasv) haddr
    obtain ⟨rest, s₄, hrest, h⟩ := bind_eq_some h
    by_cases hrefused : rest = 0
    · rw [if_pos hrefused] at h
      cases h
      obtain ⟨_, _, hget, hrest⟩ := bind_eq_some hrest
      cases hget
      rw [hoffset, hrefused] at hrest
      by_cases hzero : s.h.offset = 0
      · rw [if_neg (not_not.mpr hzero)] at hrest
        cases hrest
      · rw [if_pos hzero] at hrest
        exact .inr (.inr ⟨hzero, ok, s₂, address, s₃, hpasv, hok, haddr, hrest⟩)
    · rw [if_neg hrefused] at h
      rcases ftpOpenData_cases h with hr | hr
      · exact .inl hr
      · exact .inr (.inl hr)

/-- `FtpAccess` returns 0, returns 1 with a usable handle, or has been refused. -/
theorem ftpAccess_cases {w : World} {srv : Server} {path : Bytes} {s s' : Session} {ret : Int}
    {nData : Option DataHandle} (h : ftpAccess w srv path s = some ((ret, nData), s')) :
    ret = 0 ∨ (ret = 1 ∧ Usable (bytes "RETR " ++ cStr path) nData s') ∨
      RestRefused w srv path s := by
  by_cases hpath : path = []
  · rw [ftpAccess, if_pos hpath] at h
    cases h
    exact .inl rfl
  rw [ftpAccess, if_neg hpath] at h
  obtain ⟨typed, s₁, htype, h⟩ := bind_eq_some h
  by_cases htyped : typed = 0
  · rw [if_pos htyped] at h
    cases h
    exact .inl rfl
  rw [if_neg htyped] at h
  by_cases hlong : 512 ≤ path.length + 5
  · rw [if_pos hlong] at h
    cases h
    exact .inl rfl
  rw [if_neg hlong] at h
  obtain ⟨r, s₂, hpasv, h⟩ := bind_eq_some h
  by_cases hr : r.1 = -1
  · rw [if_pos hr] at h
    cases h
    exact .inl rfl
  rw [if_neg hr] at h
  cases h
  rcases ftpOpenPasv_cases hpasv with hfail | ⟨-, husable⟩ | ⟨hoffset, ok, s₂, address, s₃, hrest⟩
  · exact absurd hfail hr
  · exact .inr (.inl ⟨rfl, husable⟩)
  · have hkept : s₁.h.offset = s.h.offset :=
      (offset_framed s.h.offset).ftpSendCmd_keeps srv _ _ _ _ _ rfl htype
    rw [hkept] at hoffset hrest
    refine .inr (.inr ⟨hpath, by omega, hoffset, typed, s₁, ok, s₂, address, s₃, s', htype, htyped,
      hrest⟩)

theorem RestRefused.ftpAccess {w : World} {srv : Server} {path : Bytes} {s : Session}
    (h : RestRefused w srv path s) : ∃ s', ftpAccess w srv path s = some ((1, none), s') := by
  obtain ⟨hpath, hlong, hoffset, typed, s₁, ok, s₂, address, s₃, s₄, htype, htyped, hpasv, hok,
    haddr, hrest⟩ := h
  have hoffset₁ : s₁.h.offset = s.h.offset :=
    (offset_framed s.h.offset).ftpSendCmd_keeps srv _ _ _ _ _ rfl htype
  have hoffset₃ : s₃.h.offset = s.h.offset :=
    (offset_framed s.h.offset).pasvAddress_keeps w _ _ _
      ((offset_framed s.h.offset).ftpSendCmd_keeps srv _ _ _ _ _ hoffset₁ hpasv) haddr
  have hdir := dir_framed.ftpSendCmd_keeps srv _ _ _ _ _ (ftpSendCmd_nonzero htype htyped) htype
  have hrefused : ftpRest srv s₃ = some (0, s₄) := by
    unfold ftpRest
    rw [get_bind_eq, hoffset₃, if_pos hoffset]
    exact hrest
  have hopen : ftpOpenPasv w srv (bytes "RETR " ++ cStr path) s₁ = some ((0, none), s₄) := by
    unfold ftpOpenPasv
    rw [get_bind_eq, if_neg (not_not.mpr hdir),
      bind_of_some hpasv, if_neg hok, bind_of_some haddr]
    dsimp only
    rw [bind_of_some hrefused]
    rfl
  refine ⟨s₄, ?_⟩
  rw [Ftp.ftpAccess, if_neg hpath, bind_of_some htype, if_neg htyped, if_neg (by omega),
    bind_of_some hopen]
  rfl

/-- `FtpAccess` means what it says, unless `REST` is refused. -/
theorem ftpAccess_sound_iff (w : World) (srv : Server) (path : Bytes) (s : Session) :
    AccessSound w srv path s ↔ ¬ RestRefused w srv path s := by
  constructor
  · intro hsound hrefused
    obtain ⟨s', h⟩ := hrefused.ftpAccess
    exact absurd (hsound.one none s' h).assigned (by decide)
  · intro hnot
    have hcases : ∀ ret nData s', ftpAccess w srv path s = some ((ret, nData), s') →
        ret = 0 ∨ ret = 1 ∧ Usable (bytes "RETR " ++ cStr path) nData s' := by
      intro ret nData s' h
      rcases ftpAccess_cases h with hz | hone | hrefused
      · exact .inl hz
      · exact .inr hone
      · exact absurd hrefused hnot
    refine ⟨?_, ?_, ?_⟩
    · intro nData s' h
      rcases hcases 1 nData s' h with hz | hone
      · exact absurd hz (by decide)
      · exact hone.2
    · intro ret nData s' h hne
      rcases hcases ret nData s' h with hz | hone
      · exact hz
      · exact absurd hone.1 hne
    · intro ret nData s' h hne
      rcases hcases ret nData s' h with hz | hone
      · exact absurd hz hne
      · exact hone.2.assigned

/-- Then `GetRange` goes on with a handle that was not assigned. -/
theorem RestRefused.getRange {w : World} {srv : Server} {path : Bytes} {s s₀ : Session}
    {size offset : UInt64} (hs : setOffset offset s = some ((), s₀))
    (h : RestRefused w srv path s₀) : getRange w srv path size offset s = none := by
  obtain ⟨s', haccess⟩ := h.ftpAccess
  rw [Ftp.getRange, bind_of_some hs, bind_of_some haccess]
  rfl

/-- A server that cannot resume. -/
def refusesRest : Server := fun _ line =>
  if line.take 4 = bytes "PASV" then some [.data (bytes "227 (10,0,0,1,4,1)\r\n")]
  else if line.take 4 = bytes "REST" then some [.data (bytes "502 no\r\n")]
  else some [.data (bytes "200 ok\r\n")]

/-- A client that has logged in asks for the bytes from offset 1 on. -/
theorem ftpAccess_refused : ∃ s s₀, loggedIn = some (1, s) ∧ setOffset 1 s = some ((), s₀) ∧
    ¬ AccessSound idealWorld refusesRest (bytes "/a") s₀ := by
  have hin : (loggedIn.bind fun r => (setOffset 1 r.2).bind fun r₀ =>
      (ftpAccess idealWorld refusesRest (bytes "/a") r₀.2).map fun r₁ => (r.1, r₁.1)) =
      some (1, 1, none) := by decide +kernel
  obtain ⟨⟨x, s⟩, hlog, hin⟩ := Option.bind_eq_some_iff.mp hin
  obtain ⟨⟨⟨⟩, s₀⟩, hset, hin⟩ := Option.bind_eq_some_iff.mp hin
  obtain ⟨⟨⟨ret, nData⟩, s₁⟩, haccess, hres⟩ := Option.map_eq_some_iff.mp hin
  simp only [Prod.mk.injEq] at hres
  obtain ⟨rfl, rfl, rfl⟩ := hres
  refine ⟨s, s₀, hlog, hset, ?_⟩
  intro hsound
  exact absurd (hsound.one none s₁ haccess).assigned (by decide)

end EzRemote.Ftp

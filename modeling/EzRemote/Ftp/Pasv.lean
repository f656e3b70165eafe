import EzRemote.Ftp.Access

/-!
# Replies to PASV

Where `FtpOpenPasv` connects to, for each text that a reply to `PASV` leaves in
`response`.
-/

namespace EzRemote.Ftp

/-- The value of decimal digits. -/
def decimal (digits : Bytes) : Nat := digits.foldl (fun n b => 10 * n + (b.toNat - 48)) 0

/-- The text starts with these decimal numbers, with commas between them. -/
inductive Decimals : List Nat → Bytes → Prop
  | last {digits rest : Bytes} (hne : digits ≠ []) (hd : ∀ b ∈ digits, isDigit b = true)
      (hend : ∀ b ∈ rest.head?, isDigit b = false) : Decimals [decimal digits] (digits ++ rest)
  | more {digits rest : Bytes} {v : List Nat} (hne : digits ≠ [])
      (hd : ∀ b ∈ digits, isDigit b = true) (hrest : Decimals v rest) :
      Decimals (decimal digits :: v) (digits ++ 44 :: rest)

/-- Six numbers of a byte each stand behind the first parenthesis. -/
def SixNumbers (text : Bytes) (v : List Nat) : Prop :=
  ∃ cp, text.dropWhile (· ≠ 40) = 40 :: cp ∧ Decimals v cp ∧ v.length = 6 ∧ ∀ n ∈ v, n ≤ 255

theorem isDigit_range {b : UInt8} (h : isDigit b = true) : 48 ≤ b ∧ b ≤ 57 := by
  simpa [isDigit] using h

theorem not_isSpace_of_isDigit {b : UInt8} (h : isDigit b = true) : isSpace b = false := by
  obtain ⟨hl, hu⟩ := isDigit_range h
  simp only [isSpace, Bool.or_eq_false_iff, Bool.and_eq_false_iff, decide_eq_false_iff_not]
  constructor
  · rintro rfl
    exact absurd hl (by decide)
  · right
    intro hle
    exact absurd (UInt8.le_trans hl hle) (by decide)

theorem takeWhile_digits {digits rest : Bytes} (hd : ∀ b ∈ digits, isDigit b = true)
    (hend : ∀ b ∈ rest.head?, isDigit b = false) :
    (digits ++ rest).takeWhile isDigit = digits ∧ (digits ++ rest).dropWhile isDigit = rest := by
  rw [List.takeWhile_append_of_pos hd, List.dropWhile_append_of_pos hd]
  cases rest with
  | nil => exact ⟨List.append_nil _, rfl⟩
  | cons b rest =>
    have hb : ¬ isDigit b = true := by
      rw [hend b rfl]
      decide
    rw [List.takeWhile_cons_of_neg hb, List.dropWhile_cons_of_neg hb]
    exact ⟨List.append_nil _, rfl⟩

theorem scanUnsigned_digits {digits rest : Bytes} (hne : digits ≠ [])
    (hd : ∀ b ∈ digits, isDigit b = true) (hend : ∀ b ∈ rest.head?, isDigit b = false)
    (hfit : decimal digits ≤ 255) :
    scanUnsigned (digits ++ rest) = some (decimal digits, rest) := by
  obtain ⟨htake, hdrop⟩ := takeWhile_digits hd hend
  obtain ⟨b, bs, rfl⟩ := List.exists_cons_of_ne_nil hne
  have hb := hd b List.mem_cons_self
  have hspace : (b :: bs ++ rest).dropWhile isSpace = b :: bs ++ rest := by
    rw [List.cons_append, List.dropWhile_cons_of_neg]
    rw [not_isSpace_of_isDigit hb]
    decide
  have hminus : ¬ (b :: bs ++ rest).head? = some 45 := by
    intro h
    rw [Option.some.inj h] at hb
    exact absurd hb (by decide)
  have hplus : ¬ (b :: bs ++ rest).head? = some 43 := by
    intro h
    rw [Option.some.inj h] at hb
    exact absurd hb (by decide)
  unfold scanUnsigned
  rw [hspace]
  dsimp only
  rw [if_neg (not_or.mpr ⟨hminus, hplus⟩), htake, hdrop, if_neg, if_neg hminus]
  · rfl
  · rw [not_or]
    refine ⟨hne, ?_⟩
    show ¬ 2 ^ 32 ≤ decimal (b :: bs)
    omega

theorem scanNumbers_of_decimals {v : List Nat} {text : Bytes} (h : Decimals v text)
    (hv : ∀ n ∈ v, n ≤ 255) : scanNumbers v.length text = some v := by
  -- induction on the numbers
  induction h with
  | last hne hd hend =>
    rw [List.length_singleton, scanNumbers, scanUnsigned_digits hne hd hend (hv _ List.mem_cons_self)]
    rfl
  | @more digits rest v hne hd hrest ih =>
    have hcomma : ∀ b ∈ (44 :: rest).head?, isDigit b = false := by
      rintro b ⟨⟩
      decide
    have hfirst := scanUnsigned_digits hne hd hcomma (hv _ List.mem_cons_self)
    have hbehind := ih fun n hn => hv n (List.mem_cons_of_mem _ hn)
    obtain ⟨k, hk⟩ : ∃ k, v.length = k + 1 := by
      cases hrest with
      | last => exact ⟨0, rfl⟩
      | more => exact ⟨_, rfl⟩
    rw [hk] at hbehind
    rw [List.length_cons, hk, scanNumbers, hfirst]
    show (scanNumbers (k + 1) rest).map (decimal digits :: ·) = some (decimal digits :: v)
    rw [hbehind]
    rfl

/-- The addresses to which data connections were opened, newest first. -/
def opened (trace : List Event) : List Bytes :=
  trace.filterMap fun e =>
    match e with
    | .dial address true => some address
    | _ => none

/-- The address and the port of `connect`. -/
def target (address : Bytes) : List Nat × Nat :=
  ((address.take 4).map UInt8.toNat, (address.getD 4 0).toNat * 256 + (address.getD 5 0).toNat)

theorem opened_spoken (addresses : List Bytes) : Spoken fun s => opened s.trace = addresses where
  readline := by
    intro s a s' h hr
    unfold readline at hr
    split at hr
    · cases hr
    · cases hr
      dsimp only
      split
      · exact h
      · exact h
  command _ _ := Keeps.modify fun _ h => h
  arrive _ _ h := h

theorem ftpDial_opened {w : World} {address : Bytes} {s s' : Session}
    {r : Int × Option DataHandle} (h : ftpDial w address s = some (r, s')) :
    opened s'.trace = if w.connects then address :: opened s.trace else opened s.trace := by
  obtain ⟨_, s₁, hemit, h⟩ := bind_eq_some h
  cases hemit
  by_cases hc : w.connects = false
  · rw [if_pos hc] at h
    cases h
    rw [hc]
    rfl
  rw [if_neg hc] at h
  rw [Bool.not_eq_false] at hc
  have hkept : opened s'.trace = opened (.dial address w.connects :: s.trace) := by
    have hread := readResponse_keeps
      (opened_spoken (opened (.dial address w.connects :: s.trace))).readline (bytes "1")
    obtain ⟨ok, s₂, hreply, h⟩ := bind_eq_some h
    have hs₂ := hread _ _ _ rfl hreply
    split at h
    · cases h
      exact hs₂
    split at h
    · cases h
      exact hs₂
    · cases h
      exact hs₂
  rw [hkept, hc]
  rfl

theorem ftpOpenData_opened {w : World} {srv : Server} {cmd address : Bytes} {s s' : Session}
    {r : Int × Option DataHandle} (h : ftpOpenData w srv cmd address s = some (r, s')) :
    opened s'.trace = opened s.trace ∨ opened s'.trace = address :: opened s.trace := by
  unfold ftpOpenData at h
  split at h
  · cases h
    exact .inl rfl
  split at h
  · cases h
    exact .inl rfl
  obtain ⟨_, _, hget, h⟩ := bind_eq_some h
  cases hget
  split at h
  · cases h
    exact .inl rfl
  obtain ⟨sent, s₁, hsend, h⟩ := bind_eq_some h
  have hkept := (opened_spoken (opened s.trace)).send_keeps srv _ _ _ _ rfl hsend
  cases sent with
  | false =>
    cases h
    exact .inl hkept
  | true =>
    rw [ftpDial_opened h, hkept]
    split
    · exact .inr rfl
    · exact .inl rfl

theorem ftpOpenData_opens {srv : Server} {cmd address : Bytes} {s s' : Session}
    {r : Int × Option DataHandle} {answer : List Recv} (hdir : s.h.dir = .control)
    (hsrv : srv s.trace (cmd ++ crlf) = some answer)
    (h : ftpOpenData idealWorld srv cmd address s = some (r, s')) :
    opened s'.trace = address :: opened s.trace := by
  obtain ⟨_, _, hget, h⟩ := bind_eq_some h
  cases hget
  rw [if_neg (not_not.mpr hdir)] at h
  obtain ⟨sent, s₁, hsend, h⟩ := bind_eq_some h
  have hkept := (opened_spoken (opened s.trace)).send_keeps srv _ _ _ _ rfl hsend
  obtain ⟨_, _, hget, hsend⟩ := bind_eq_some hsend
  cases hget
  rw [hsrv] at hsend
  cases hsend
  rw [ftpDial_opened h, ← hkept]
  rfl

/-- What `FtpOpenPasv` makes of a reply to `PASV`: it connects to six numbers
behind a parenthesis, or fails without a connection. -/
structure Exact (accepted : Int) (text : Bytes) (s : Session)
    (run : Option ((Int × Option DataHandle) × Session)) : Prop where
  connects : ∀ v, accepted ≠ 0 → SixNumbers text v → ∀ r s', run = some (r, s') →
    opened s'.trace = opened s.trace ∨ ∃ address, opened s'.trace = address :: opened s.trace ∧
      target address = (v.take 4, v.getD 4 0 * 256 + v.getD 5 0)
  refuses : (¬ ∃ v, accepted ≠ 0 ∧ SixNumbers text v) →
    ∃ s', run = some ((-1, none), s') ∧ opened s'.trace = opened s.trace

theorem pasvAddress_eq (w : World) {s : Session} (hc : s.h.correctpasv = false) :
    pasvAddress w s = match (cStr s.h.response).dropWhile (· ≠ 40) with
      | [] => some (none, s)
      | _ :: cp => (scanNumbers 6 cp).map fun v => (some (v.map UInt8.ofNat), s) := by
  unfold pasvAddress
  rw [get_bind_eq]
  cases (cStr s.h.response).dropWhile (· ≠ 40) with
  | nil => rfl
  | cons _ cp =>
    dsimp only
    cases scanNumbers 6 cp with
    | none => rfl
    | some v =>
      dsimp only
      rw [hc]
      rfl

theorem ftpSendCmd_congr {srv srv' : Server} {cmd : Bytes}
    (h : ∀ trace, srv' trace (cStr cmd ++ crlf) = srv trace (cStr cmd ++ crlf))
    (expected : Bytes) : ftpSendCmd srv' cmd expected = ftpSendCmd srv cmd expected := by
  unfold ftpSendCmd send
  simp only [h]

theorem target_map {v : List Nat} (hlen : v.length = 6) (hv : ∀ n ∈ v, n ≤ 255) :
    target (v.map UInt8.ofNat) = (v.take 4, v.getD 4 0 * 256 + v.getD 5 0) := by
  have hbyte : ∀ n ∈ v, (UInt8.ofNat n).toNat = n := by
    intro n hn
    rw [UInt8.toNat_ofNat']
    exact Nat.mod_eq_of_lt (Nat.lt_succ_of_le (hv n hn))
  match v, hlen with
  | [a, b, c, d, e, f], _ =>
    simp only [List.forall_mem_cons] at hbyte
    obtain ⟨ha, hb, hc, hd, he, hf, -⟩ := hbyte
    simp only [target, List.map_cons, List.map_nil, List.take_succ_cons, List.take_zero,
      List.getD_cons_succ, List.getD_cons_zero, ha, hb, hc, hd, he, hf]

theorem dropWhile_paren {text : Bytes} : text.dropWhile (· ≠ 40) = [] ↔ 40 ∉ text := by
  rw [List.dropWhile_eq_nil_iff]
  constructor
  · intro h hmem
    exact absurd (h 40 hmem) (by decide)
  · intro h b hb
    exact decide_eq_true fun heq => h (heq ▸ hb)

theorem sixNumbers_scan {text cp : Bytes} {b : UInt8} {v : List Nat} (h : SixNumbers text v)
    (hcp : text.dropWhile (· ≠ 40) = b :: cp) : scanNumbers 6 cp = some v := by
  obtain ⟨cp', hcp', hd, hlen, hv⟩ := h
  rw [hcp] at hcp'
  cases hcp'
  rw [← hlen]
  exact scanNumbers_of_decimals hd hv

section Reply

variable {srv : Server} {s s₁ : Session} {x : Int}
  (hreply : ftpSendCmd srv (bytes "PASV") (bytes "2") s = some (x, s₁))
  (hpasv : s.h.correctpasv = false)
include hreply

theorem ftpOpenPasv_refused (hx : x = 0) (w : World) (cmd : Bytes) :
    ∃ s', ftpOpenPasv w srv cmd s = some ((-1, none), s') ∧
      opened s'.trace = opened s.trace := by
  by_cases hdir : s.h.dir ≠ .control
  · refine ⟨s, ?_, rfl⟩
    unfold ftpOpenPasv
    rw [get_bind_eq, if_pos hdir]
    rfl
  · refine ⟨s₁, ?_, (opened_spoken (opened s.trace)).ftpSendCmd_keeps srv _ _ _ _ _ rfl hreply⟩
    unfold ftpOpenPasv
    rw [get_bind_eq, if_neg hdir, bind_of_some hreply, if_pos hx]
    rfl

theorem ftpOpenPasv_accepted (hx : x ≠ 0) (w : World) (cmd : Bytes) :
    ftpOpenPasv w srv cmd s = (pasvAddress w >>= ftpOpenAt w srv cmd) s₁ := by
  unfold ftpOpenPasv
  rw [get_bind_eq, if_neg (not_not.mpr (ftpSendCmd_nonzero hreply hx)), bind_of_some hreply,
    if_neg hx]
  rfl

include hpasv

theorem correctpasv_kept : s₁.h.correctpasv = false :=
  (framed_of_kept (P := fun h => h.correctpasv = false) fun _ _ hkept hc =>
    (congrArg FtpHandle.correctpasv hkept).symm.trans hc).ftpSendCmd_keeps srv _ _ _ _ _ hpasv hreply

/-- A reply without a parenthesis, or with six numbers behind it. -/
theorem ftpOpenPasv_exact (w : World) (cmd : Bytes)
    (h : x = 0 ∨ 40 ∉ cStr s₁.h.response ∨ ∃ v, SixNumbers (cStr s₁.h.response) v) :
    Exact x (cStr s₁.h.response) s (ftpOpenPasv w srv cmd s) := by
  by_cases hx : x = 0
  · refine ⟨fun v hne => absurd hx hne, fun _ => ftpOpenPasv_refused hreply hx w cmd⟩
  have hkept := (opened_spoken (opened s.trace)).ftpSendCmd_keeps srv _ _ _ _ _ rfl hreply
  have haddr := pasvAddress_eq w (correctpasv_kept hreply hpasv)
  rw [ftpOpenPasv_accepted hreply hx]
  cases hcp : (cStr s₁.h.response).dropWhile (· ≠ 40) with
  | nil =>
    rw [hcp] at haddr
    rw [bind_of_some haddr]
    constructor
    · rintro v - ⟨cp, hcp', -⟩
      rw [hcp] at hcp'
      cases hcp'
    · exact fun _ => ⟨s₁, rfl, hkept⟩
  | cons b cp =>
    have hmem : 40 ∈ cStr s₁.h.response := by
      by_contra hnot
      rw [dropWhile_paren.mpr hnot] at hcp
      cases hcp
    obtain ⟨v, hv⟩ := (h.resolve_left hx).resolve_left (not_not.mpr hmem)
    rw [hcp] at haddr
    dsimp only at haddr
    rw [sixNumbers_scan hv hcp] at haddr
    rw [bind_of_some haddr]
    constructor
    · rintro v' - hv' r s' hrun
      have heq : v' = v := by
        have hscan := sixNumbers_scan hv' hcp
        rw [sixNumbers_scan hv hcp] at hscan
        exact (Option.some.inj hscan).symm
      obtain ⟨rest, s₂, hrest, hrun⟩ := bind_eq_some hrun
      have hkept₂ := (opened_spoken (opened s.trace)).ftpRest_keeps srv _ _ _ hkept hrest
      split at hrun
      · cases hrun
        exact .inl hkept₂
      · rcases ftpOpenData_opened hrun with hnone | hopen
        · exact .inl (hnone.trans hkept₂)
        · refine .inr ⟨_, hopen.trans (congrArg _ hkept₂), ?_⟩
          obtain ⟨_, _, _, hlen, hle⟩ := hv
          rw [heq]
          exact target_map hlen hle
    · exact fun hnot => absurd ⟨v, hx, hv⟩ hnot

/-- Any other reply goes wrong with a server that accepts everything behind it. -/
theorem ftpOpenPasv_inexact (hx : x ≠ 0) (hparen : 40 ∈ cStr s₁.h.response)
    (hnumbers : ¬ ∃ v, SixNumbers (cStr s₁.h.response) v) {cmd : Bytes}
    (hsrv : ∀ trace, (srv trace (cmd ++ crlf)).isSome) :
    ¬ Exact x (cStr s₁.h.response) s (ftpOpenPasv idealWorld srv cmd s) := by
  intro hexact
  obtain ⟨s', hrun, hopened⟩ := hexact.refuses fun ⟨v, _, hv⟩ => hnumbers ⟨v, hv⟩
  have hcorrect := correctpasv_kept hreply hpasv
  have haddr := pasvAddress_eq idealWorld hcorrect
  rw [ftpOpenPasv_accepted hreply hx] at hrun
  cases hcp : (cStr s₁.h.response).dropWhile (· ≠ 40) with
  | nil => exact dropWhile_paren.mp hcp hparen
  | cons b cp =>
    rw [hcp] at haddr
    dsimp only at haddr
    cases hscan : scanNumbers 6 cp with
    | none =>
      obtain ⟨_, _, hnone, -⟩ := bind_eq_some hrun
      rw [haddr, hscan] at hnone
      cases hnone
    | some v =>
      rw [hscan] at haddr
      rw [bind_of_some haddr] at hrun
      obtain ⟨rest, s₂, hrest, hrun⟩ := bind_eq_some hrun
      split at hrun
      · cases hrun
      · have hdir := dir_framed.ftpRest_keeps srv _ _ _
          (dir_framed.ftpSendCmd_keeps srv _ _ _ _ _ (ftpSendCmd_nonzero hreply hx) hreply) hrest
        have hkept := (opened_spoken (opened s.trace)).ftpRest_keeps srv _ _ _
          ((opened_spoken (opened s.trace)).ftpSendCmd_keeps srv _ _ _ _ _ rfl hreply) hrest
        obtain ⟨answer, hanswer⟩ := Option.isSome_iff_exists.mp (hsrv s₂.trace)
        have hopen := ftpOpenData_opens hdir hanswer hrun
        rw [hopened, hkept] at hopen
        exact List.cons_ne_self _ _ hopen.symm

end Reply

/-- The line of a command. -/
def sentAs (cmd : Bytes) : Bytes := cStr cmd ++ crlf

/-- A server that answers `PASV` and then accepts every line. -/
def compliant (srv : Server) : Server := fun trace line =>
  if line = sentAs (bytes "PASV") then srv trace line else some []

/-- Whatever the server answers later, and whatever the socket calls return,
`FtpOpenPasv` is exact about a reply: if and only if the reply is refused, has no
parenthesis, or has six numbers behind it. -/
theorem ftpOpenPasv_exact_iff {srv : Server} {s s₁ : Session} {x : Int}
    (hreply : ftpSendCmd srv (bytes "PASV") (bytes "2") s = some (x, s₁))
    (hpasv : s.h.correctpasv = false) :
    (∀ (w : World) (srv' : Server) (cmd : Bytes),
      (∀ trace, srv' trace (sentAs (bytes "PASV")) = srv trace (sentAs (bytes "PASV"))) →
        Exact x (cStr s₁.h.response) s (ftpOpenPasv w srv' cmd s)) ↔
      x = 0 ∨ 40 ∉ cStr s₁.h.response ∨ ∃ v, SixNumbers (cStr s₁.h.response) v := by
  constructor
  · intro hexact
    by_contra hnot
    rw [not_or, not_or, not_not] at hnot
    obtain ⟨hx, hparen, hnumbers⟩ := hnot
    have hsame : ∀ trace, compliant srv trace (sentAs (bytes "PASV")) =
        srv trace (sentAs (bytes "PASV")) := fun trace => if_pos rfl
    have hreply' : ftpSendCmd (compliant srv) (bytes "PASV") (bytes "2") s = some (x, s₁) := by
      rw [ftpSendCmd_congr hsame]
      exact hreply
    have haccepts : ∀ trace, (compliant srv trace (bytes "RETR a" ++ crlf)).isSome := by
      intro trace
      rw [compliant, if_neg (by decide)]
      rfl
    exact ftpOpenPasv_inexact hreply' hpasv hx hparen hnumbers haccepts
      (hexact idealWorld _ (bytes "RETR a") hsame)
  · intro h w srv' cmd hsame
    rw [← ftpSendCmd_congr hsame] at hreply
    exact ftpOpenPasv_exact hreply hpasv w cmd h

/-- A server that answers `PASV` with a line. -/
def announces (line : Bytes) : Server := fun _ cmd =>
  if cmd = sentAs (bytes "PASV") then some [.data (line ++ crlf)]
  else some [.data (bytes "150 go\r\n")]

/-- The reply to `PASV` after the login. -/
def passiveReply (line : Bytes) : Option (Int × Int × Bytes × Bool) :=
  loggedIn.bind fun r => (ftpSendCmd (announces line) (bytes "PASV") (bytes "2") r.2).map fun r₁ =>
    (r.1, r₁.1, cStr r₁.2.h.response, r.2.h.correctpasv)

theorem passiveReply_some (line text : Bytes) (h : passiveReply line = some (1, 1, text, false)) :
    ∃ s s₁, loggedIn = some (1, s) ∧ s.h.correctpasv = false ∧
      ftpSendCmd (announces line) (bytes "PASV") (bytes "2") s = some (1, s₁) ∧
      cStr s₁.h.response = text := by
  obtain ⟨⟨x, s⟩, hlog, h⟩ := Option.bind_eq_some_iff.mp h
  obtain ⟨⟨y, s₁⟩, hreply, h⟩ := Option.map_eq_some_iff.mp h
  simp only [Prod.mk.injEq] at h
  obtain ⟨rfl, rfl, htext, hpasv⟩ := h
  exact ⟨s, s₁, hlog, hpasv, hreply, htext⟩

/-- `227 (10,0,0,1,4,1)`. -/
theorem ftpOpenPasv_exact_numbers : ∃ s s₁, loggedIn = some (1, s) ∧
    ftpSendCmd (announces (bytes "227 (10,0,0,1,4,1)")) (bytes "PASV") (bytes "2") s =
      some (1, s₁) ∧
    ∀ (w : World) (srv' : Server) (cmd : Bytes),
      (∀ trace, srv' trace (sentAs (bytes "PASV")) =
        announces (bytes "227 (10,0,0,1,4,1)") trace (sentAs (bytes "PASV"))) →
        Exact 1 (cStr s₁.h.response) s (ftpOpenPasv w srv' cmd s) := by
  have hnumbers : Decimals [10, 0, 0, 1, 4, 1] (bytes "10,0,0,1,4,1)\n") := by
    show Decimals [decimal (bytes "10"), decimal (bytes "0"), decimal (bytes "0"),
      decimal (bytes "1"), decimal (bytes "4"), decimal (bytes "1")]
      (bytes "10" ++ 44 :: (bytes "0" ++ 44 :: (bytes "0" ++ 44 :: (bytes "1" ++ 44 ::
        (bytes "4" ++ 44 :: (bytes "1" ++ bytes ")\n"))))))
    have hten : ∀ b ∈ bytes "10", isDigit b = true := List.all_eq_true.mp rfl
    have hzero : ∀ b ∈ bytes "0", isDigit b = true := List.all_eq_true.mp rfl
    have hone : ∀ b ∈ bytes "1", isDigit b = true := List.all_eq_true.mp rfl
    have hfour : ∀ b ∈ bytes "4", isDigit b = true := List.all_eq_true.mp rfl
    refine .more (by decide) hten (.more (by decide) hzero (.more (by decide) hzero
      (.more (by decide) hone (.more (by decide) hfour (.last (by decide) hone ?_)))))
    rintro b ⟨⟩
    rfl
  obtain ⟨s, s₁, hlog, hpasv, hreply, htext⟩ := passiveReply_some
    (bytes "227 (10,0,0,1,4,1)") (bytes "227 (10,0,0,1,4,1)\n") (by decide +kernel)
  refine ⟨s, s₁, hlog, hreply, (ftpOpenPasv_exact_iff hreply hpasv).mpr (.inr (.inr ?_))⟩
  rw [htext]
  exact ⟨_, _, rfl, hnumbers, rfl, by decide⟩

/-- A number that no byte holds, and a list that ends too early. -/
theorem ftpOpenPasv_astray :
    (∃ s s₁, loggedIn = some (1, s) ∧
      ftpSendCmd (announces (bytes "227 (300,0,0,1,4,1)")) (bytes "PASV") (bytes "2") s =
        some (1, s₁) ∧
      ¬ Exact 1 (cStr s₁.h.response) s (ftpOpenPasv idealWorld
        (announces (bytes "227 (300,0,0,1,4,1)")) (bytes "RETR /a") s)) ∧
    ∃ s s₁, loggedIn = some (1, s) ∧
      ftpSendCmd (announces (bytes "227 (10,0)")) (bytes "PASV") (bytes "2") s = some (1, s₁) ∧
      ¬ Exact 1 (cStr s₁.h.response) s (ftpOpenPasv idealWorld
        (announces (bytes "227 (10,0)")) (bytes "RETR /a") s) := by
  have hanswers : ∀ line trace, (announces line trace (bytes "RETR /a" ++ crlf)).isSome := by
    intro line trace
    rw [announces, if_neg (by decide)]
    rfl
  constructor
  · obtain ⟨s, s₁, hlog, hpasv, hreply, htext⟩ := passiveReply_some
      (bytes "227 (300,0,0,1,4,1)") (bytes "227 (300,0,0,1,4,1)\n")
      (by decide +kernel)
    refine ⟨s, s₁, hlog, hreply, ftpOpenPasv_inexact hreply hpasv (by decide) ?_ ?_ (hanswers _)⟩
    · rw [htext]
      decide
    · rw [htext]
      rintro ⟨v, hv⟩
      have hcp : (bytes "227 (300,0,0,1,4,1)\n").dropWhile (· ≠ 40) =
          40 :: bytes "300,0,0,1,4,1)\n" := by decide
      have hscan := sixNumbers_scan hv hcp
      obtain ⟨_, _, _, _, hle⟩ := hv
      have hlarge : scanNumbers 6 (bytes "300,0,0,1,4,1)\n") = some [300, 0, 0, 1, 4, 1] := by decide
      rw [hlarge] at hscan
      cases hscan
      exact absurd (hle 300 List.mem_cons_self) (by decide)
  · obtain ⟨s, s₁, hlog, hpasv, hreply, htext⟩ := passiveReply_some
      (bytes "227 (10,0)") (bytes "227 (10,0)\n") (by decide +kernel)
    refine ⟨s, s₁, hlog, hreply, ftpOpenPasv_inexact hreply hpasv (by decide) ?_ ?_ (hanswers _)⟩
    · rw [htext]
      decide
    · rw [htext]
      rintro ⟨v, hv⟩
      have hcp : (bytes "227 (10,0)\n").dropWhile (· ≠ 40) = 40 :: bytes "10,0)\n" := by decide
      have hscan := sixNumbers_scan hv hcp
      have hshort : scanNumbers 6 (bytes "10,0)\n") = none := by decide
      rw [hshort] at hscan
      cases hscan

end EzRemote.Ftp

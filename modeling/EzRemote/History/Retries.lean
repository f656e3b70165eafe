import EzRemote.Download.Retries
import EzRemote.History.Acquire

/-!
# Retries with the clients of hosts

The attempts of `DownloadFilesThread` at the rows of a list, each with what
`AcquireRemoteClient` makes of the host of its row.
-/

namespace EzRemote.History

open Download
open Pool (Returns ClientPool acquireSection clientPoolKey newClient)
open Session (Outcomes Acquired acquireRemoteClient createPooledClient ConnectAccepted LoginFree
  ServerFree)

/-- A pass goes on with what `AcquireRemoteClient` has returned for its row. -/
def Attempting (allowed : Outcomes → Prop) (s : State) (a : ThreadAction) : Prop :=
  ∀ client, a = .acquired client → ∃ i resume r, s.pc = .acquiring i resume ∧
    s.bgDownloadList[i]? = some r ∧ Acquires allowed r.hostInfo client

variable (c : Cipher) (allowed : Outcomes → Prop) (rows : List BgDownloadData)

/-- Runs of the thread that begin with `rows` in the list, with any outcome of
every `Get`. -/
def RetryReachable : Retrying → Prop :=
  Transition.Reachable (Starts rows) (retryStep c) fun w a => Attempting allowed w.base a

/-- The runs that come after `w`. -/
def RetryLater (w : Retrying) : Retrying → Prop :=
  Transition.Reachable (· = w) (retryStep c) fun w a => Attempting allowed w.base a

/-- Retries of `rows` are bounded and no row starves the others. -/
structure RetriesBounded : Prop where
  /-- `AcquireRemoteClient` returns, whatever the pool holds. -/
  returns : ∀ w, RetryReachable c allowed rows w → ∀ i resume r, w.base.pc = .acquiring i resume →
    w.base.bgDownloadList[i]? = some r → ∀ maxIdle clock pool taken,
      acquireSection maxIdle (clientPoolKey r.hostInfo) clock pool = some taken →
        ∀ connected o, allowed o → Returns (acquireRemoteClient connected o r.hostInfo taken)
  /-- The thread is never stuck, whatever the next `Get` returns. -/
  goesOn : ∀ w, RetryReachable c allowed rows w → ∀ ret,
    ∃ a ∈ [ThreadAction.go, .save 0, .acquired true, .returned ret],
      Attempting allowed w.base a ∧ (retryStep c w a).isSome = true
  /-- Every pass ends, once its transfers do. -/
  steps : ∀ w, RetryReachable c allowed rows w → w.steps ≤ (w.passes + 1) * (8 * rows.length + 6)
  finished : ∀ w, RetryReachable c allowed rows w → 6 * rows.length ≤ w.passes →
    w.base.bgDownloadList.length = rows.length ∧
    ∀ r ∈ w.base.bgDownloadList, r.state = .success ∨ r.state = .failed ∧ r.failedAttempts = 5
  gets : ∀ w, RetryReachable c allowed rows w → ∀ i < rows.length, w.gets i ≤ 6
  notAgain : ∀ w w', RetryReachable c allowed rows w → RetryLater c allowed w w' → ∀ (i : Nat) r,
    w.base.bgDownloadList[i]? = some r → r.Finished →
      w'.base.bgDownloadList[i]? = some r ∧ w'.gets i = w.gets i

variable {c allowed rows}

theorem isClient_of_create {o : Outcomes} {h : HostInfo} {a : Acquired}
    (hclass : newClient h ≠ none) (ho : createPooledClient o h = .ok a) : a.isClient = true := by
  obtain ⟨cls, hcls⟩ := Option.ne_none_iff_exists'.mp hclass
  unfold createPooledClient at ho
  rw [hcls] at ho
  obtain ⟨r, -, hr⟩ := Session.bind_eq_ok ho
  cases hr
  rfl

theorem client_of_acquires {h : HostInfo} {client : Bool} (hclass : newClient h ≠ none)
    (ha : Acquires allowed h client) : client = true := by
  obtain ⟨maxIdle, clock, pool, taken, connected, o, a, -, -, hacquire, rfl⟩ := ha
  unfold acquireRemoteClient at hacquire
  cases htaken : taken.client with
  | some p =>
    rw [htaken] at hacquire
    cases hacquire
    rfl
  | none =>
    rw [htaken] at hacquire
    exact isClient_of_create hclass hacquire

theorem acquires_true (hsome : ∃ o, allowed o) {h : HostInfo} (hclass : newClient h ≠ none)
    (hcreates : Creates allowed h) : Acquires allowed h true := by
  obtain ⟨o, ho⟩ := hsome
  obtain ⟨a, ha⟩ := hcreates o ho
  exact ⟨fun _ => 0, [], .empty, _, fun _ => false, o, a, acquireSection_empty h, ho, ha,
    isClient_of_create hclass ha⟩

theorem acquiring_of_acquired {s t : State} {pc : Pc} {client : Bool}
    (st : ThreadStep c s pc (.acquired client) t) : ∃ i resume, pc = .acquiring i resume := by
  cases st with
  | move m => cases m <;> exact ⟨_, _, rfl⟩
  | edit e => cases e

section Bounds

variable (hclass : ∀ r ∈ rows, newClient r.hostInfo ≠ none)

include hclass

theorem class_of_retry {w : Retrying} (h : Retry rows w) {r : BgDownloadData}
    (hr : r ∈ w.base.bgDownloadList) : newClient r.hostInfo ≠ none := by
  have hmem : r.hostInfo ∈ rows.map fun r => r.hostInfo :=
    h.hosts ▸ List.mem_map_of_mem (f := fun r => r.hostInfo) hr
  obtain ⟨r₀, hr₀, heq⟩ := List.mem_map.mp hmem
  exact heq ▸ hclass r₀ hr₀

theorem retry_attempting {w w' : Retrying} {a : ThreadAction} (h : Retry rows w)
    (hok : Attempting allowed w.base a) (st : retryStep c w a = some w') : Retry rows w' := by
  refine retry_step h ?_ st
  intro client ha
  obtain ⟨i, resume, r, -, hr, hacquires⟩ := hok client ha
  exact client_of_acquires (class_of_retry hclass h (List.mem_of_getElem? hr)) hacquires

variable (hnew : ∀ r ∈ rows, ∃ req now, DownloadRequest.downloadData req now = some r)

include hnew

theorem retry_reachable {w : Retrying} (h : RetryReachable c allowed rows w) : Retry rows w := by
  apply Transition.Reachable.invariant h
  · exact fun w hw => retry_starts hw hnew
  · exact fun w a w' hw hok st => retry_attempting hclass hw hok st

theorem finished_later {w w' : Retrying} (h : RetryReachable c allowed rows w)
    (hl : RetryLater c allowed w w') {i : Nat} {r : BgDownloadData}
    (hr : w.base.bgDownloadList[i]? = some r) (hf : r.Finished) :
    w'.base.bgDownloadList[i]? = some r ∧ w'.gets i = w.gets i := by
  have hrun : Retry rows w' ∧ w'.base.bgDownloadList[i]? = some r ∧ w'.gets i = w.gets i := by
    apply Transition.Reachable.invariant hl
    · rintro w' rfl
      exact ⟨retry_reachable hclass hnew h, hr, rfl⟩
    · rintro w₁ a w₂ ⟨hw, hr₁, hgets⟩ hok st
      obtain ⟨hr₂, hgets₂⟩ := finished_step hw st hr₁ hf
      exact ⟨retry_attempting hclass hw hok st, hr₂, hgets₂.trans hgets⟩
  exact hrun.2

theorem retriesBounded_of (hallowed : ∃ o, allowed o)
    (hreturns : ∀ r ∈ rows, Creates allowed r.hostInfo) : RetriesBounded c allowed rows := by
  have hhost : ∀ {w}, RetryReachable c allowed rows w → ∀ {r}, r ∈ w.base.bgDownloadList →
      Creates allowed r.hostInfo := by
    intro w hw r hr
    have hmem : r.hostInfo ∈ rows.map fun r => r.hostInfo :=
      (retry_reachable hclass hnew hw).hosts ▸ List.mem_map_of_mem (f := fun r => r.hostInfo) hr
    obtain ⟨r₀, hr₀, heq⟩ := List.mem_map.mp hmem
    exact heq ▸ hreturns r₀ hr₀
  refine ⟨?_, ?_, ?_, ?_, ?_, ?_⟩
  · intro w hw i resume r _ hr maxIdle clock pool taken _ connected o ho
    exact Session.returns_acquireRemoteClient.mpr fun _ => hhost hw (List.mem_of_getElem? hr) o ho
  · intro w hw ret
    have hretry := retry_reachable hclass hnew hw
    obtain ⟨a, ha, hsome⟩ := hretry.goesOn c ret
    refine ⟨a, ha, ?_, hsome⟩
    rintro client rfl
    obtain ⟨w', hst⟩ := Option.isSome_iff_exists.mp hsome
    obtain ⟨t, ht, -⟩ := Option.map_eq_some_iff.mp hst
    obtain ⟨i, resume, hpc⟩ := acquiring_of_acquired (thread_cases c rfl ht)
    obtain ⟨r, hr⟩ := hretry.exists_row (show w.base.pc.working = some i by rw [hpc]; rfl)
    have hmem : r ∈ w.base.bgDownloadList := List.mem_of_getElem? hr
    have hclient : client = true := by simpa using ha
    refine ⟨i, resume, r, hpc, hr, ?_⟩
    rw [hclient]
    exact acquires_true hallowed (class_of_retry hclass hretry hmem) (hhost hw hmem)
  · exact fun w hw => (retry_reachable hclass hnew hw).steps_le
  · intro w hw hpasses
    have hretry := retry_reachable hclass hnew hw
    exact ⟨hretry.length_eq, hretry.all_finished hpasses⟩
  · exact fun w hw i hi => (retry_reachable hclass hnew hw).gets_le hi
  · exact fun w w' hw hl i r hr hf => finished_later hclass hnew hw hl hr hf

end Bounds

def Visits (c : Cipher) (allowed : Outcomes → Prop) (rows : List BgDownloadData) (s : State) : Prop :=
  ∃ w, RetryReachable c allowed rows w ∧ w.base = s

theorem Visits.next {s t : State} {a : ThreadAction} (h : Visits c allowed rows s)
    (hok : Attempting allowed s a) (st : stepThread c s s.pc a = some t) : Visits c allowed rows t := by
  obtain ⟨w, hw, rfl⟩ := h
  refine ⟨w.record a t, .next hw hok ?_, rfl⟩
  exact congrArg (Option.map (w.record a)) st

theorem Visits.go {s t : State} (h : Visits c allowed rows s) (st : stepThread c s s.pc .go = some t) :
    Visits c allowed rows t :=
  h.next (fun _ ha => by cases ha) st

/-- The thread alone with a list of rows. -/
def alone (rows : List BgDownloadData) (file : Option (List JsonObject)) (pc : Pc) : State :=
  { bgDownloadList := rows, file := file, inRestMode := false, stopDownload := false, pc := pc
    handlers := [] }

/-- As long as nothing raises, transfers that succeed take the first pass from row
to row. -/
theorem exists_scanning (hsome : ∃ o, allowed o)
    (hclass : ∀ r ∈ rows, newClient r.hostInfo ≠ none)
    (hnew : ∀ r ∈ rows, ∃ req now, DownloadRequest.downloadData req now = some r) (i : Nat)
    (hi : i ≤ rows.length)
    (hreturns : ∀ j r, j < i → rows[j]? = some r → Creates allowed r.hostInfo) :
    ∃ l file, Visits c allowed rows (alone l file (.scanning i)) ∧ ∀ j, i ≤ j → l[j]? = rows[j]? := by
  have hrow : ∀ r ∈ rows, r.state = .pending ∧ r.removeRequested = false := by
    intro r hr
    obtain ⟨req, now, hreq⟩ := hnew r hr
    obtain ⟨hs, -, hflag⟩ := pending_of_downloadData hreq
    exact ⟨hs, hflag⟩
  induction i with
  | zero =>
    have h₀ : Visits c allowed rows (alone rows none .checkStop) :=
      ⟨⟨alone rows none .checkStop, 0, fun _ => 0, 0⟩,
        .start ⟨rfl, rfl, rfl, rfl, rfl, fun _ => rfl, rfl⟩, rfl⟩
    have h₁ : Visits c allowed rows (alone rows none .pausing) := h₀.go rfl
    have h₂ : Visits c allowed rows (alone rows none .sweeping) := h₁.go rfl
    have hsame : rows.filter (fun r => !r.removeRequested) = rows :=
      List.filter_eq_self.mpr fun r hr => by simp [(hrow r hr).2]
    have h₃ : Visits c allowed rows (alone rows none (.scanning 0)) := by
      refine h₂.go ?_
      unfold stepThread alone
      dsimp only
      rw [hsame, if_neg (Nat.lt_irrefl _)]
    exact ⟨rows, none, h₃, fun _ _ => rfl⟩
  | succ i ih =>
    obtain ⟨l, file, h₀, hl⟩ :=
      ih (Nat.le_of_succ_le hi) fun j r hj => hreturns j r (Nat.lt_succ_of_lt hj)
    have hr : rows[i]? = some rows[i] := List.getElem?_eq_getElem hi
    have hmem : rows[i] ∈ rows := List.getElem_mem hi
    have hli : l[i]? = some rows[i] := (hl i (Nat.le_refl i)).trans hr
    -- row `i` is acquired, marked, saved, transferred, counted and saved again
    have h₁ : Visits c allowed rows (alone l file (.acquiring i false)) := by
      refine h₀.go ?_
      unfold stepThread alone
      dsimp only
      rw [hli]
      simp [scanRow, (hrow _ hmem).1]
    have h₂ : Visits c allowed rows (alone l file (.starting i false)) := by
      refine h₁.next (a := .acquired true) ?_ rfl
      rintro client ha
      cases ha
      exact ⟨i, false, rows[i], rfl, hli,
        acquires_true hsome (hclass _ hmem) (hreturns i _ (Nat.lt_succ_self i) hr)⟩
    have h₃ := h₂.go rfl
    have h₄ := h₃.next (a := .save 0) (fun _ ha => by cases ha) rfl
    have h₅ := h₄.next (a := .returned 1) (fun _ ha => by cases ha) rfl
    have h₆ := h₅.go rfl
    have h₇ := h₆.next (a := .save 0) (fun _ ha => by cases ha) rfl
    refine ⟨_, _, h₇, ?_⟩
    intro j hj
    have hne : i ≠ j := Nat.ne_of_lt hj
    show ((l.modify i _).modify i _)[j]? = rows[j]?
    rw [modify_ne _ hne, modify_ne _ hne]
    exact hl j (Nat.le_of_succ_le hj)

theorem creates_of_retriesBounded (hsome : ∃ o, allowed o)
    (hclass : ∀ r ∈ rows, newClient r.hostInfo ≠ none)
    (hnew : ∀ r ∈ rows, ∃ req now, DownloadRequest.downloadData req now = some r)
    (h : RetriesBounded c allowed rows) (i : Nat) :
    ∀ r, rows[i]? = some r → Creates allowed r.hostInfo := by
  induction i using Nat.strong_induction_on with
  | _ i ih =>
    intro r hr o ho
    have hi : i < rows.length := (List.getElem?_eq_some_iff.mp hr).1
    obtain ⟨l, file, hvisit, hl⟩ :=
      exists_scanning (c := c) hsome hclass hnew i (Nat.le_of_lt hi) fun j r' hj => ih j hj r'
    have hli : l[i]? = some r := (hl i (Nat.le_refl i)).trans hr
    obtain ⟨req, now, hreq⟩ := hnew r (List.mem_of_getElem? hr)
    have hpending : r.state = .pending := (pending_of_downloadData hreq).1
    have hacquiring : Visits c allowed rows (alone l file (.acquiring i false)) := by
      refine hvisit.go ?_
      unfold stepThread alone
      dsimp only
      rw [hli]
      simp [scanRow, hpending]
    obtain ⟨w, hw, hbase⟩ := hacquiring
    have hreturns := h.returns w hw i false r (by rw [hbase]; rfl) (by rw [hbase]; exact hli)
      (fun _ => 0) [] .empty _ (acquireSection_empty r.hostInfo) (fun _ => false) o ho
    exact Session.returns_acquireRemoteClient.mp hreturns rfl

/-- The retries of a list of rows are bounded where `CreatePooledClient` returns for all
of their hosts. -/
theorem retriesBounded_iff_creates (hsome : ∃ o, allowed o)
    (hclass : ∀ r ∈ rows, newClient r.hostInfo ≠ none)
    (hnew : ∀ r ∈ rows, ∃ req now, DownloadRequest.downloadData req now = some r) :
    RetriesBounded c allowed rows ↔ ∀ r ∈ rows, Creates allowed r.hostInfo := by
  constructor
  · intro h r hr
    obtain ⟨i, hi⟩ := List.mem_iff_getElem?.mp hr
    exact creates_of_retriesBounded hsome hclass hnew h i r hi
  · exact retriesBounded_of hclass hnew hsome

/-- Six passes for each row of a list finish them all, with six calls of `Get` for each
at most, and this is so exactly where the url, the user and the password of every row
are accepted, as long as the servers keep to their protocols.  Where the login of
archive.org may be redirected to a port that no `int` holds, or FTP and SSH servers
send anything, no row may lead there. -/
theorem retries_bounded_iff (c : Cipher) {rows : List BgDownloadData}
    (hclass : ∀ r ∈ rows, newClient r.hostInfo ≠ none)
    (hnew : ∀ r ∈ rows, ∃ req now, DownloadRequest.downloadData req now = some r) :
    (RetriesBounded c Outcomes.Tame rows ↔ ∀ r ∈ rows, ConnectAccepted r.hostInfo) ∧
    (RetriesBounded c Outcomes.Orderly rows ↔
      ∀ r ∈ rows, ConnectAccepted r.hostInfo ∧ LoginFree r.hostInfo) ∧
    (RetriesBounded c (fun _ => True) rows ↔
      ∀ r ∈ rows, ConnectAccepted r.hostInfo ∧ LoginFree r.hostInfo ∧ ServerFree r.hostInfo) := by
  have htame : ∃ o : Outcomes, o.Tame := ⟨_, Session.silentServers_tame⟩
  have horderly : ∃ o : Outcomes, o.Orderly := ⟨_, Session.silentServers_tame.toOrderly⟩
  have hany : ∃ _ : Outcomes, True := ⟨Session.silentServers, trivial⟩
  rw [retriesBounded_iff_creates htame hclass hnew, retriesBounded_iff_creates horderly hclass hnew,
    retriesBounded_iff_creates hany hclass hnew]
  exact ⟨forall₂_congr fun _ _ => creates_tame_iff, forall₂_congr fun _ _ => creates_orderly_iff,
    forall₂_congr fun _ _ => creates_any_iff⟩

/-- Two downloads, from an NFS and from an FTP host. -/
def twoRows : List BgDownloadData :=
  [(requestFor .nfs (bytes "nfs://h/x")).row 1000, (requestFor .ftp (bytes "ftp://h")).row 1001]

theorem retries_bounded_iff_two :
    (∀ r ∈ twoRows, ConnectAccepted r.hostInfo ∧ LoginFree r.hostInfo) ∧
      RetriesBounded plainCipher Outcomes.Orderly twoRows := by
  have hrows : ∀ r ∈ twoRows, ConnectAccepted r.hostInfo ∧ LoginFree r.hostInfo := by
    intro r hr
    rcases List.mem_pair.mp hr with rfl | rfl
    · exact ⟨by decide, fun _ => rfl⟩
    · exact ⟨by decide, fun _ => rfl⟩
  refine ⟨hrows, (retries_bounded_iff plainCipher ?_ ?_).2.1.mpr hrows⟩
  · intro r hr
    rcases List.mem_pair.mp hr with rfl | rfl <;> decide
  · intro r hr
    rcases List.mem_pair.mp hr with rfl | rfl
    · exact ⟨_, _, DownloadBody.downloadData_request (by decide) 1000⟩
    · exact ⟨_, _, DownloadBody.downloadData_request (by decide) 1001⟩

/-- A list with a download from the url `x`, which `Connect` of an FTP host raises
for. -/
def raisingRows : List BgDownloadData :=
  [(requestFor .nfs (bytes "nfs://h/x")).row 1000, (requestFor .ftp (bytes "x")).row 1001]

theorem retries_bounded_iff_raises :
    ((∀ r ∈ raisingRows, newClient r.hostInfo ≠ none) ∧
      ∀ r ∈ raisingRows, ∃ req now, DownloadRequest.downloadData req now = some r) ∧
    ¬ RetriesBounded plainCipher Outcomes.Tame raisingRows := by
  have hclass : ∀ r ∈ raisingRows, newClient r.hostInfo ≠ none := by
    intro r hr
    rcases List.mem_pair.mp hr with rfl | rfl <;> decide
  have hnew : ∀ r ∈ raisingRows, ∃ req now, DownloadRequest.downloadData req now = some r := by
    intro r hr
    rcases List.mem_pair.mp hr with rfl | rfl
    · exact ⟨_, _, DownloadBody.downloadData_request (by decide) 1000⟩
    · exact ⟨_, _, DownloadBody.downloadData_request (by decide) 1001⟩
  refine ⟨⟨hclass, hnew⟩, ?_⟩
  intro h
  have htame : ∃ o : Outcomes, o.Tame := ⟨_, Session.silentServers_tame⟩
  have hcreates := (retriesBounded_iff_creates htame hclass hnew).mp h
    ((requestFor .ftp (bytes "x")).row 1001) (by simp [raisingRows])
  exact absurd (creates_tame_iff.mp hcreates) (by decide)

end EzRemote.History

import EzRemote.Lib.Durable
import EzRemote.Download.FileRows
import EzRemote.History.Server

/-!
# The download list and its file

The download list is a store whose file follows its memory: a row leaves both
only when it was cleared and swept or when it is old.
-/

namespace EzRemote.History

open Download

variable {c : Cipher}

/-- The request of a row, as the history file has it. -/
def requestOf (c : Cipher) (r : BgDownloadData) : BgDownloadData := (reloaded c r).asAdded

theorem requestOf_congr (c : Cipher) (r r' : BgDownloadData) (h : r.asAdded = r'.asAdded) :
    requestOf c r = requestOf c r' := by
  have hr : ∀ r : BgDownloadData, requestOf c r = requestOf c r.asAdded := fun _ => rfl
  rw [hr r, hr r', h]

theorem requestOf_reloaded {aes : Aes} {outside : Nat → UInt8} (ha : aes.Lawful)
    (ho : ∀ k, outside k ≠ Base64.padding) (r : BgDownloadData) :
    requestOf (aes.cipher outside) (reloaded (aes.cipher outside) r) =
      requestOf (aes.cipher outside) r := by
  have hhost := reloadedHost_reloadedHost ha ho r.hostInfo
  unfold requestOf BgDownloadData.asAdded
  rw [reloaded_hostInfo, reloaded_hostInfo, hhost]
  unfold reloaded
  dsimp only
  rw [cStr_cStr, cStr_cStr]

/-- Requests, rows and clock fit together, in memory and in the file. -/
structure DownloadsSound (c : Cipher) (clock : UInt64) (t : Tracked) : Prop where
  reachable : Reachable c Transition.anyStep t.base
  numbered : Numbered t
  requested : Requested (requestOf c) t
  fileRequested : ∀ n r, (n, r) ∈ t.fileSerials.zip (loadedRows c t.base) →
    (t.requests[n]?).map (requestOf c) = some r.asAdded
  past : ∀ q ∈ t.requests, q.timestamp.toNat ≤ clock.toNat
  adding : ∀ (k : Nat) row, t.base.handlers[k]? = some (.adding row) →
    row.timestamp.toNat ≤ clock.toNat

theorem fileRequested_iff {t : Tracked} :
    FileRelated c (fun q r => requestOf c q = r.asAdded) t ↔
      ∀ n r, (n, r) ∈ t.fileSerials.zip (loadedRows c t.base) →
        (t.requests[n]?).map (requestOf c) = some r.asAdded := by
  simp only [FileRelated, Tracked.fileRows, Option.map_eq_some_iff]

theorem DownloadsSound.fileRelated {clock : UInt64} {t : Tracked} (h : DownloadsSound c clock t) :
    FileRelated c (fun q r => requestOf c q = r.asAdded) t :=
  fileRequested_iff.mpr h.fileRequested

theorem adding_past {clock clock' : UInt64} {t t' : Tracked} {a : Action}
    (h : DownloadsSound c clock t) (hle : clock.toNat ≤ clock'.toNat)
    (hnow : ∀ now, clockOf (.run a) = some now → now = clock') (st : TrackedStep c t a t') :
    ∀ (k : Nat) row, t'.base.handlers[k]? = some (.adding row) →
      row.timestamp.toNat ≤ clock'.toNat := by
  have hold : ∀ (k : Nat) row, t.base.handlers[k]? = some (.adding row) →
      row.timestamp.toNat ≤ clock'.toNat :=
    fun k row hk => Nat.le_trans (h.adding k row hk) hle
  cases st with
  | quiet s hlist hfile hadding =>
    intro k row hk
    rcases hadding k row hk with hk | ⟨req, now, rfl, hrow⟩
    · exact hold k row hk
    · unfold DownloadRequest.downloadData at hrow
      split at hrow
      · cases hrow
      · cases hrow
        exact Nat.le_of_eq (congrArg UInt64.toNat (hnow now rfl))
  | edit | sweep | threadSave => exact hold
  | handlerSave k now hk =>
    intro j row hj
    exact hold j row ((handlers_setHandler hj).resolve_right fun hr => by cases hr.2)
  | add k row hk =>
    intro j row' hj
    exact hold j row' ((handlers_setHandler hj).resolve_right fun hr => by cases hr.2)
  | flag k i r hr hf =>
    intro j row' hj
    exact hold j row' ((handlers_setHandler hj).resolve_right fun hr => by cases hr.2)
  | restart s hs =>
    intro k row hk
    change s.handlers[k]? = _ at hk
    rw [(boot_eq hs).2.2.1] at hk
    cases List.eq_of_mem_replicate (List.mem_of_getElem? hk)

theorem downloadsSound_run {clock clock' : UInt64} {t t' : Tracked} {a : Action}
    (h : DownloadsSound c clock t) (hle : clock.toNat ≤ clock'.toNat)
    (hnow : ∀ now, clockOf (.run a) = some now → now = clock') (hone : a ≠ .restart)
    (hs : trackedStep c t (.run a) = some t') : DownloadsSound c clock' t' := by
  have st := tracked_cases hs
  have hadding := adding_past h hle hnow st
  have hpast : ∀ q ∈ t.requests, q.timestamp.toNat ≤ clock'.toNat :=
    fun q hq => Nat.le_trans (h.past q hq) hle
  have hreach : Reachable c Transition.anyStep t'.base := by
    obtain ⟨base, hb, rfl⟩ := Option.map_eq_some_iff.mp hs
    exact .next h.reachable trivial hb
  have hnum := numbered_step h.numbered hs
  have hreq := requested_step (requestOf_congr c) h.requested h.numbered.aligned hone st
  refine ⟨hreach, hnum, hreq, fileRequested_iff.mp ?_, ?_, hadding⟩
  · exact fileRelated_step (fun _ _ heq => heq) (requested_iff.mp h.requested) h.fileRelated
      h.numbered.aligned hone st
  · cases st with
    | add k row hk =>
      intro q hq
      rcases List.mem_append.mp hq with hq | hq
      · exact hpast q hq
      · exact List.mem_singleton.mp hq ▸ Nat.le_trans (h.adding k row hk) hle
    | flag k i r hr hf =>
      obtain ⟨n, -, heq⟩ := h.numbered.aligned.flag_eq hr hf
      rw [heq]
      exact hpast
    | _ => exact hpast

/-- The download list by the numbers of its rows: those in memory and in the
file, and those that were swept or are old. -/
def downloadsDurable (clock : UInt64) (t : Tracked) : Durable Nat where
  memory := {n | n ∈ t.serials}
  file := {n | n ∈ t.fileSerials}
  released := {n | ∃ q, t.requests[n]? = some q ∧
    (n ∈ t.erased.map Prod.fst ∨ Old clock q.timestamp)}
  returned := {n | n ∈ t.returned}
  pending := t.adders

theorem downloads_released {clock clock' : UInt64} {t t' : Tracked}
    (hle : clock.toNat ≤ clock'.toNat) (he : ∀ p ∈ t.erased, p ∈ t'.erased)
    (hreq : ∀ (n : Nat) q, t.requests[n]? = some q → t'.requests[n]? = some q) :
    (downloadsDurable clock t).released ⊆ (downloadsDurable clock' t').released := by
  rintro n ⟨q, hq, hn | hold⟩
  · obtain ⟨p, hp, rfl⟩ := List.mem_map.mp hn
    exact ⟨q, hreq _ q hq, .inl (List.mem_map_of_mem (he p hp))⟩
  · exact ⟨q, hreq n q hq, .inr (hold.mono hle)⟩

theorem downloads_keep {clock clock' : UInt64} {t t' : Tracked}
    (hle : clock.toNat ≤ clock'.toNat) (hserials : t'.serials = t.serials)
    (hfile : t'.fileSerials = t.fileSerials) (herased : t'.erased = t.erased)
    (hrequests : t'.requests = t.requests) (hreturned : t'.returned = t.returned)
    (hadders : t'.adders = t.adders) :
    Durable.Step (downloadsDurable clock t) (downloadsDurable clock' t') := by
  refine .keep ?_ ?_ (downloads_released hle ?_ ?_) ?_ hadders
  · intro n hn
    exact .inl (show n ∈ t'.serials from hserials ▸ hn)
  · intro n hn
    exact .inl (show n ∈ t'.fileSerials from hfile ▸ hn)
  · intro p hp
    exact herased ▸ hp
  · intro n q hq
    exact hrequests ▸ hq
  · show {n | n ∈ t'.returned} = {n | n ∈ t.returned}
    rw [hreturned]

/-- A save writes the rows of the memory, or they are old. -/
theorem downloads_saved {clock clock' : UInt64} {t t' : Tracked} {now : UInt64}
    (h : DownloadsSound c clock t) (hle : clock.toNat ≤ clock'.toNat) (hnow : now = clock')
    (hfile : t'.fileSerials = (t.save now).fileSerials) (hreq : t'.requests = t.requests) :
    (downloadsDurable clock' t').Covers (downloadsDurable clock t).memory
      (downloadsDurable clock' t').file := by
  intro n hn
  have hrow : n ∈ t.rows.map Prod.fst := h.numbered.aligned.map_fst_rows ▸ hn
  obtain ⟨⟨m, r⟩, hr, rfl⟩ := List.mem_map.mp hrow
  by_cases hkept : retained now r = true
  · refine .inl ?_
    show m ∈ t'.fileSerials
    rw [hfile]
    exact List.mem_map_of_mem (f := Prod.fst) (List.mem_filter.mpr ⟨hr, hkept⟩)
  · obtain ⟨q, hq, heq⟩ := Option.map_eq_some_iff.mp (h.requested m r hr)
    have htime : q.timestamp = r.timestamp := by
      have hdata : (requestOf c q).timestamp = (requestOf c r).timestamp := by rw [heq]
      exact hdata
    have hpast : r.timestamp.toNat ≤ now.toNat := by
      rw [← htime, hnow]
      exact Nat.le_trans (h.past q (List.mem_of_getElem? hq)) hle
    refine .inr ⟨q, hreq ▸ hq, .inr ?_⟩
    rw [htime, ← hnow]
    exact old_of_dropped hpast (of_decide_eq_false (Bool.eq_false_iff.mpr hkept))

theorem downloads_step {clock clock' : UInt64} {t t' : Tracked} {a : Action}
    (h : DownloadsSound c clock t) (hle : clock.toNat ≤ clock'.toNat)
    (hnow : ∀ now, clockOf (.run a) = some now → now = clock') (st : TrackedStep c t a t') :
    Durable.Step (downloadsDurable clock t) (downloadsDurable clock' t') := by
  cases st with
  | quiet | edit => exact downloads_keep hle rfl rfl rfl rfl rfl rfl
  | sweep pc' =>
    refine .keep ?_ (fun _ hn => .inl hn)
      (downloads_released hle (fun p hp => List.mem_append_right _ hp) fun _ _ hq => hq) rfl rfl
    intro n hn
    have hrow : n ∈ t.rows.map Prod.fst := h.numbered.aligned.map_fst_rows ▸ hn
    obtain ⟨⟨m, r⟩, hr, rfl⟩ := List.mem_map.mp hrow
    -- a row that the sweep does not keep is among those it erases
    cases hreq : r.removeRequested with
    | false =>
      exact .inl (List.mem_map_of_mem (f := Prod.fst) (List.mem_filter.mpr ⟨hr, by simp [hreq]⟩))
    | true =>
      have hlt : m < t.requests.length := h.numbered.bounded m hn
      refine .inr ⟨t.requests[m], List.getElem?_eq_getElem hlt, .inl ?_⟩
      exact List.mem_map_of_mem (f := Prod.fst)
        (List.mem_append_left _ (List.mem_filter.mpr ⟨hr, hreq⟩))
  | threadSave now pc' =>
    exact .save (fun _ hn => .inl hn) (downloads_saved h hle (hnow now rfl) rfl rfl)
      (downloads_released hle (fun _ hp => hp) fun _ _ hq => hq) rfl rfl
  | handlerSave k now hk =>
    refine .saveReturn k (fun _ hn => .inl hn) (downloads_saved h hle (hnow now rfl) rfl rfl)
      (downloads_released hle (fun _ hp => hp) fun _ _ hq => hq) ?_ rfl
    ext n
    show n ∈ (t.adders k).toList ++ t.returned ↔ t.adders k = some n ∨ n ∈ t.returned
    rw [List.mem_append, Option.mem_toList]
  | add k row hk =>
    refine .add k t.requests.length ?_ (fun _ hn => .inl hn)
      (downloads_released hle (fun _ hp => hp) ?_) rfl rfl
    · intro n hn
      rcases hn with rfl | hn
      · exact .inl (List.mem_append_right _ (List.mem_singleton_self _))
      · exact .inl (List.mem_append_left _ hn)
    · intro n q hq
      show (t.requests ++ [row])[n]? = some q
      rw [List.getElem?_append_left (List.getElem?_eq_some_iff.mp hq).1, hq]
  | flag k i r hr hf =>
    obtain ⟨n, -, heq⟩ := h.numbered.aligned.flag_eq hr hf
    rw [heq]
    exact downloads_keep hle rfl rfl rfl rfl rfl rfl
  | restart s hs =>
    exact .restart (fun _ hn => .inl hn) (fun _ hn => .inl hn)
      (downloads_released hle (fun _ hp => hp) fun _ _ hq => hq) rfl rfl

theorem downloadsSound_reader {clock clock' : UInt64} {t t' : Tracked}
    (h : DownloadsSound c clock t) (hle : clock.toNat ≤ clock'.toNat) (hn : Numbered t')
    (hbase : t'.base = t.base) (hserials : t'.serials = t.serials)
    (hfile : t'.fileSerials = t.fileSerials) (hrequests : t'.requests = t.requests) :
    DownloadsSound c clock' t' := by
  refine ⟨hbase ▸ h.reachable, hn, ?_, ?_, ?_, ?_⟩
  · intro n r hr
    rw [hrequests]
    apply h.requested n r
    unfold Tracked.rows at hr ⊢
    rwa [hserials, hbase] at hr
  · exact fileRequested_iff.mp
      (fileRelated_of_file h.fileRelated (by rw [hbase]) hfile fun n q hq => hrequests ▸ hq)
  · rw [hrequests]
    exact fun q hq => Nat.le_trans (h.past q hq) hle
  · rw [hbase]
    exact fun k row hk => Nat.le_trans (h.adding k row hk) hle

/-- The request of a row that was loaded is loaded again as it is. -/
def ReloadsRequests (c : Cipher) : Prop :=
  ∀ r, requestOf c (reloaded c r) = requestOf c r

/-- The next process starts with the rows of the file and the requests they
have there. -/
theorem downloadsSound_restart (hc : ReloadsRequests c) {clock : UInt64} {t t' : Tracked}
    (h : DownloadsSound c clock t) (hs : trackedStep c t (.run .restart) = some t') :
    DownloadsSound c clock t' := by
  have hnum := numbered_step h.numbered hs
  have hadding := adding_past h (Nat.le_refl _) (fun _ hn => by cases hn) (tracked_cases hs)
  obtain ⟨base, hb, rfl⟩ := Option.map_eq_some_iff.mp hs
  obtain ⟨-, hfile, -, hlist⟩ := boot_eq hb
  have hloaded : loadedRows c base = loadedRows c t.base := by
    unfold loadedRows
    rw [hfile]
  refine ⟨.next (a := .restart) h.reachable trivial hb, hnum, ?_,
    fileRequested_iff.mp (fileRelated_of_file h.fileRelated hfile rfl fun _ _ hq => hq), h.past,
    hadding⟩
  intro n r hr
  have hin : (n, r) ∈ t.fileSerials.zip (loadedRows c t.base) := by
    rw [← hloaded, ← hlist]
    exact hr
  -- a row of the file is one that a load made
  have hkey : requestOf c r = r.asAdded := by
    obtain ⟨r₀, rfl⟩ : ∃ r₀, r = reloaded c r₀ := by
      have hr' := (List.of_mem_zip hin).2
      unfold loadedRows at hr'
      rcases file_saved h.reachable with hf | ⟨now, rows, hf⟩
      · rw [hf] at hr'
        cases hr'
      · rw [hf, Option.map_some, load_save] at hr'
        obtain ⟨r₀, -, rfl⟩ := List.mem_map.mp hr'
        exact ⟨r₀, rfl⟩
    exact hc r₀
  rw [hkey]
  exact h.fileRequested n r hin

end EzRemote.History

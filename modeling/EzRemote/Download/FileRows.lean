import EzRemote.Download.Rows

/-!
# The rows of the history file

The numbers of the file stand beside the rows that a load makes of it, and a
relation between requests and rows that a save and a load keep holds there as it
does in memory.
-/

namespace EzRemote.Download

variable {c : Cipher} {P P' : BgDownloadData → BgDownloadData → Prop}

/-- The rows of the file with their numbers. -/
def Tracked.fileRows (c : Cipher) (t : Tracked) : List (Nat × BgDownloadData) :=
  t.fileSerials.zip (loadedRows c t.base)

/-- Every row of the file stands to the one that its request added as `P` says. -/
def FileRelated (c : Cipher) (P : BgDownloadData → BgDownloadData → Prop) (t : Tracked) : Prop :=
  ∀ n r, (n, r) ∈ t.fileRows c → ∃ q, t.requests[n]? = some q ∧ P q r

theorem zip_loadedRows_save {t : Tracked} (h : Aligned t) (now : UInt64) {base : State}
    (hf : base.file = some (saveBgDownloadData c now t.base.bgDownloadList)) :
    (t.save now).fileSerials.zip (loadedRows c base) =
      (t.rows.filter fun p => retained now p.2).map fun p => (p.1, reloaded c p.2) := by
  rw [loadedRows_save hf, List.zip_map_right]
  show (((t.rows.filter fun p => retained now p.2).map Prod.fst).zip
    (t.base.bgDownloadList.filter (retained now))).map _ = _
  unfold Tracked.rows
  rw [zip_filter h.rows (retained now)]
  rfl

theorem fileRelated_save {t t' : Tracked} (hP : ∀ q r, P q r → P' q (reloaded c r))
    (h : Related P t) (ha : Aligned t) {now : UInt64}
    (hf : t'.base.file = some (saveBgDownloadData c now t.base.bgDownloadList))
    (hn : t'.fileSerials = (t.save now).fileSerials) (hreq : t'.requests = t.requests) :
    FileRelated c P' t' := by
  intro n r hr
  unfold Tracked.fileRows at hr
  rw [hn, zip_loadedRows_save ha now hf] at hr
  obtain ⟨⟨m, r₀⟩, hp, heq⟩ := List.mem_map.mp hr
  cases heq
  obtain ⟨q, hq, hqr⟩ := h m r₀ (List.mem_of_mem_filter hp)
  exact ⟨q, hreq ▸ hq, hP q r₀ hqr⟩

theorem fileRelated_of_file {t t' : Tracked} (h : FileRelated c P t)
    (hf : t'.base.file = t.base.file) (hn : t'.fileSerials = t.fileSerials)
    (hreq : ∀ (n : Nat) q, t.requests[n]? = some q → t'.requests[n]? = some q) :
    FileRelated c P t' := by
  intro n r hr
  have hfile : t'.fileRows c = t.fileRows c := by
    unfold Tracked.fileRows loadedRows
    rw [hf, hn]
  rw [hfile] at hr
  obtain ⟨q, hq, hqr⟩ := h n r hr
  exact ⟨q, hreq n q hq, hqr⟩

/-- One step of a process: the file keeps its rows or takes over those of the
memory. -/
theorem fileRelated_step (hP : ∀ q r, P q r → P' q (reloaded c r)) {t t' : Tracked} {a : Action}
    (hrows : Related P t) (h : FileRelated c P' t) (ha : Aligned t) (hone : a ≠ .restart)
    (st : TrackedStep c t a t') : FileRelated c P' t' := by
  cases st with
  | quiet s hlist hfile hadding => exact fileRelated_of_file h hfile rfl fun _ _ hq => hq
  | edit | sweep => exact fileRelated_of_file h rfl rfl fun _ _ hq => hq
  | threadSave now pc' => exact fileRelated_save hP hrows ha rfl rfl rfl
  | handlerSave k now hk => exact fileRelated_save hP hrows ha rfl rfl rfl
  | add k row hk =>
    refine fileRelated_of_file h rfl rfl ?_
    intro n q hq
    show (t.requests ++ [row])[n]? = some q
    rw [List.getElem?_append_left (List.getElem?_eq_some_iff.mp hq).1, hq]
  | flag k i r hr hf =>
    rcases flag_cases t i with heq | ⟨p, heq⟩
    · rw [heq]
      exact fileRelated_of_file h rfl rfl fun _ _ hq => hq
    · rw [heq]
      exact fileRelated_of_file h rfl rfl fun _ _ hq => hq
  | restart s hs => exact absurd rfl hone

theorem related_restart {t t' : Tracked} (h : FileRelated c P t)
    (hs : trackedStep c t (.run .restart) = some t') : Related P t' ∧ FileRelated c P t' := by
  obtain ⟨base, hb, rfl⟩ := Option.map_eq_some_iff.mp hs
  obtain ⟨-, hfile, -, hlist⟩ := boot_eq hb
  refine ⟨?_, fileRelated_of_file h hfile rfl fun _ _ hq => hq⟩
  intro n r hr
  apply h n r
  change (n, r) ∈ t.fileSerials.zip base.bgDownloadList at hr
  rwa [hlist, show loadedRows c base = loadedRows c t.base by unfold loadedRows; rw [hfile]] at hr

end EzRemote.Download

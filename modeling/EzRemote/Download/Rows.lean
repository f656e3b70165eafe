import EzRemote.Download.Tracked

/-!
# The rows after a step

How each step changes the numbered rows, and what all steps keep: as many
numbers as rows, the rows of their requests, and numbers in increasing order.
-/

namespace EzRemote.Download

variable {c : Cipher}

theorem zip_modify {α β : Type} (ns : List α) (l : List β) (i : Nat) (f : β → β) :
    ns.zip (l.modify i f) = (ns.zip l).modify i fun p => (p.1, f p.2) := by
  induction ns generalizing l i with
  | nil => cases i <;> rfl
  | cons n ns ih =>
    cases l with
    | nil => cases i <;> rfl
    | cons x l =>
      cases i with
      | zero => rfl
      | succ i =>
        rw [List.modify_succ_cons, List.zip_cons_cons, List.zip_cons_cons, List.modify_succ_cons, ih]

theorem map_snd_filter_zip {α β : Type} {ns : List α} {l : List β} (h : ns.length = l.length)
    (q : β → Bool) : ((ns.zip l).filter fun p => q p.2).map Prod.snd = l.filter q := by
  conv_rhs => rw [← List.map_snd_zip (Nat.le_of_eq h.symm), List.filter_map]
  rfl

theorem zip_filter {α β : Type} {ns : List α} {l : List β} (h : ns.length = l.length)
    (q : β → Bool) :
    (((ns.zip l).filter fun p => q p.2).map Prod.fst).zip (l.filter q) =
      (ns.zip l).filter fun p => q p.2 :=
  (List.zip_of_prod rfl (map_snd_filter_zip h q)).symm

theorem exists_mem_zip {α β : Type} {ns : List α} {l : List β} (h : ns.length = l.length) {n : α}
    (hn : n ∈ ns) : ∃ x, (n, x) ∈ ns.zip l := by
  obtain ⟨i, hi⟩ := List.mem_iff_getElem?.mp hn
  have hlt : i < l.length := h ▸ (List.getElem?_eq_some_iff.mp hi).1
  exact ⟨l[i], List.mem_of_getElem?
    (List.getElem?_zip_eq_some.mpr ⟨hi, List.getElem?_eq_getElem hlt⟩)⟩

theorem mem_modify {α : Type} {l : List α} {i : Nat} {f : α → α} {x : α} (h : x ∈ l.modify i f) :
    (∃ j, j ≠ i ∧ l[j]? = some x) ∨ ∃ y, l[i]? = some y ∧ x = f y := by
  obtain ⟨j, hj⟩ := List.mem_iff_getElem?.mp h
  rw [List.getElem?_modify] at hj
  obtain ⟨y, hy, rfl⟩ := Option.map_eq_some_iff.mp hj
  by_cases hij : i = j
  · rw [if_pos hij]
    exact .inr ⟨y, hij ▸ hy, rfl⟩
  · rw [if_neg hij]
    exact .inl ⟨j, fun hji => hij hji.symm, hy⟩

/-- As many numbers as rows, in memory and in the file. -/
structure Aligned (t : Tracked) : Prop where
  rows : t.serials.length = t.base.bgDownloadList.length
  file : t.fileSerials.length = (t.base.file.getD []).length

namespace Aligned

variable {t : Tracked}

theorem map_fst_rows (h : Aligned t) : t.rows.map Prod.fst = t.serials :=
  List.map_fst_zip (Nat.le_of_eq h.rows)

theorem map_snd_rows (h : Aligned t) : t.rows.map Prod.snd = t.base.bgDownloadList :=
  List.map_snd_zip (Nat.le_of_eq h.rows.symm)

theorem length_filter (h : Aligned t) (q : BgDownloadData → Bool) :
    ((t.rows.filter fun p => q p.2).map Prod.fst).length =
      (t.base.bgDownloadList.filter q).length := by
  rw [List.length_map, ← map_snd_filter_zip h.rows q, List.length_map]
  rfl

theorem rows_sweep (h : Aligned t) (pc' : Pc) :
    Tracked.rows { t.sweep with
      base := { t.base with
        bgDownloadList := t.base.bgDownloadList.filter fun r => !r.removeRequested
        pc := pc' } } = t.rows.filter fun p => !p.2.removeRequested :=
  zip_filter h.rows fun r => !r.removeRequested

theorem rows_add (h : Aligned t) (k : Nat) (row : BgDownloadData) :
    Tracked.rows { t.add k row with
      base := { t.base with
        bgDownloadList := t.base.bgDownloadList ++ [row] }.setHandler k .saving } =
      t.rows ++ [(t.requests.length, row)] :=
  List.zip_append h.rows

end Aligned

theorem rows_edit (t : Tracked) (i : Nat) (f : BgDownloadData → BgDownloadData) (pc' : Pc) :
    Tracked.rows { t with base := { t.base.setRow i f with pc := pc' } } =
      t.rows.modify i fun p => (p.1, f p.2) :=
  zip_modify _ _ _ _

theorem rows_flag (t : Tracked) (k i : Nat) :
    Tracked.rows { t.flag i with
      base := (t.base.setRow i fun r => { r with removeRequested := true }).setHandler k
        (.clearing (i + 1)) } =
      t.rows.modify i fun p => (p.1, { p.2 with removeRequested := true }) := by
  have hserials : (t.flag i).serials = t.serials := by
    unfold Tracked.flag
    split
    · split <;> rfl
    · rfl
  show (t.flag i).serials.zip (t.base.bgDownloadList.modify i _) = _
  rw [hserials]
  exact zip_modify _ _ _ _

theorem length_load {file : List JsonObject} {rows : List BgDownloadData}
    (h : loadBgDownloadData c file = some rows) : rows.length = file.length := by
  induction file generalizing rows with
  | nil =>
    cases h
    rfl
  | cons o file ih =>
    unfold loadBgDownloadData at h ih
    rw [List.mapM_cons] at h
    obtain ⟨r, -, h⟩ := Option.bind_eq_some_iff.mp h
    obtain ⟨rest, hrest, h⟩ := Option.bind_eq_some_iff.mp h
    cases h
    rw [List.length_cons, List.length_cons, ih hrest]

theorem length_boot {file : Option (List JsonObject)} {n : Nat} {s : State}
    (h : boot c file n = some s) : s.bgDownloadList.length = (file.getD []).length := by
  unfold boot at h
  obtain ⟨rows, hrows, rfl⟩ := Option.map_eq_some_iff.mp h
  cases file with
  | none =>
    cases hrows
    rfl
  | some objects => exact length_load hrows

theorem aligned_step {t t' : Tracked} {a : TrackedAction} (h : Aligned t)
    (st : trackedStep c t a = some t') : Aligned t' := by
  cases a with
  | run a =>
    cases tracked_cases st with
    | quiet s hlist hfile hadding => exact ⟨hlist ▸ h.rows, hfile ▸ h.file⟩
    | edit e => exact ⟨h.rows.trans (List.length_modify _ _ _).symm, h.file⟩
    | sweep pc' => exact ⟨h.length_filter fun r => !r.removeRequested, h.file⟩
    | threadSave now pc' =>
      exact ⟨h.rows, (h.length_filter (retained now)).trans (List.length_map _).symm⟩
    | handlerSave k now hk =>
      exact ⟨h.rows, (h.length_filter (retained now)).trans (List.length_map _).symm⟩
    | add k row hk =>
      refine ⟨?_, h.file⟩
      show (t.serials ++ [t.requests.length]).length = (t.base.bgDownloadList ++ [row]).length
      rw [List.length_append, List.length_append, h.rows]
      rfl
    | flag k i r hr hf =>
      have hflag : (t.flag i).serials = t.serials ∧ (t.flag i).fileSerials = t.fileSerials := by
        unfold Tracked.flag
        split
        · split <;> exact ⟨rfl, rfl⟩
        · exact ⟨rfl, rfl⟩
      refine ⟨?_, ?_⟩
      · show (t.flag i).serials.length = (t.base.bgDownloadList.modify i _).length
        rw [hflag.1, List.length_modify, h.rows]
      · show (t.flag i).fileSerials.length = _
        rw [hflag.2]
        exact h.file
    | restart s hs =>
      obtain ⟨-, hfile, -⟩ := boot_eq hs
      exact ⟨h.file.trans (length_boot hs).symm, hfile ▸ h.file⟩
  | getDownloadState k =>
    rw [getDownloadState_eq st]
    exact ⟨h.rows, h.file⟩
  | visitState k =>
    obtain ⟨g, -, rfl | ⟨n, r, -, rfl⟩⟩ := visitState_cases st <;> exact ⟨h.rows, h.file⟩

theorem aligned_start {base : State} (m : Nat)
    (h : base.bgDownloadList.length = (base.file.getD []).length) :
    Aligned (Tracked.start base m) :=
  ⟨List.length_range, List.length_range.trans h⟩

/-- A row as its request added it. -/
def BgDownloadData.asAdded (r : BgDownloadData) : BgDownloadData :=
  { r with bytesTransfered := 0, state := .pending, failedAttempts := 0, removeRequested := false }

theorem Edits.asAdded_eq {s : State} {i : Nat} {pc pc' : Pc} {a : ThreadAction}
    {f : BgDownloadData → BgDownloadData} (e : Edits s i pc a f pc') (r : BgDownloadData) :
    (f r).asAdded = r.asAdded := by
  cases e <;> rfl

/-- Every row is the one that its request added, as far as `key` tells. -/
def Requested {β : Type} (key : BgDownloadData → β) (t : Tracked) : Prop :=
  ∀ n r, (n, r) ∈ t.rows → (t.requests[n]?).map key = some (key r)

/-- Every row stands to the one that its request added as `P` says. -/
def Related (P : BgDownloadData → BgDownloadData → Prop) (t : Tracked) : Prop :=
  ∀ n r, (n, r) ∈ t.rows → ∃ q, t.requests[n]? = some q ∧ P q r

theorem requested_iff {β : Type} {key : BgDownloadData → β} {t : Tracked} :
    Requested key t ↔ Related (fun q r => key q = key r) t := by
  simp only [Requested, Related, Option.map_eq_some_iff]

section Related

variable {P : BgDownloadData → BgDownloadData → Prop}

theorem related_modify {t t' : Tracked} {i : Nat} {f : BgDownloadData → BgDownloadData}
    (h : Related P t) (hrows : t'.rows = t.rows.modify i fun p => (p.1, f p.2))
    (hreq : t'.requests = t.requests) (hf : ∀ q r, P q r → P q (f r)) : Related P t' := by
  intro n r hr
  rw [hrows] at hr
  rw [hreq]
  rcases mem_modify hr with ⟨j, -, hj⟩ | ⟨⟨m, r₀⟩, hj, heq⟩
  · exact h n r (List.mem_of_getElem? hj)
  · obtain ⟨rfl, rfl⟩ := Prod.mk.inj heq
    obtain ⟨q, hq, hP⟩ := h n r₀ (List.mem_of_getElem? hj)
    exact ⟨q, hq, hf q r₀ hP⟩

/-- Steps of one process keep the rows of their requests. -/
theorem related_step (hadded : ∀ r, P r r)
    (hkey : ∀ q r r' : BgDownloadData, r.asAdded = r'.asAdded → P q r → P q r')
    {t t' : Tracked} {a : Action} (h : Related P t) (ha : Aligned t) (hone : a ≠ .restart)
    (st : TrackedStep c t a t') : Related P t' := by
  cases st with
  | quiet s hlist hfile hadding =>
    intro n r hr
    apply h n r
    show (n, r) ∈ t.serials.zip t.base.bgDownloadList
    rw [← hlist]
    exact hr
  | edit e =>
    exact related_modify h (rows_edit t _ _ _) rfl fun q r =>
      hkey q _ _ (e.asAdded_eq r).symm
  | sweep pc' =>
    intro n r hr
    rw [ha.rows_sweep] at hr
    exact h n r (List.mem_of_mem_filter hr)
  | threadSave now pc' => exact h
  | handlerSave k now hk => exact h
  | add k row hk =>
    intro n r hr
    show ∃ q, (t.requests ++ [row])[n]? = some q ∧ P q r
    rw [ha.rows_add] at hr
    rcases List.mem_append.mp hr with hold | hnew
    · obtain ⟨q, hq, hP⟩ := h n r hold
      rw [List.getElem?_append_left (List.getElem?_eq_some_iff.mp hq).1]
      exact ⟨q, hq, hP⟩
    · obtain ⟨rfl, rfl⟩ := Prod.mk.inj (List.mem_singleton.mp hnew)
      rw [List.getElem?_concat_length]
      exact ⟨r, rfl, hadded r⟩
  | flag k i r hr hf =>
    have hrequests : (t.flag i).requests = t.requests := by
      unfold Tracked.flag
      split
      · split <;> rfl
      · rfl
    exact related_modify (f := fun r => { r with removeRequested := true }) h
      (rows_flag t k i) hrequests fun q r => hkey q _ _ rfl
  | restart s hs => exact absurd rfl hone

end Related

theorem requested_step {β : Type} {key : BgDownloadData → β}
    (hkey : ∀ r r' : BgDownloadData, r.asAdded = r'.asAdded → key r = key r')
    {t t' : Tracked} {a : Action} (h : Requested key t) (ha : Aligned t) (hone : a ≠ .restart)
    (st : TrackedStep c t a t') : Requested key t' := by
  rw [requested_iff] at h ⊢
  exact related_step (P := fun q r => key q = key r) (fun _ => rfl)
    (fun _ r r' heq hq => hq.trans (hkey r r' heq)) h ha hone st

theorem flag_cases (t : Tracked) (i : Nat) :
    t.flag i = t ∨ ∃ p, t.flag i = { t with flagged := p :: t.flagged } := by
  unfold Tracked.flag
  split
  · split
    · exact .inr ⟨_, rfl⟩
    · exact .inl rfl
  · exact .inl rfl

/-- The visit of a finished row takes it down. -/
theorem Aligned.flag_eq {t : Tracked} (h : Aligned t) {i : Nat} {r : BgDownloadData}
    (hr : t.base.bgDownloadList[i]? = some r) (hf : r.Finished) :
    ∃ n, t.rows[i]? = some (n, r) ∧ t.flag i = { t with flagged := (n, r) :: t.flagged } := by
  have hi : i < t.serials.length := h.rows ▸ (List.getElem?_eq_some_iff.mp hr).1
  have hn : t.rows[i]? = some (t.serials[i], r) :=
    t.getElem?_rows.mpr ⟨List.getElem?_eq_getElem hi, hr⟩
  refine ⟨t.serials[i], hn, ?_⟩
  unfold Tracked.flag
  rw [hn]
  exact if_pos hf

theorem index_eq {t : Tracked} (hd : t.serials.Nodup) {i j n : Nat} {r r' : BgDownloadData}
    (hi : t.rows[i]? = some (n, r)) (hj : t.rows[j]? = some (n, r')) : i = j := by
  have hi' := (t.getElem?_rows.mp hi).1
  have hj' := (t.getElem?_rows.mp hj).1
  have hlt : i < t.serials.length := (List.getElem?_eq_some_iff.mp hi').1
  exact (List.getElem?_inj hlt hd).mp (hi'.trans hj'.symm)

/-- No other row has the number of the flagged one. -/
theorem mem_rows_flag {t : Tracked} (hd : t.serials.Nodup) {i n : Nat} {r : BgDownloadData}
    (hi : t.rows[i]? = some (n, r)) {p : Nat × BgDownloadData}
    (hp : p ∈ t.rows.modify i fun p => (p.1, { p.2 with removeRequested := true })) :
    p ∈ t.rows ∧ p.1 ≠ n ∨ p = (n, { r with removeRequested := true }) := by
  rcases mem_modify hp with ⟨j, hji, hp⟩ | ⟨q, hq, rfl⟩
  · refine .inl ⟨List.mem_of_getElem? hp, ?_⟩
    intro hpn
    obtain ⟨m, r'⟩ := p
    cases hpn
    exact hji (index_eq hd hp hi)
  · rw [hi] at hq
    cases hq
    exact .inr rfl

/-- Rows stand in the order of their requests, in memory and in the file. -/
structure Numbered (t : Tracked) : Prop where
  aligned : Aligned t
  increasing : t.serials.Pairwise (· < ·)
  fileIncreasing : t.fileSerials.Pairwise (· < ·)
  bounded : ∀ n ∈ t.serials, n < t.requests.length
  fileBounded : ∀ n ∈ t.fileSerials, n < t.requests.length

namespace Numbered

variable {t t' : Tracked}

theorem nodup (h : Numbered t) : t.serials.Nodup := h.increasing.imp Nat.ne_of_lt

theorem sublist (h : Numbered t) (q : Nat × BgDownloadData → Bool) :
    ((t.rows.filter q).map Prod.fst).Sublist t.serials := by
  rw [← h.aligned.map_fst_rows]
  exact List.filter_sublist.map Prod.fst

theorem save (h : Numbered t) (now : UInt64) {ns : List Nat}
    (heq : ns = (t.rows.filter fun p => retained now p.2).map Prod.fst) :
    ns.Pairwise (· < ·) ∧ ∀ n ∈ ns, n < t.requests.length := by
  have hsub : ns.Sublist t.serials := heq ▸ h.sublist _
  exact ⟨h.increasing.sublist hsub, fun n hn => h.bounded n (hsub.subset hn)⟩

theorem run (h : Numbered t) (ha : Aligned t') {a : Action} (st : TrackedStep c t a t') :
    Numbered t' := by
  cases st with
  | quiet | edit =>
    exact ⟨ha, h.increasing, h.fileIncreasing, h.bounded, h.fileBounded⟩
  | sweep pc' =>
    have hsub := h.sublist fun p => !p.2.removeRequested
    exact ⟨ha, h.increasing.sublist hsub, h.fileIncreasing, fun n hn => h.bounded n (hsub.subset hn),
      h.fileBounded⟩
  | threadSave now pc' =>
    have hfile := h.save now rfl
    exact ⟨ha, h.increasing, hfile.1, h.bounded, hfile.2⟩
  | handlerSave k now hk =>
    have hfile := h.save now rfl
    exact ⟨ha, h.increasing, hfile.1, h.bounded, hfile.2⟩
  | add k row hk =>
    have hlen : (t.add k row).requests.length = t.requests.length + 1 := List.length_append
    refine ⟨ha, ?_, h.fileIncreasing, ?_, ?_⟩
    · apply List.pairwise_append.mpr
      refine ⟨h.increasing, List.pairwise_singleton _ _, ?_⟩
      intro n hn m hm
      rw [List.mem_singleton.mp hm]
      exact h.bounded n hn
    · intro n hn
      show n < (t.add k row).requests.length
      rcases List.mem_append.mp hn with hn | hn
      · have := h.bounded n hn
        omega
      · rw [List.mem_singleton.mp hn]
        omega
    · intro n hn
      have := h.fileBounded n hn
      show n < (t.add k row).requests.length
      omega
  | flag k i r hr hf =>
    obtain ⟨n, -, heq⟩ := h.aligned.flag_eq hr hf
    rw [heq] at ha ⊢
    exact ⟨ha, h.increasing, h.fileIncreasing, h.bounded, h.fileBounded⟩
  | restart s hs => exact ⟨ha, h.fileIncreasing, h.fileIncreasing, h.fileBounded, h.fileBounded⟩

end Numbered

theorem numbered_step {t t' : Tracked} {a : TrackedAction} (h : Numbered t)
    (st : trackedStep c t a = some t') : Numbered t' := by
  have ha := aligned_step h.aligned st
  cases a with
  | run a => exact h.run ha (tracked_cases st)
  | getDownloadState k =>
    cases getDownloadState_eq st
    exact ⟨ha, h.increasing, h.fileIncreasing, h.bounded, h.fileBounded⟩
  | visitState k =>
    obtain ⟨g, -, rfl | ⟨n, r, -, rfl⟩⟩ := visitState_cases st
    · exact ⟨ha, h.increasing, h.fileIncreasing, h.bounded, h.fileBounded⟩
    · exact ⟨ha, h.increasing, h.fileIncreasing, h.bounded, h.fileBounded⟩

/-- States of runs that begin without a history file, with any number of
requests at a time. -/
def TrackedReachable (c : Cipher) (ok : Tracked → TrackedAction → Prop) : Tracked → Prop :=
  Transition.Reachable
    (fun t => ∃ n m base, boot c none n = some base ∧ t = Tracked.start base m) (trackedStep c) ok

theorem exists_trackedReachable (c : Cipher) (ok : Tracked → TrackedAction → Prop)
    [∀ t a, Decidable (ok t a)] (n m : Nat) (as : List TrackedAction) {β : Type} (f : Tracked → β)
    (b : β) (hr : ((boot c none n).bind fun base =>
      (Transition.run (trackedStep c) ok (Tracked.start base m) as).map f) = some b) :
    ∃ t, TrackedReachable c ok t ∧ f t = b := by
  obtain ⟨base, hb, hrun⟩ := Option.bind_eq_some_iff.mp hr
  exact Transition.exists_reachable_of_run ⟨n, m, base, hb, rfl⟩ as f b hrun

theorem boot_none {n : Nat} {base : State} (h : boot c none n = some base) :
    base.bgDownloadList = [] ∧ base.file = none := by
  obtain ⟨-, hfile, -, hrows⟩ := boot_eq h
  refine ⟨?_, hfile⟩
  rw [hrows]
  unfold loadedRows
  rw [hfile]
  rfl

theorem TrackedReachable.base {ok : Tracked → TrackedAction → Prop} {t : Tracked}
    (h : TrackedReachable c ok t) : Reachable c Transition.anyStep t.base := by
  apply Transition.Reachable.invariant h
  · rintro t ⟨n, m, base, hb, rfl⟩
    exact .start ⟨n, hb⟩
  · intro t a t' hbase _ st
    cases a with
    | run a =>
      obtain ⟨s, hs, rfl⟩ := Option.map_eq_some_iff.mp st
      exact .next hbase trivial hs
    | getDownloadState k =>
      rw [getDownloadState_eq st]
      exact hbase
    | visitState k =>
      obtain ⟨g, -, rfl | ⟨n, r, -, rfl⟩⟩ := visitState_cases st <;> exact hbase

theorem TrackedReachable.numbered {ok : Tracked → TrackedAction → Prop} {t : Tracked}
    (h : TrackedReachable c ok t) : Numbered t := by
  apply Transition.Reachable.invariant h
  · rintro t ⟨n, m, base, hb, rfl⟩
    obtain ⟨hlist, hfile⟩ := boot_none hb
    have hserials : (Tracked.start base m).serials = [] := by
      show List.range base.bgDownloadList.length = []
      rw [hlist]
      rfl
    have ha : Aligned (Tracked.start base m) := aligned_start m (by rw [hlist, hfile]; rfl)
    refine ⟨ha, ?_, ?_, ?_, ?_⟩
    · rw [hserials]
      exact .nil
    · rw [show (Tracked.start base m).fileSerials = [] from hserials]
      exact .nil
    · rw [hserials]
      exact fun _ hn => by cases hn
    · rw [show (Tracked.start base m).fileSerials = [] from hserials]
      exact fun _ hn => by cases hn
  · intro t a t' hn _ st
    exact numbered_step hn st

end EzRemote.Download

import Mathlib.Data.List.Nodup
import EzRemote.Download.Rows
import EzRemote.Download.Working

/-!
# Clearing removes finished rows only

A row is flagged when it is finished, and the thread edits unfinished rows only,
so a flagged row stays as it was until a sweep erases it.
-/

namespace EzRemote.Download

variable {c : Cipher}

/-- What the clearing of rows keeps within one process. -/
structure Cleared (t : Tracked) : Prop where
  aligned : Aligned t
  finished : ∀ p ∈ t.rows, p.2.removeRequested = true →
    p.2.Finished ∧ p.1 ∈ t.flagged.map Prod.fst
  snapshots : ∀ p ∈ t.flagged, p.2.Finished ∧ p.1 < t.requests.length
  kept : ∀ n r₀ r, (n, r₀) ∈ t.flagged → (n, r) ∈ t.rows ∨ (n, r) ∈ t.erased →
    r = { r₀ with removeRequested := true }
  erased : ∀ p ∈ t.erased, p.2.removeRequested = true ∧ p.1 ∈ t.flagged.map Prod.fst
  order : t.serials = (List.range t.requests.length).filter (· ∉ t.erased.map Prod.fst)
  plain : ∀ (k : Nat) row, t.base.handlers[k]? = some (.adding row) → row.removeRequested = false

namespace Cleared

variable {t : Tracked}

theorem nodup (h : Cleared t) : (t.rows.map Prod.fst).Nodup := by
  rw [h.aligned.map_fst_rows, h.order]
  exact List.nodup_range.filter _

theorem notErased (h : Cleared t) {p : Nat × BgDownloadData} (hp : p ∈ t.rows) :
    p.1 ∉ t.erased.map Prod.fst := by
  have hserial : p.1 ∈ t.serials := h.aligned.map_fst_rows ▸ List.mem_map_of_mem hp
  rw [h.order] at hserial
  simpa using (List.mem_filter.mp hserial).2

theorem notFlagged (h : Cleared t) {n : Nat} {r : BgDownloadData} (hr : (n, r) ∈ t.rows)
    (hf : ¬ r.Finished) : n ∉ t.flagged.map Prod.fst := by
  intro hn
  obtain ⟨⟨n', r₀⟩, hp, rfl⟩ := List.mem_map.mp hn
  have heq := h.kept n' r₀ r hp (.inl hr)
  rw [heq] at hf
  exact hf (h.snapshots _ hp).1

end Cleared

theorem cleared_of_rows {t t' : Tracked} (h : Cleared t) (ha : Aligned t')
    (hrows : t'.rows = t.rows) (hserials : t'.serials = t.serials)
    (hrequests : t'.requests = t.requests)
    (hflagged : t'.flagged = t.flagged) (herased : t'.erased = t.erased)
    (hplain : ∀ (k : Nat) row, t'.base.handlers[k]? = some (.adding row) →
      row.removeRequested = false) : Cleared t' := by
  refine ⟨ha, ?_, ?_, ?_, ?_, ?_, hplain⟩
  · rw [hrows, hflagged]
    exact h.finished
  · rw [hflagged, hrequests]
    exact h.snapshots
  · rw [hflagged, hrows, herased]
    exact h.kept
  · rw [herased, hflagged]
    exact h.erased
  · rw [hserials, hrequests, herased]
    exact h.order

/-- Numbers of the entries that a filter drops. -/
theorem map_fst_filter_not {α : Type} {l : List (Nat × α)} (hn : (l.map Prod.fst).Nodup)
    (q : α → Bool) :
    (l.filter fun p => !q p.2).map Prod.fst =
      (l.map Prod.fst).filter (· ∉ (l.filter fun p => q p.2).map Prod.fst) := by
  rw [List.filter_map]
  congr 1
  apply List.filter_congr
  intro p hp
  cases hq : q p.2 with
  | true =>
    have hin : p.1 ∈ (l.filter fun p => q p.2).map Prod.fst :=
      List.mem_map_of_mem (List.mem_filter.mpr ⟨hp, hq⟩)
    simp [hin]
  | false =>
    have hout : p.1 ∉ (l.filter fun p => q p.2).map Prod.fst := by
      intro hin
      obtain ⟨p', hp', heq⟩ := List.mem_map.mp hin
      obtain ⟨hl, hq'⟩ := List.mem_filter.mp hp'
      rw [List.inj_on_of_nodup_map hn hl hp heq, hq] at hq'
      cases hq'
    simp [hout]

theorem cleared_edit {t : Tracked} (h : Cleared t) (hs : Sane c t.base) {a : ThreadAction} {i : Nat}
    {f : BgDownloadData → BgDownloadData} {pc' : Pc} (e : Edits t.base i t.base.pc a f pc')
    (ha : Aligned { t with base := { t.base.setRow i f with pc := pc' } }) :
    Cleared { t with base := { t.base.setRow i f with pc := pc' } } := by
  -- the edited row is unfinished, so it has no snapshot and no flag
  have hrows := rows_edit t i f pc'
  have hnew : ∀ p ∈ t.rows.modify i (fun p => (p.1, f p.2)), p ∈ t.rows ∨
      p.1 ∉ t.flagged.map Prod.fst ∧ p.2.removeRequested = false := by
    intro p hp
    rcases mem_modify hp with ⟨j, -, hp⟩ | ⟨q, hq, rfl⟩
    · exact .inl (List.mem_of_getElem? hp)
    · have hat : t.base.bgDownloadList[i]? = some q.2 := (t.getElem?_rows.mp hq).2
      have hun := hs.edit_unfinished e hat
      have hq' : q ∈ t.rows := List.mem_of_getElem? hq
      refine .inr ⟨h.notFlagged hq' hun, ?_⟩
      show (f q.2).removeRequested = false
      rw [e.removeRequested_eq]
      cases hr : q.2.removeRequested with
      | false => rfl
      | true => exact absurd (h.finished q hq' hr).1 hun
  refine ⟨ha, ?_, h.snapshots, ?_, h.erased, h.order, h.plain⟩
  · rw [hrows]
    intro p hp hr
    rcases hnew p hp with hp | ⟨-, hfalse⟩
    · exact h.finished p hp hr
    · rw [hfalse] at hr
      cases hr
  · rw [hrows]
    intro n r₀ r hn hr
    rcases hr with hr | hr
    · rcases hnew _ hr with hr | ⟨hout, -⟩
      · exact h.kept n r₀ r hn (.inl hr)
      · exact absurd (List.mem_map_of_mem hn) hout
    · exact h.kept n r₀ r hn (.inr hr)

theorem cleared_sweep {t : Tracked} (h : Cleared t) {pc' : Pc}
    (ha : Aligned { t.sweep with
      base := { t.base with
        bgDownloadList := t.base.bgDownloadList.filter fun r => !r.removeRequested
        pc := pc' } }) :
    Cleared { t.sweep with
      base := { t.base with
        bgDownloadList := t.base.bgDownloadList.filter fun r => !r.removeRequested
        pc := pc' } } := by
  have hrows := h.aligned.rows_sweep pc'
  refine ⟨ha, ?_, h.snapshots, ?_, ?_, ?_, h.plain⟩
  · rw [hrows]
    intro p hp hr
    exact h.finished p (List.mem_of_mem_filter hp) hr
  · rw [hrows]
    intro n r₀ r hn hr
    rcases hr with hr | hr
    · exact h.kept n r₀ r hn (.inl (List.mem_of_mem_filter hr))
    · rcases List.mem_append.mp hr with hr | hr
      · exact h.kept n r₀ r hn (.inl (List.mem_of_mem_filter hr))
      · exact h.kept n r₀ r hn (.inr hr)
  · intro p hp
    rcases List.mem_append.mp hp with hp | hp
    · obtain ⟨hp, hr⟩ := List.mem_filter.mp hp
      exact ⟨hr, (h.finished p hp hr).2⟩
    · exact h.erased p hp
  · show (t.rows.filter fun p => !p.2.removeRequested).map Prod.fst = _
    rw [map_fst_filter_not h.nodup, h.aligned.map_fst_rows, h.order, List.filter_filter]
    apply List.filter_congr
    intro n _
    simp only [Tracked.sweep, List.map_append, List.mem_append, not_or, Bool.decide_and]

theorem Cleared.fresh {t : Tracked} (h : Cleared t) :
    t.requests.length ∉ t.flagged.map Prod.fst := by
  intro hn
  obtain ⟨p, hp, heq⟩ := List.mem_map.mp hn
  have := (h.snapshots p hp).2
  omega

theorem cleared_add {t : Tracked} (h : Cleared t) {k : Nat} {row : BgDownloadData}
    (hk : t.base.handlers[k]? = some (.adding row))
    (ha : Aligned { t.add k row with
      base := { t.base with
        bgDownloadList := t.base.bgDownloadList ++ [row] }.setHandler k .saving }) :
    Cleared { t.add k row with
      base := { t.base with
        bgDownloadList := t.base.bgDownloadList ++ [row] }.setHandler k .saving } := by
  have hrows := h.aligned.rows_add k row
  have hlen : (t.add k row).requests.length = t.requests.length + 1 := by
    show (t.requests ++ [row]).length = _
    rw [List.length_append, List.length_singleton]
  refine ⟨ha, ?_, ?_, ?_, h.erased, ?_, ?_⟩
  · rw [hrows]
    intro p hp hr
    rcases List.mem_append.mp hp with hp | hp
    · exact h.finished p hp hr
    · rw [List.mem_singleton.mp hp, h.plain k row hk] at hr
      cases hr
  · intro p hp
    have hp' := h.snapshots p hp
    refine ⟨hp'.1, ?_⟩
    show p.1 < (t.add k row).requests.length
    omega
  · rw [hrows]
    intro n r₀ r hn hr
    rcases hr with hr | hr
    · rcases List.mem_append.mp hr with hr | hr
      · exact h.kept n r₀ r hn (.inl hr)
      · rw [(Prod.mk.inj (List.mem_singleton.mp hr)).1] at hn
        exact absurd (List.mem_map_of_mem hn) h.fresh
    · exact h.kept n r₀ r hn (.inr hr)
  · show t.serials ++ [t.requests.length] =
      (List.range (t.add k row).requests.length).filter (· ∉ t.erased.map Prod.fst)
    have hout : t.requests.length ∉ t.erased.map Prod.fst := by
      intro hn
      obtain ⟨p, hp, heq⟩ := List.mem_map.mp hn
      exact h.fresh (heq ▸ (h.erased p hp).2)
    rw [hlen, List.range_succ, List.filter_append, ← h.order]
    simp [hout]
  · intro j row' hj
    exact h.plain j row' ((handlers_setHandler hj).resolve_right fun hr => by cases hr.2)

/-- After a visit, the snapshot of a number and its row differ by the flag. -/
theorem Cleared.kept_flag {t : Tracked} (h : Cleared t) {i n : Nat} {r : BgDownloadData}
    (hn : t.rows[i]? = some (n, r)) {m : Nat} {r₀ r' : BgDownloadData}
    (hm : (m, r₀) ∈ (n, r) :: t.flagged)
    (hr' : (m, r') ∈ t.rows.modify i (fun p => (p.1, { p.2 with removeRequested := true })) ∨
      (m, r') ∈ t.erased) : r' = { r₀ with removeRequested := true } := by
  have hin : (n, r) ∈ t.rows := List.mem_of_getElem? hn
  have hd : t.serials.Nodup := h.aligned.map_fst_rows ▸ h.nodup
  have hnew := fun p => mem_rows_flag hd hn (p := p)
  -- the snapshot is an old one or that of this visit; so is the row
  rcases List.mem_cons.mp hm with heq | hm
  · obtain ⟨rfl, rfl⟩ := Prod.mk.inj heq
    rcases hr' with hr' | hr'
    · rcases hnew _ hr' with ⟨-, hne⟩ | heq
      · exact absurd rfl hne
      · exact (Prod.mk.inj heq).2
    · have hout := h.notErased hin
      exact absurd (List.mem_map_of_mem hr') hout
  · rcases hr' with hr' | hr'
    · rcases hnew _ hr' with ⟨hr', -⟩ | heq
      · exact h.kept m r₀ r' hm (.inl hr')
      · cases heq
        rw [h.kept n r₀ r hm (.inl hin)]
    · exact h.kept m r₀ r' hm (.inr hr')

theorem cleared_flag {t : Tracked} (h : Cleared t) {k i : Nat} {r : BgDownloadData}
    (hr : t.base.bgDownloadList[i]? = some r) (hf : r.Finished)
    (ha : Aligned { t.flag i with
      base := (t.base.setRow i fun r => { r with removeRequested := true }).setHandler k
        (.clearing (i + 1)) }) :
    Cleared { t.flag i with
      base := (t.base.setRow i fun r => { r with removeRequested := true }).setHandler k
        (.clearing (i + 1)) } := by
  obtain ⟨n, hn, hflag⟩ := h.aligned.flag_eq hr hf
  have hrows := rows_flag t k i
  rw [hflag] at ha hrows ⊢
  have hd : t.serials.Nodup := h.aligned.map_fst_rows ▸ h.nodup
  refine ⟨ha, ?_, ?_, ?_, ?_, h.order, ?_⟩
  · rw [hrows]
    intro p hp hreq
    rcases mem_rows_flag hd hn hp with ⟨hp, -⟩ | rfl
    · exact ⟨(h.finished p hp hreq).1, List.mem_cons_of_mem _ (h.finished p hp hreq).2⟩
    · exact ⟨hf, List.mem_cons_self⟩
  · intro p hp
    rcases List.mem_cons.mp hp with rfl | hp
    · refine ⟨hf, ?_⟩
      have hserial : n ∈ t.serials :=
        h.aligned.map_fst_rows ▸ List.mem_map_of_mem (List.mem_of_getElem? hn)
      rw [h.order] at hserial
      exact List.mem_range.mp (List.mem_filter.mp hserial).1
    · exact h.snapshots p hp
  · rw [hrows]
    intro m r₀ r' hm hr'
    exact h.kept_flag hn hm hr'
  · intro p hp
    exact ⟨(h.erased p hp).1, List.mem_cons_of_mem _ (h.erased p hp).2⟩
  · intro j row' hj
    exact h.plain j row' ((handlers_setHandler hj).resolve_right fun hr => by cases hr.2)

theorem cleared_step {t t' : Tracked} {a : Action} (h : Cleared t) (hs : Sane c t.base)
    (hone : a ≠ .restart) (st : TrackedStep c t a t') (ha : Aligned t') : Cleared t' := by
  cases st with
  | quiet s hlist hfile hadding =>
    refine cleared_of_rows h ha ?_ rfl rfl rfl rfl ?_
    · show t.serials.zip s.bgDownloadList = t.rows
      rw [hlist]
      rfl
    · intro k row hk
      rcases hadding k row hk with hk | ⟨req, now, -, hrow⟩
      · exact h.plain k row hk
      · unfold DownloadRequest.downloadData at hrow
        split at hrow
        · cases hrow
        · cases hrow
          rfl
  | edit e => exact cleared_edit h hs e ha
  | sweep pc' => exact cleared_sweep h ha
  | threadSave now pc' => exact cleared_of_rows h ha rfl rfl rfl rfl rfl h.plain
  | handlerSave k now hk =>
    refine cleared_of_rows h ha rfl rfl rfl rfl rfl ?_
    intro j row hj
    exact h.plain j row ((handlers_setHandler hj).resolve_right fun hr => by cases hr.2)
  | add k row hk => exact cleared_add h hk ha
  | flag k i r hr hf => exact cleared_flag h hr hf ha
  | restart s hs => exact absurd rfl hone

/-- A response shows no row that was flagged when it began. -/
def Reader.Hides (g : Reader) : Prop := ∀ p ∈ g.downloadList, p.1 ∉ g.hidden

structure Responses (t : Tracked) : Prop where
  running : ∀ g, some g ∈ t.readers → g.Hides ∧ ∀ n ∈ g.hidden, n ∈ t.flagged.map Prod.fst
  sent : ∀ g ∈ t.responses, g.Hides

theorem responses_run {t t' : Tracked} {a : Action} (h : Responses t) (st : TrackedStep c t a t') :
    Responses t' := by
  cases st with
  | flag k i r hr hf =>
    rcases flag_cases t i with heq | ⟨p, heq⟩
    · rw [heq]
      exact ⟨h.running, h.sent⟩
    · rw [heq]
      refine ⟨?_, h.sent⟩
      intro g hg
      exact ⟨(h.running g hg).1, fun n hn => List.mem_cons_of_mem _ ((h.running g hg).2 n hn)⟩
  | restart s hs =>
    refine ⟨?_, h.sent⟩
    intro g hg
    obtain ⟨_, -, hnone⟩ := List.mem_map.mp hg
    cases hnone
  | _ => exact ⟨h.running, h.sent⟩

/-- A flagged row keeps its flag as long as it is in the list. -/
def FlagsKept (t : Tracked) : Prop :=
  ∀ n r, (n, r) ∈ t.rows → n ∈ t.flagged.map Prod.fst → r.removeRequested = true

theorem Cleared.flagsKept {t : Tracked} (h : Cleared t) : FlagsKept t := by
  intro n r hr hn
  obtain ⟨⟨m, r₀⟩, hm, rfl⟩ := List.mem_map.mp hn
  rw [h.kept m r₀ r hm (.inl hr)]

theorem hides_visit {t : Tracked} (h : FlagsKept t) {g : Reader} (hg : g.Hides)
    (hf : ∀ n ∈ g.hidden, n ∈ t.flagged.map Prod.fst) {n : Nat} {r : BgDownloadData}
    (hr : (n, r) ∈ t.rows) : (g.visit n r).Hides ∧ (g.visit n r).hidden = g.hidden := by
  unfold Reader.visit
  split
  · exact ⟨hg, rfl⟩
  · rename_i hreq
    refine ⟨?_, rfl⟩
    intro p hp
    rcases List.mem_append.mp hp with hp | hp
    · exact hg p hp
    · cases List.mem_singleton.mp hp
      intro hn
      exact hreq (h n r hr (hf n hn))

theorem responses_step {t t' : Tracked} {a : TrackedAction} (h : Responses t) (hc : FlagsKept t)
    (st : trackedStep c t a = some t') : Responses t' := by
  cases a with
  | run a => exact responses_run h (tracked_cases st)
  | getDownloadState k =>
    rw [getDownloadState_eq st]
    refine ⟨?_, h.sent⟩
    intro g hg
    rcases List.mem_or_eq_of_mem_set hg with hg | hg
    · exact h.running g hg
    · cases hg
      exact ⟨(fun _ hp => by cases hp), fun _ hn => hn⟩
  | visitState k =>
    obtain ⟨g, hg, rfl | ⟨n, r, hr, rfl⟩⟩ := visitState_cases st
    · refine ⟨?_, ?_⟩
      · intro g' hg'
        rcases List.mem_or_eq_of_mem_set hg' with hg' | hg'
        · exact h.running g' hg'
        · cases hg'
      · intro g' hg'
        rcases List.mem_cons.mp hg' with rfl | hg'
        · exact (h.running _ hg).1
        · exact h.sent g' hg'
    · refine ⟨?_, h.sent⟩
      intro g' hg'
      rcases List.mem_or_eq_of_mem_set hg' with hg' | hg'
      · exact h.running g' hg'
      · cases hg'
        have hvisit := hides_visit hc (h.running g hg).1 (h.running g hg).2 hr
        exact ⟨hvisit.1, hvisit.2 ▸ (h.running g hg).2⟩

/-- A process that starts on the file that earlier processes left. -/
def Started (c : Cipher) (t : Tracked) : Prop :=
  ∃ s n m base, Reachable c Transition.anyStep s ∧ boot c s.file n = some base ∧
    t = Tracked.start base m

def oneProcess (_ : Tracked) (a : TrackedAction) : Prop := a ≠ .run .restart

instance (t : Tracked) (a : TrackedAction) : Decidable (oneProcess t a) :=
  inferInstanceAs (Decidable (_ ≠ _))

/-- What clearing the history may do to the rows. -/
structure ClearSafe (t : Tracked) : Prop where
  flagged : ∀ p ∈ t.flagged, p.2.Finished
  erased : ∀ p ∈ t.erased, p.1 ∈ t.flagged.map Prod.fst ∧ p.2.Finished
  unchanged : ∀ n r₀ r, (n, r₀) ∈ t.flagged → (n, r) ∈ t.rows ∨ (n, r) ∈ t.erased →
    r.state = r₀.state ∧ r.failedAttempts = r₀.failedAttempts
  remaining : t.rows.map Prod.snd = t.base.bgDownloadList ∧
    t.rows.map Prod.fst = (List.range t.requests.length).filter (· ∉ t.erased.map Prod.fst) ∧
    Requested BgDownloadData.asAdded t
  hidden : ∀ g, g ∈ t.responses ∨ some g ∈ t.readers → ∀ p ∈ g.downloadList, p.1 ∉ g.hidden

theorem requested_start (base : State) (m : Nat) :
    Requested BgDownloadData.asAdded (Tracked.start base m) := by
  intro n r hr
  obtain ⟨i, hi⟩ := List.mem_iff_getElem?.mp hr
  obtain ⟨hn, hat⟩ := (Tracked.getElem?_rows _).mp hi
  obtain ⟨hlt, hin⟩ := List.getElem?_eq_some_iff.mp hn
  have heq : i = n := (List.getElem_range hlt).symm.trans hin
  rw [← heq, show (Tracked.start base m).requests[i]? = some r from hat]
  rfl

theorem cleared_start {s base : State} {n : Nat} (m : Nat) (hs : Reachable c Transition.anyStep s)
    (hb : boot c s.file n = some base) : Cleared (Tracked.start base m) := by
  obtain ⟨-, hfile, hhandlers, hrows⟩ := boot_eq hb
  have ha : Aligned (Tracked.start base m) := aligned_start m (hfile ▸ length_boot hb)
  have hplain : ∀ r ∈ base.bgDownloadList, r.removeRequested = false := by
    rw [hrows]
    unfold loadedRows
    rw [hfile]
    exact loadedRows_plain hs
  refine ⟨ha, ?_, ?_, ?_, ?_, ?_, ?_⟩
  · intro p hp hreq
    have hin : p.2 ∈ base.bgDownloadList := (List.of_mem_zip hp).2
    rw [hplain _ hin] at hreq
    cases hreq
  · intro p hp
    cases hp
  · intro n r₀ r hn
    cases hn
  · intro p hp
    cases hp
  · exact (List.filter_eq_self.mpr fun n _ => by simp [Tracked.start]).symm
  · intro k row hk
    change base.handlers[k]? = _ at hk
    rw [hhandlers] at hk
    cases List.eq_of_mem_replicate (List.mem_of_getElem? hk)

/-- Clearing the history erases finished rows only, and hides them from the
requests that come after. -/
theorem clear_history_safe {t : Tracked}
    (h : Transition.Reachable (Started c) (trackedStep c) oneProcess t) : ClearSafe t := by
  have hinv : (Sane c t.base ∧ Cleared t) ∧ Responses t ∧ Requested BgDownloadData.asAdded t := by
    apply h.invariant
    · rintro t ⟨s, n, m, base, hs, hb, rfl⟩
      refine ⟨⟨sane_boot hb (sane_reachable hs).fileYoung, cleared_start m hs hb⟩, ?_,
        requested_start base m⟩
      refine ⟨?_, ?_⟩
      · intro g hg
        cases List.eq_of_mem_replicate hg
      · intro g hg
        cases hg
    · rintro t a t' ⟨⟨hs, hc⟩, hr, hq⟩ hok st
      have hr' := responses_step hr hc.flagsKept st
      have ha := aligned_step hc.aligned st
      cases a with
      | run a =>
        have hone : a ≠ .restart := fun heq => hok (heq ▸ rfl)
        have hst := tracked_cases st
        obtain ⟨s, hs', rfl⟩ := Option.map_eq_some_iff.mp st
        exact ⟨⟨sane_step hs hs', cleared_step hc hs hone hst ha⟩, hr',
          requested_step (fun _ _ heq => heq) hq hc.aligned hone hst⟩
      | getDownloadState k =>
        cases getDownloadState_eq st
        exact ⟨⟨hs, cleared_of_rows hc ha rfl rfl rfl rfl rfl hc.plain⟩, hr', hq⟩
      | visitState k =>
        obtain ⟨g, -, rfl | ⟨n, r, -, rfl⟩⟩ := visitState_cases st
        · exact ⟨⟨hs, cleared_of_rows hc ha rfl rfl rfl rfl rfl hc.plain⟩, hr', hq⟩
        · exact ⟨⟨hs, cleared_of_rows hc ha rfl rfl rfl rfl rfl hc.plain⟩, hr', hq⟩
  obtain ⟨⟨-, hc⟩, hr, hq⟩ := hinv
  refine ⟨fun p hp => (hc.snapshots p hp).1, ?_, ?_, ?_, ?_⟩
  · intro p hp
    obtain ⟨-, hin⟩ := hc.erased p hp
    refine ⟨hin, ?_⟩
    obtain ⟨⟨n, r₀⟩, hn, heq⟩ := List.mem_map.mp hin
    obtain ⟨m, r⟩ := p
    cases heq
    rw [show r = _ from hc.kept n r₀ r hn (.inr hp)]
    exact (hc.snapshots _ hn).1
  · intro n r₀ r hn hr
    rw [hc.kept n r₀ r hn hr]
    exact ⟨rfl, rfl⟩
  · exact ⟨hc.aligned.map_snd_rows, hc.aligned.map_fst_rows.trans hc.order, hq⟩
  · intro g hg
    rcases hg with hg | hg
    · exact hr.sent g hg
    · exact (hr.running g hg).1

def clearRun : List TrackedAction :=
  ([.handler 0 (.downloadUrl smallRequest 1000), .handler 0 .add, .handler 0 (.save 1000),
    .thread .go, .thread .go, .thread .go, .thread .go, .thread (.acquired true), .thread .go,
    .thread (.save 1001), .thread (.returned 1), .thread .go, .thread (.save 1002),
    .handler 0 .clearHistory, .handler 0 .visit].map .run) ++
  [.getDownloadState 0, .visitState 0, .visitState 0] ++
  ([.thread .go, .thread .go, .thread .go, .thread .go, .thread .go].map .run)

theorem clear_history_safe_run : ∃ t,
    Transition.Reachable (Started plainCipher) (trackedStep plainCipher) oneProcess t ∧
    (t.erased.map (fun p => (p.1, p.2.state)) = [(0, .success)] ∧
      t.responses.map (fun g => (g.hidden, g.downloadList.length)) = [([0], 0)]) ∧ ClearSafe t := by
  have hstart : Started plainCipher (Tracked.start
      { bgDownloadList := [], file := none, inRestMode := false, stopDownload := false
        pc := .checkStop, handlers := [.idle] } 1) :=
    ⟨_, 1, 1, _, .start ⟨1, rfl⟩, rfl, rfl⟩
  obtain ⟨t, ht, ho⟩ := @Transition.exists_reachable_of_run _ _ _ (trackedStep plainCipher)
    oneProcess _ _ _ hstart clearRun
    (fun t => (t.erased.map fun p => (p.1, p.2.state),
      t.responses.map fun g => (g.hidden, g.downloadList.length)))
    ([(0, .success)], [([0], 0)]) (by decide)
  simp only [Prod.mk.injEq] at ho
  exact ⟨t, ht, ho, clear_history_safe ht⟩

end EzRemote.Download

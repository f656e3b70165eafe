import EzRemote.Download.Clear

/-!
# Cleared rows across a restart

The flag of a row is in memory only.  A process that ends before the row was
swept and the file saved again leaves the row in the file, without its flag.
-/

namespace EzRemote.Download

variable {c : Cipher}

/-- The process ends only when the file holds no row that was flagged: the row
was swept and a save came after. -/
def restartsSwept (t : Tracked) (a : TrackedAction) : Prop :=
  a = .run .restart → ∀ n ∈ t.fileSerials, n ∉ t.flagged.map Prod.fst

instance (t : Tracked) (a : TrackedAction) : Decidable (restartsSwept t a) :=
  inferInstanceAs (Decidable (_ → _))

/-- Rows that were flagged are still flagged or gone, and no response that began
after that shows them. -/
structure StaysCleared (t : Tracked) : Prop where
  flagsKept : FlagsKept t
  shown : ∀ g, g ∈ t.responses ∨ some g ∈ t.readers → g.Hides

theorem flagsKept_run {t t' : Tracked} {a : Action} (h : FlagsKept t) (hn : Numbered t)
    (hb : ∀ p ∈ t.flagged, p.1 < t.requests.length) (hok : restartsSwept t (.run a))
    (ha : Aligned t') (st : TrackedStep c t a t') : FlagsKept t' := by
  cases st with
  | quiet s hlist hfile hadding =>
    intro n r hr
    apply h n r
    show (n, r) ∈ t.serials.zip t.base.bgDownloadList
    rw [← hlist]
    exact hr
  | @edit _ i f pc' e =>
    intro n r hr hf
    rw [rows_edit] at hr
    rcases mem_modify hr with ⟨j, -, hj⟩ | ⟨⟨m, r₀⟩, hj, heq⟩
    · exact h n r (List.mem_of_getElem? hj) hf
    · obtain ⟨rfl, rfl⟩ := Prod.mk.inj heq
      rw [e.removeRequested_eq]
      exact h n r₀ (List.mem_of_getElem? hj) hf
  | sweep pc' =>
    intro n r hr
    rw [hn.aligned.rows_sweep] at hr
    exact h n r (List.mem_of_mem_filter hr)
  | threadSave now pc' => exact h
  | handlerSave k now hk => exact h
  | add k row hk =>
    intro n r hr hf
    rw [hn.aligned.rows_add] at hr
    rcases List.mem_append.mp hr with hr | hr
    · exact h n r hr hf
    · -- the new number is larger than any that was flagged
      obtain ⟨rfl, rfl⟩ := Prod.mk.inj (List.mem_singleton.mp hr)
      obtain ⟨p, hp, heq⟩ := List.mem_map.mp hf
      have := hb p hp
      omega
  | flag k i r hr hf =>
    obtain ⟨n, hi, heq⟩ := hn.aligned.flag_eq hr hf
    have hrows := rows_flag t k i
    rw [heq] at hrows ⊢
    intro m r' hr' hm
    rw [hrows] at hr'
    rcases mem_rows_flag hn.nodup hi hr' with ⟨hr', hne⟩ | heq
    · exact h m r' hr' ((List.mem_cons.mp hm).resolve_left hne)
    · cases heq
      rfl
  | restart s hs =>
    intro n r hr hf
    have hin : n ∈ t.fileSerials := (List.of_mem_zip hr).1
    exact absurd hf (hok rfl n hin)

/-- What is not in the list and not in the file does not come back. -/
def Gone (n : Nat) (t : Tracked) : Prop :=
  n ∉ t.serials ∧ n ∉ t.fileSerials ∧ n < t.requests.length

theorem gone_run {n : Nat} {t t' : Tracked} {a : Action} (h : Gone n t) (ha : Aligned t)
    (st : TrackedStep c t a t') : Gone n t' := by
  -- the file takes numbers from the list, and a sweep takes none
  have hsub : ∀ q : Nat × BgDownloadData → Bool, n ∉ (t.rows.filter q).map Prod.fst := by
    intro q hn
    obtain ⟨p, hp, rfl⟩ := List.mem_map.mp hn
    exact h.1 (ha.map_fst_rows ▸ List.mem_map_of_mem (List.mem_of_mem_filter hp))
  cases st with
  | quiet | edit => exact h
  | sweep pc' => exact ⟨hsub _, h.2⟩
  | threadSave now pc' => exact ⟨h.1, hsub _, h.2.2⟩
  | handlerSave k now hk => exact ⟨h.1, hsub _, h.2.2⟩
  | add k row hk =>
    have hlt : n < t.requests.length := h.2.2
    refine ⟨?_, h.2.1, ?_⟩
    · intro hn
      rcases List.mem_append.mp hn with hn | hn
      · exact h.1 hn
      · rw [List.mem_singleton.mp hn] at hlt
        exact Nat.lt_irrefl _ hlt
    · show n < (t.requests ++ [row]).length
      rw [List.length_append]
      omega
  | flag k i r hr hf =>
    obtain ⟨m, -, heq⟩ := ha.flag_eq hr hf
    rw [heq]
    exact h
  | restart s hs => exact ⟨h.2.1, h.2⟩

theorem gone_step {n : Nat} {t t' : Tracked} {a : TrackedAction} (h : Gone n t) (ha : Aligned t)
    (st : trackedStep c t a = some t') : Gone n t' := by
  cases a with
  | run a => exact gone_run h ha (tracked_cases st)
  | getDownloadState k =>
    rw [getDownloadState_eq st]
    exact h
  | visitState k =>
    obtain ⟨g, -, rfl | ⟨m, r, -, rfl⟩⟩ := visitState_cases st <;> exact h

/-- What the runs keep that end a process only after a sweep and a save. -/
structure ClearedOnce (t : Tracked) : Prop where
  numbered : Numbered t
  flaggedBounded : ∀ p ∈ t.flagged, p.1 < t.requests.length
  flagsKept : FlagsKept t
  responses : Responses t

theorem flaggedBounded_run {t t' : Tracked} {a : Action}
    (h : ∀ p ∈ t.flagged, p.1 < t.requests.length) (hn : Numbered t) (st : TrackedStep c t a t') :
    ∀ p ∈ t'.flagged, p.1 < t'.requests.length := by
  cases st with
  | add k row hk =>
    intro p hp
    have hlt := h p hp
    show p.1 < (t.requests ++ [row]).length
    rw [List.length_append]
    omega
  | flag k i r hr hf =>
    obtain ⟨n, hi, heq⟩ := hn.aligned.flag_eq hr hf
    rw [heq]
    intro p hp
    rcases List.mem_cons.mp hp with rfl | hp
    · exact hn.bounded n (List.mem_of_getElem? (t.getElem?_rows.mp hi).1)
    · exact h p hp
  | _ => exact h

theorem clearedOnce_step {t t' : Tracked} {a : TrackedAction} (h : ClearedOnce t)
    (hok : restartsSwept t a) (st : trackedStep c t a = some t') : ClearedOnce t' := by
  have hn := numbered_step h.numbered st
  have hr := responses_step h.responses h.flagsKept st
  cases a with
  | run a =>
    have hst := tracked_cases st
    exact ⟨hn, flaggedBounded_run h.flaggedBounded h.numbered hst,
      flagsKept_run h.flagsKept h.numbered h.flaggedBounded hok hn.aligned hst, hr⟩
  | getDownloadState k =>
    cases getDownloadState_eq st
    exact ⟨hn, h.flaggedBounded, h.flagsKept, hr⟩
  | visitState k =>
    obtain ⟨g, -, rfl | ⟨n, r, -, rfl⟩⟩ := visitState_cases st
    · exact ⟨hn, h.flaggedBounded, h.flagsKept, hr⟩
    · exact ⟨hn, h.flaggedBounded, h.flagsKept, hr⟩

theorem clearedOnce_reachable {t : Tracked} (h : TrackedReachable c restartsSwept t) :
    ClearedOnce t := by
  apply Transition.Reachable.invariant h
  · rintro t ⟨n, m, base, hb, rfl⟩
    have hstart : TrackedReachable c Transition.anyStep (Tracked.start base m) :=
      .start ⟨n, m, base, hb, rfl⟩
    refine ⟨hstart.numbered, ?_, ?_, ?_, ?_⟩
    · intro p hp
      cases hp
    · intro n r _ hn
      cases hn
    · intro g hg
      cases List.eq_of_mem_replicate hg
    · intro g hg
      cases hg
  · intro t a t' ht hok st
    exact clearedOnce_step ht hok st

/-- After a restart the cleared rows that the file still held are back. -/
theorem staysCleared_restart_iff {t t' : Tracked} (h : TrackedReachable c restartsSwept t)
    (st : trackedStep c t (.run .restart) = some t') :
    StaysCleared t' ↔ restartsSwept t (.run .restart) := by
  have ht := clearedOnce_reachable h
  constructor
  · intro hstay _ n hn hf
    obtain ⟨s, hs, rfl⟩ := Option.map_eq_some_iff.mp st
    obtain ⟨hbase, hfile, -, hlist⟩ := boot_eq hs
    -- the row stands in the list at the place of its number, without a flag
    have hlen : t.fileSerials.length = s.bgDownloadList.length :=
      (aligned_step ht.numbered.aligned st).rows
    obtain ⟨r, hin⟩ := exists_mem_zip hlen hn
    have hflag : r.removeRequested = true := hstay.flagsKept n r hin hf
    have hloaded : r ∈ loadedRows c t.base := by
      have hmem : r ∈ loadedRows c s := hlist ▸ (List.of_mem_zip hin).2
      unfold loadedRows at hmem ⊢
      rwa [hfile] at hmem
    rw [loadedRows_plain h.base _ hloaded] at hflag
    cases hflag
  · intro hok
    have ht' := clearedOnce_step ht hok st
    refine ⟨ht'.flagsKept, ?_⟩
    intro g hg
    rcases hg with hg | hg
    · exact ht'.responses.sent g hg
    · exact (ht'.responses.running g hg).1

/-- Cleared rows stay cleared in the runs that end a process only after a sweep
and a save, and after no other end of a process. -/
theorem cleared_row_stays_cleared (c : Cipher) :
    (∀ t, TrackedReachable c restartsSwept t → StaysCleared t) ∧
    (∀ t t' u, TrackedReachable c restartsSwept t → restartsSwept t (.run .restart) →
      trackedStep c t (.run .restart) = some t' →
      Transition.Reachable (· = t') (trackedStep c) Transition.anyStep u →
      ∀ n ∈ t.flagged.map Prod.fst, n ∉ u.serials) ∧
    ∀ t t', TrackedReachable c restartsSwept t → trackedStep c t (.run .restart) = some t' →
      (StaysCleared t' ↔ restartsSwept t (.run .restart)) := by
  refine ⟨?_, ?_, fun t t' h st => staysCleared_restart_iff h st⟩
  · intro t h
    have ht := clearedOnce_reachable h
    refine ⟨ht.flagsKept, ?_⟩
    intro g hg
    rcases hg with hg | hg
    · exact ht.responses.sent g hg
    · exact (ht.responses.running g hg).1
  · intro t t' u h hok st hu n hn
    have ht := clearedOnce_reachable h
    have hfile : n ∉ t.fileSerials := fun hin => hok rfl n hin hn
    have hlt : n < t.requests.length := by
      obtain ⟨p, hp, rfl⟩ := List.mem_map.mp hn
      exact ht.flaggedBounded p hp
    have hgone : Numbered u ∧ Gone n u := by
      apply hu.invariant
      · rintro _ rfl
        obtain ⟨s, hs, rfl⟩ := Option.map_eq_some_iff.mp st
        exact ⟨numbered_step ht.numbered st, hfile, hfile, hlt⟩
      · rintro v a v' ⟨hv, hg⟩ - st
        exact ⟨numbered_step hv st, gone_step hg hv.aligned st⟩
    exact hgone.2.1

/-- A row is downloaded and cleared. -/
def flaggedRun : List TrackedAction :=
  [.handler 0 (.downloadUrl smallRequest 1000), .handler 0 .add, .handler 0 (.save 1000),
    .thread .go, .thread .go, .thread .go, .thread .go, .thread (.acquired true), .thread .go,
    .thread (.save 1001), .thread (.returned 1), .thread .go, .thread (.save 1002),
    .handler 0 .clearHistory, .handler 0 .visit, .handler 0 .visit].map .run

/-- The row is swept and the file saved before the process ends. -/
theorem cleared_row_stays_cleared_swept : ∃ t, TrackedReachable plainCipher restartsSwept t ∧
    (t.flagged.map Prod.fst, t.serials, t.requests.length) = ([0], [], 1) ∧ StaysCleared t := by
  obtain ⟨t, ht, ho⟩ := exists_trackedReachable plainCipher restartsSwept 1 1
    (flaggedRun ++ [.run (.thread .go), .run (.thread .go), .run (.thread .go), .run (.thread .go),
      .run (.thread .go), .run (.thread (.save 1003)), .run .restart])
    (fun t => (t.flagged.map Prod.fst, t.serials, t.requests.length)) ([0], [], 1) (by decide)
  exact ⟨t, ht, ho, (cleared_row_stays_cleared plainCipher).1 t ht⟩

/-- The process ends before a sweep: the next one lists the row and shows it. -/
theorem cleared_row_stays_cleared_unswept : ¬ ∀ c t, TrackedReachable c Transition.anyStep t →
    StaysCleared t := by
  intro hall
  obtain ⟨t, ht, ho⟩ := exists_trackedReachable plainCipher Transition.anyStep 1 1
    (flaggedRun ++ [.run .restart, .getDownloadState 0, .visitState 0, .visitState 0])
    (fun t => t.responses.map fun g => (g.hidden, g.downloadList.map Prod.fst)) [([0], [0])]
    (by decide)
  obtain ⟨g, hg, hshown⟩ := List.exists_of_mem_map (show (([0], [0]) : List Nat × List Nat) ∈
    t.responses.map fun g => (g.hidden, g.downloadList.map Prod.fst) by
      rw [ho]; exact List.mem_singleton_self _)
  simp only [Prod.mk.injEq] at hshown
  obtain ⟨p, hp, hp0⟩ := List.exists_of_mem_map (show 0 ∈ g.downloadList.map Prod.fst by
    rw [hshown.2]; exact List.mem_singleton_self _)
  apply (hall plainCipher t ht).shown g (.inl hg) p hp
  rw [hp0, hshown.1]
  exact List.mem_singleton_self _

end EzRemote.Download

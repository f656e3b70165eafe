import EzRemote.Download.Thread

/-!
# What each step of the download system can do

The inversion of `step`: every step of the thread moves, sweeps, saves or edits
one row, and every step of a handler moves, adds a row, saves or flags a row.
-/

namespace EzRemote.Download

/-- Steps of the thread that touch neither the list nor the file. -/
inductive Moves (s : State) : Pc → ThreadAction → Pc → Prop
  | exit : s.stopDownload = true → Moves s .checkStop .go .exited
  | enter : s.stopDownload = false → Moves s .checkStop .go .pausing
  | exitPaused : s.stopDownload = true → Moves s .pausing .go .exited
  | unpaused : s.inRestMode = false → Moves s .pausing .go .sweeping
  | passOver (i : Nat) : s.bgDownloadList[i]? = none → Moves s (.scanning i) .go .sleeping
  | scan (i : Nat) (r : BgDownloadData) : s.bgDownloadList[i]? = some r →
      Moves s (.scanning i) .go (scanRow r i)
  | acquired (i : Nat) (resume : Bool) :
      Moves s (.acquiring i resume) (.acquired true) (.starting i resume)
  | refused (i : Nat) (resume : Bool) :
      Moves s (.acquiring i resume) (.acquired false) (.scanning (i + 1))
  | failed (i : Nat) (resume : Bool) :
      Moves s (.getting i resume) (.returned 0) (.failing i resume)
  | done (i : Nat) (resume : Bool) (ret : Int) : ret ≠ 0 →
      Moves s (.getting i resume) (.returned ret) (.completing i resume)
  | resting (i : Nat) (resume : Bool) : s.inRestMode = true →
      Moves s (.failing i resume) .go .sleeping
  | awake (i : Nat) (resume : Bool) : s.inRestMode = false →
      Moves s (.failing i resume) .go (.markFailed i resume)
  | again : Moves s .sleeping .go .checkStop

/-- The places where the thread saves, with the next place. -/
inductive Saves : Pc → Pc → Prop
  | swept : Saves .sweepSave (.scanning 0)
  | started (i : Nat) : Saves (.startSave i) (.getting i false)
  | failed (i : Nat) : Saves (.failSave i) .sleeping
  | completed (i : Nat) : Saves (.completeSave i) (.scanning (i + 1))

/-- The edits of row `i` by the thread. -/
inductive Edits (s : State) (i : Nat) :
    Pc → ThreadAction → (BgDownloadData → BgDownloadData) → Pc → Prop
  | start : Edits s i (.starting i false) .go (fun r => { r with state := .downloading })
      (.startSave i)
  | resume : Edits s i (.starting i true) .go (fun r => { r with state := .resumed })
      (.getting i true)
  | progress (resume : Bool) (n : UInt64) :
      Edits s i (.getting i resume) (.progress n) (fun r => { r with bytesTransfered := n })
        (.getting i resume)
  | fail (resume : Bool) :
      Edits s i (.markFailed i resume) .go (fun r => { r with state := .failed })
        (if resume then .countAttempt i else .sleeping)
  | count (r : BgDownloadData) (hr : s.bgDownloadList[i]? = some r) :
      Edits s i (.countAttempt i) .go (fun r => { r with failedAttempts := r.failedAttempts + 1 })
        (if 5 ≤ r.failedAttempts + 1 then .failSave i else .sleeping)
  | complete (resume : Bool) :
      Edits s i (.completing i resume) .go (fun r => { r with state := .success })
        (.completeSave i)

variable (c : Cipher)

inductive ThreadStep (s : State) : Pc → ThreadAction → State → Prop
  | move {pc pc' : Pc} {a : ThreadAction} (m : Moves s pc a pc') :
      ThreadStep s pc a { s with pc := pc' }
  | sweep (pc' : Pc) (hpc : pc' = .sweepSave ∨ pc' = .scanning 0) :
      ThreadStep s .sweeping .go
        { s with
          bgDownloadList := s.bgDownloadList.filter fun r => !r.removeRequested
          pc := pc' }
  | save {pc pc' : Pc} (now : UInt64) (m : Saves pc pc') :
      ThreadStep s pc (.save now) { s.save c now with pc := pc' }
  | edit {pc pc' : Pc} {a : ThreadAction} {i : Nat} {f : BgDownloadData → BgDownloadData}
      (e : Edits s i pc a f pc') : ThreadStep s pc a { s.setRow i f with pc := pc' }

theorem thread_cases {s s' : State} {pc : Pc} {a : ThreadAction} (hpc : s.pc = pc)
    (h : stepThread c s pc a = some s') : ThreadStep c s pc a s' := by
  -- a place and an action that do not fit each other make no step
  cases pc with
  | checkStop =>
    cases a with
    | go =>
      cases h
      by_cases hs : s.stopDownload = true
      · rw [if_pos hs]
        exact .move (.exit hs)
      · rw [if_neg hs]
        exact .move (.enter (by simpa using hs))
    | _ => cases h
  | pausing =>
    cases a with
    | go =>
      unfold stepThread at h
      dsimp only at h
      split at h
      · cases h
        exact .move (.exitPaused ‹_›)
      · split at h
        · cases h
        · rename_i hrest
          cases h
          exact .move (.unpaused (by simpa using hrest))
    | _ => cases h
  | sweeping =>
    cases a with
    | go =>
      cases h
      refine .sweep _ ?_
      split
      · exact .inl rfl
      · exact .inr rfl
    | _ => cases h
  | sweepSave =>
    cases a with
    | save now =>
      cases h
      exact .save _ .swept
    | _ => cases h
  | scanning i =>
    cases a with
    | go =>
      unfold stepThread at h
      dsimp only at h
      split at h
      · cases h
        exact .move (.passOver i ‹_›)
      · cases h
        exact .move (.scan i _ ‹_›)
    | _ => cases h
  | acquiring i resume =>
    cases a with
    | acquired client =>
      cases h
      cases client
      · exact .move (.refused i resume)
      · exact .move (.acquired i resume)
    | _ => cases h
  | starting i resume =>
    cases a with
    | go =>
      cases resume
      · cases h
        exact .edit .start
      · cases h
        exact .edit .resume
    | _ => cases resume <;> cases h
  | startSave i =>
    cases a with
    | save now =>
      cases h
      exact .save now (.started i)
    | _ => cases h
  | getting i resume =>
    cases a with
    | progress n =>
      cases h
      have he := ThreadStep.edit (c := c) (s := s) (Edits.progress (s := s) (i := i) resume n)
      simpa [State.setRow, ← hpc] using he
    | returned ret =>
      cases h
      by_cases hr : ret = 0
      · rw [if_pos hr, hr]
        exact .move (.failed i resume)
      · rw [if_neg hr]
        exact .move (.done i resume ret hr)
    | _ => cases h
  | failing i resume =>
    cases a with
    | go =>
      cases h
      by_cases hrest : s.inRestMode = true
      · rw [if_pos hrest]
        exact .move (.resting i resume hrest)
      · rw [if_neg hrest]
        exact .move (.awake i resume (by simpa using hrest))
    | _ => cases h
  | markFailed i resume =>
    cases a with
    | go =>
      cases h
      exact .edit (.fail resume)
    | _ => cases h
  | countAttempt i =>
    cases a with
    | go =>
      unfold stepThread at h
      dsimp only at h
      split at h
      · rename_i r' hr'
        cases h
        obtain ⟨r, hr, rfl⟩ := Option.map_eq_some_iff.mp
          ((List.getElem?_modify_eq _ i s.bgDownloadList).symm.trans hr')
        exact .edit (.count r hr)
      · cases h
    | _ => cases h
  | failSave i =>
    cases a with
    | save now =>
      cases h
      exact .save now (.failed i)
    | _ => cases h
  | completing i resume =>
    cases a with
    | go =>
      cases h
      exact .edit (.complete resume)
    | _ => cases h
  | completeSave i =>
    cases a with
    | save now =>
      cases h
      exact .save now (.completed i)
    | _ => cases h
  | sleeping =>
    cases a with
    | go =>
      cases h
      exact .move .again
    | _ => cases h
  | exited => cases a <;> cases h

/-- The steps of handler `k`; only the last three touch the list or the file. -/
inductive HandlerStep (s : State) (k : Nat) : Handler → HandlerAction → State → Prop
  | move {h : Handler} {a : HandlerAction} (h' : Handler) (hrow : ∀ row, h' = .adding row →
      row.state = .pending ∧ row.failedAttempts = 0 ∧ row.removeRequested = false) :
      HandlerStep s k h a (s.setHandler k h')
  | refuse (req : DownloadRequest) (now : UInt64) :
      HandlerStep s k .idle (.downloadUrl req now) s
  | add (row : BgDownloadData) :
      HandlerStep s k (.adding row) .add
        ({ s with bgDownloadList := s.bgDownloadList ++ [row] }.setHandler k .saving)
  | save (now : UInt64) :
      HandlerStep s k .saving (.save now) ((s.save c now).setHandler k .idle)
  | flag (i : Nat) (r : BgDownloadData) (hr : s.bgDownloadList[i]? = some r)
      (hf : r.Finished) :
      HandlerStep s k (.clearing i) .visit
        ((s.setRow i fun r => { r with removeRequested := true }).setHandler k (.clearing (i + 1)))

theorem handler_cases {s s' : State} {k : Nat} {h : Handler} {a : HandlerAction}
    (hs : stepHandler c s k h a = some s') : HandlerStep c s k h a s' := by
  cases h with
  | idle =>
    cases a with
    | downloadUrl req now =>
      unfold stepHandler at hs
      dsimp only at hs
      split at hs
      · cases hs
        exact .refuse req now
      · rename_i row hrow
        cases hs
        refine .move _ ?_
        intro row' hrow'
        cases hrow'
        unfold DownloadRequest.downloadData at hrow
        split at hrow
        · cases hrow
        · cases hrow
          exact ⟨rfl, rfl, rfl⟩
    | clearHistory =>
      cases hs
      exact .move _ (fun _ h' => by cases h')
    | _ => cases hs
  | adding row =>
    cases a with
    | add =>
      cases hs
      exact .add row
    | _ => cases hs
  | saving =>
    cases a with
    | save now =>
      cases hs
      exact .save now
    | _ => cases hs
  | clearing i =>
    cases a with
    | visit =>
      unfold stepHandler at hs
      dsimp only at hs
      split at hs
      · cases hs
        exact .move _ (fun _ h' => by cases h')
      · rename_i r hr
        split at hs
        · cases hs
          exact .flag i r hr ‹_›
        · cases hs
          exact .move _ (fun _ h' => by cases h')
    | _ => cases hs

end EzRemote.Download

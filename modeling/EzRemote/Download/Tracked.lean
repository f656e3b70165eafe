import EzRemote.Download.Restart

/-!
# Rows and their history

The download system with numbers for its rows and a record of what happened to
them.  A row keeps its number from `AddBgDownloadData` on, through the history
file and into the next process; nothing reads the numbers.  Requests to
`/get_download_state`, which change nothing, are part of this system.
-/

namespace EzRemote.Download

/-- The item of a row in the response of `/get_download_state`. -/
def downloadItem (r : BgDownloadData) : JsonObject :=
  [("path", .string (cStr r.destPath)), ("bytes_transfered", .uint64 r.bytesTransfered),
    ("file_size", .uint64 r.fileSize), ("state", .int r.state.toInt),
    ("timestamp", .uint64 (r.timestamp / 1000000))]

/-- A `/get_download_state` request at row `i`: its response so far, each item
with the number of its row, and the rows that were flagged when it came in. -/
structure Reader where
  i : Nat
  downloadList : List (Nat × JsonObject)
  hidden : List Nat
  deriving DecidableEq, Repr

def Reader.visit (g : Reader) (n : Nat) (r : BgDownloadData) : Reader :=
  if r.removeRequested then { g with i := g.i + 1 }
  else { g with i := g.i + 1, downloadList := g.downloadList ++ [(n, downloadItem r)] }

/-- The system with the record of its rows: the number of each row in memory and
in the file, the rows as requests added them, the number that handler `k` added
last, the numbers of requests that have returned, the rows as they were when
they were flagged and when they were erased, and the responses of
`/get_download_state`. -/
structure Tracked where
  base : State
  serials : List Nat
  fileSerials : List Nat
  requests : List BgDownloadData
  adders : Nat → Option Nat
  returned : List Nat
  flagged : List (Nat × BgDownloadData)
  erased : List (Nat × BgDownloadData)
  readers : List (Option Reader)
  responses : List Reader

namespace Tracked

variable (t : Tracked)

def rows : List (Nat × BgDownloadData) := t.serials.zip t.base.bgDownloadList

def add (k : Nat) (row : BgDownloadData) : Tracked :=
  { t with
    serials := t.serials ++ [t.requests.length]
    requests := t.requests ++ [row]
    adders := Function.update t.adders k (some t.requests.length) }

def save (now : UInt64) : Tracked :=
  { t with fileSerials := (t.rows.filter fun p => retained now p.2).map Prod.fst }

def finish (k : Nat) : Tracked :=
  { t with returned := (t.adders k).toList ++ t.returned, adders := Function.update t.adders k none }

def sweep : Tracked :=
  { t with
    serials := (t.rows.filter fun p => !p.2.removeRequested).map Prod.fst
    erased := t.rows.filter (fun p => p.2.removeRequested) ++ t.erased }

def flag (i : Nat) : Tracked :=
  match t.rows[i]? with
  | some p => if p.2.Finished then { t with flagged := p :: t.flagged } else t
  | none => t

def reload : Tracked :=
  { t with
    serials := t.fileSerials
    adders := fun _ => none
    readers := t.readers.map fun _ => none }

/-- What an action of the thread leaves in the record. -/
def trackThread : ThreadAction → Tracked
  | .go => if t.base.pc = .sweeping then t.sweep else t
  | .save now => t.save now
  | _ => t

/-- What an action of handler `k` leaves in the record. -/
def trackHandler (k : Nat) (hd : Option Handler) : HandlerAction → Tracked
  | .add =>
    match hd with
    | some (.adding row) => t.add k row
    | _ => t
  | .save now => (t.save now).finish k
  | .visit =>
    match hd with
    | some (.clearing i) => t.flag i
    | _ => t
  | _ => t

def track : Action → Tracked
  | .thread a => t.trackThread a
  | .handler k a => t.trackHandler k t.base.handlers[k]? a
  | .restart => t.reload
  | .pause | .resume | .stop => t

theorem getElem?_rows {i n : Nat} {r : BgDownloadData} :
    t.rows[i]? = some (n, r) ↔ t.serials[i]? = some n ∧ t.base.bgDownloadList[i]? = some r :=
  List.getElem?_zip_eq_some

theorem flag_of_not {i : Nat}
    (h : ∀ r, t.base.bgDownloadList[i]? = some r → ¬ r.Finished) : t.flag i = t := by
  unfold flag
  cases hp : t.rows[i]? with
  | none => rfl
  | some p => exact if_neg (h p.2 (t.getElem?_rows.mp hp).2)

end Tracked

inductive TrackedAction
  | run (a : Action)
  | getDownloadState (k : Nat)
  | visitState (k : Nat)
  deriving DecidableEq, Repr

variable (c : Cipher)

/-- One step of the process, or one of a `/get_download_state` request. -/
def trackedStep (t : Tracked) : TrackedAction → Option Tracked
  | .run a => (step c t.base a).map fun s => { t.track a with base := s }
  | .getDownloadState k =>
    match t.readers[k]? with
    | some none =>
      some { t with readers := t.readers.set k (some ⟨0, [], t.flagged.map Prod.fst⟩) }
    | _ => none
  | .visitState k =>
    match t.readers[k]? with
    | some (some g) =>
      match t.rows[g.i]? with
      | none => some { t with readers := t.readers.set k none, responses := g :: t.responses }
      | some p => some { t with readers := t.readers.set k (some (g.visit p.1 p.2)) }
    | _ => none

/-- A process that has just started, with `m` readers; its rows are numbered
from 0 on. -/
def Tracked.start (base : State) (m : Nat) : Tracked :=
  { base := base
    serials := List.range base.bgDownloadList.length
    fileSerials := List.range base.bgDownloadList.length
    requests := base.bgDownloadList
    adders := fun _ => none
    returned := []
    flagged := []
    erased := []
    readers := List.replicate m none
    responses := [] }

/-- The steps of the process, by what they do to the rows and the file. -/
inductive TrackedStep (t : Tracked) : Action → Tracked → Prop
  | quiet {a : Action} (s : State) (hlist : s.bgDownloadList = t.base.bgDownloadList)
      (hfile : s.file = t.base.file)
      (hadding : ∀ k row, s.handlers[k]? = some (.adding row) →
        t.base.handlers[k]? = some (.adding row) ∨
          ∃ req now, a = .handler k (.downloadUrl req now) ∧ req.downloadData now = some row) :
      TrackedStep t a { t with base := s }
  | edit {a : ThreadAction} {i : Nat} {f : BgDownloadData → BgDownloadData} {pc' : Pc}
      (e : Edits t.base i t.base.pc a f pc') :
      TrackedStep t (.thread a) { t with base := { t.base.setRow i f with pc := pc' } }
  | sweep {a : Action} (pc' : Pc) :
      TrackedStep t a
        { t.sweep with
          base := { t.base with
            bgDownloadList := t.base.bgDownloadList.filter fun r => !r.removeRequested
            pc := pc' } }
  | threadSave (now : UInt64) (pc' : Pc) :
      TrackedStep t (.thread (.save now))
        { t.save now with base := { t.base.save c now with pc := pc' } }
  | handlerSave (k : Nat) (now : UInt64) (hk : t.base.handlers[k]? = some .saving) :
      TrackedStep t (.handler k (.save now))
        { (t.save now).finish k with base := (t.base.save c now).setHandler k .idle }
  | add (k : Nat) (row : BgDownloadData) (hk : t.base.handlers[k]? = some (.adding row)) :
      TrackedStep t (.handler k .add)
        { t.add k row with
          base := { t.base with
            bgDownloadList := t.base.bgDownloadList ++ [row] }.setHandler k .saving }
  | flag (k i : Nat) (r : BgDownloadData) (hr : t.base.bgDownloadList[i]? = some r)
      (hf : r.Finished) :
      TrackedStep t (.handler k .visit)
        { t.flag i with
          base := (t.base.setRow i fun r => { r with removeRequested := true }).setHandler k
            (.clearing (i + 1)) }
  | restart (s : State) (hs : boot c t.base.file t.base.handlers.length = some s) :
      TrackedStep t .restart { t.reload with base := s }

variable {c}

theorem tracked_thread {t : Tracked} {a : ThreadAction} {s : State}
    (st : ThreadStep c t.base t.base.pc a s) :
    TrackedStep c t (.thread a) { t.track (.thread a) with base := s } := by
  generalize hpc : t.base.pc = pc at st
  cases st with
  | @move _ pc' _ m =>
    have htrack : t.track (.thread a) = t := by
      cases m <;> simp [Tracked.track, Tracked.trackThread, hpc]
    rw [htrack]
    exact .quiet _ rfl rfl fun _ _ h => .inl h
  | sweep pc' h =>
    have htrack : t.track (.thread .go) = t.sweep := if_pos hpc
    rw [htrack]
    exact .sweep pc'
  | save now m => exact .threadSave now _
  | edit e =>
    have htrack : t.track (.thread a) = t := by
      cases e <;> simp [Tracked.track, Tracked.trackThread, hpc]
    rw [htrack]
    rw [← hpc] at e
    exact .edit e

theorem handlers_setHandler {s : State} {k j : Nat} {h : Handler} {row : BgDownloadData}
    (hj : (s.setHandler k h).handlers[j]? = some (.adding row)) :
    s.handlers[j]? = some (.adding row) ∨ j = k ∧ h = .adding row := by
  change (s.handlers.set k h)[j]? = some (.adding row) at hj
  rw [List.getElem?_set] at hj
  split at hj
  · split at hj
    · exact .inr ⟨Eq.symm ‹_›, Option.some.inj hj⟩
    · cases hj
  · exact .inl hj

theorem tracked_handler {t : Tracked} {k : Nat} {hd : Handler} {a : HandlerAction} {s : State}
    (hk : t.base.handlers[k]? = some hd) (h : stepHandler c t.base k hd a = some s) :
    TrackedStep c t (.handler k a) { t.track (.handler k a) with base := s } := by
  -- a handler that only moves, and adds nothing later
  have hmove : ∀ h' : Handler, (∀ row, h' ≠ .adding row) →
      TrackedStep c t (.handler k a) { t with base := t.base.setHandler k h' } := by
    intro h' hne
    refine .quiet _ rfl rfl ?_
    intro j row hj
    exact .inl ((handlers_setHandler hj).resolve_right fun hr => hne row hr.2)
  cases hd with
  | idle =>
    cases a with
    | downloadUrl req now =>
      unfold stepHandler at h
      dsimp only at h
      split at h
      · cases h
        exact .quiet _ rfl rfl fun _ _ h => .inl h
      · rename_i row hrow
        cases h
        refine .quiet _ rfl rfl ?_
        intro j row' hj
        rcases handlers_setHandler hj with hj | ⟨rfl, hadd⟩
        · exact .inl hj
        · cases hadd
          exact .inr ⟨req, now, rfl, hrow⟩
    | clearHistory =>
      cases h
      exact hmove _ fun _ h' => by cases h'
    | _ => cases h
  | adding row =>
    cases a with
    | add =>
      cases h
      have htrack : t.track (.handler k .add) = t.add k row := by
        show t.trackHandler k t.base.handlers[k]? .add = _
        rw [hk]
        rfl
      rw [htrack]
      exact .add k row hk
    | _ => cases h
  | saving =>
    cases a with
    | save now =>
      cases h
      exact .handlerSave k now hk
    | _ => cases h
  | clearing i =>
    cases a with
    | visit =>
      have htrack : t.track (.handler k .visit) = t.flag i := by
        show t.trackHandler k t.base.handlers[k]? .visit = _
        rw [hk]
        rfl
      rw [htrack]
      unfold stepHandler at h
      dsimp only at h
      split at h
      · rename_i hnone
        cases h
        rw [t.flag_of_not fun r hr => by rw [hnone] at hr; cases hr]
        exact hmove _ fun _ h' => by cases h'
      · rename_i r hr
        split at h
        · cases h
          exact .flag k i r hr ‹_›
        · rename_i hfin
          cases h
          rw [t.flag_of_not fun r' hr' => by rw [hr] at hr'; cases hr'; exact hfin]
          exact hmove _ fun _ h' => by cases h'
    | _ => cases h

theorem tracked_cases {t t' : Tracked} {a : Action} (h : trackedStep c t (.run a) = some t') :
    TrackedStep c t a t' := by
  obtain ⟨s, hs, rfl⟩ := Option.map_eq_some_iff.mp h
  cases a with
  | thread a => exact tracked_thread (thread_cases c rfl hs)
  | handler k a =>
    obtain ⟨hd, hk, hst⟩ := Option.bind_eq_some_iff.mp hs
    exact tracked_handler hk hst
  | restart => exact .restart s hs
  | pause | resume | stop =>
    cases hs
    exact .quiet _ rfl rfl fun _ _ h => .inl h

theorem getDownloadState_eq {t t' : Tracked} {k : Nat}
    (h : trackedStep c t (.getDownloadState k) = some t') :
    t' = { t with readers := t.readers.set k (some ⟨0, [], t.flagged.map Prod.fst⟩) } := by
  unfold trackedStep at h
  dsimp only at h
  split at h
  · cases h
    rfl
  · cases h

theorem visitState_cases {t t' : Tracked} {k : Nat}
    (h : trackedStep c t (.visitState k) = some t') :
    ∃ g, some g ∈ t.readers ∧
      (t' = { t with readers := t.readers.set k none, responses := g :: t.responses } ∨
        ∃ n r, (n, r) ∈ t.rows ∧
          t' = { t with readers := t.readers.set k (some (g.visit n r)) }) := by
  unfold trackedStep at h
  dsimp only at h
  split at h
  · rename_i g hg
    refine ⟨g, List.mem_of_getElem? hg, ?_⟩
    split at h
    · cases h
      exact .inl rfl
    · rename_i p hp
      cases h
      exact .inr ⟨p.1, p.2, List.mem_of_getElem? hp, rfl⟩
  · cases h

end EzRemote.Download

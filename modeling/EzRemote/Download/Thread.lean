import EzRemote.Lib.Transition
import EzRemote.Download.History

/-!
# DownloadFilesThread and the requests around it

One action is one access of the thread to a row, to `in_rest_mode` or to the
history file, one whole sweep, or one such access of a request handler or of the
system event thread; they interleave at any of these points.  A transfer may
take any number of actions and return anything.
-/

namespace EzRemote.Download

/-- What `/download_url` reads from its JSON body. -/
structure DownloadRequest where
  hostInfo : HostInfo
  srcPath : Bytes
  destPath : Bytes
  size : UInt64
  id : UInt64
  deriving DecidableEq, Repr

/-- The record that `/download_url` adds; `none` is the answer
`Required parameters are missing`. -/
def DownloadRequest.downloadData (req : DownloadRequest) (now : UInt64) : Option BgDownloadData :=
  if req.hostInfo.url = [] ∨ req.srcPath = [] ∨ req.destPath = [] then none
  else some
    { hostInfo := req.hostInfo
      srcPath := req.srcPath
      destPath := req.destPath
      bytesTransfered := 0
      fileSize := req.size
      state := .pending
      id := req.id
      timestamp := now
      failedAttempts := 0 }

/-- Where `DownloadFilesThread` is.  The flag says whether row `i` is in the
resume branch. -/
inductive Pc
  | checkStop
  | pausing
  | sweeping
  | sweepSave
  | scanning (i : Nat)
  | acquiring (i : Nat) (resume : Bool)
  | starting (i : Nat) (resume : Bool)
  | startSave (i : Nat)
  | getting (i : Nat) (resume : Bool)
  | failing (i : Nat) (resume : Bool)
  | markFailed (i : Nat) (resume : Bool)
  | countAttempt (i : Nat)
  | failSave (i : Nat)
  | completing (i : Nat) (resume : Bool)
  | completeSave (i : Nat)
  | sleeping
  | exited
  deriving DecidableEq, Repr

/-- Where a request handler is: `/download_url` between its two calls, or
`/clear_download_history` at a row. -/
inductive Handler
  | idle
  | adding (row : BgDownloadData)
  | saving
  | clearing (i : Nat)
  deriving DecidableEq, Repr

structure State where
  bgDownloadList : List BgDownloadData
  file : Option (List JsonObject)
  inRestMode : Bool
  stopDownload : Bool
  pc : Pc
  handlers : List Handler
  deriving DecidableEq, Repr

namespace State

def setRow (s : State) (i : Nat) (f : BgDownloadData → BgDownloadData) : State :=
  { s with bgDownloadList := s.bgDownloadList.modify i f }

def setHandler (s : State) (k : Nat) (h : Handler) : State :=
  { s with handlers := s.handlers.set k h }

def save (s : State) (c : Cipher) (now : UInt64) : State :=
  { s with file := some (saveBgDownloadData c now s.bgDownloadList) }

end State

/-- What resolves a step of the thread: the clock of a save, whether
`AcquireRemoteClient` returned a client, what a transfer does and returns. -/
inductive ThreadAction
  | go
  | save (now : UInt64)
  | acquired (client : Bool)
  | progress (bytesTransfered : UInt64)
  | returned (ret : Int)
  deriving DecidableEq, Repr

inductive HandlerAction
  | downloadUrl (req : DownloadRequest) (now : UInt64)
  | add
  | save (now : UInt64)
  | clearHistory
  | visit
  deriving DecidableEq, Repr

inductive Action
  | thread (a : ThreadAction)
  | handler (k : Nat) (a : HandlerAction)
  | pause
  | resume
  | stop
  | restart
  deriving DecidableEq, Repr

/-- The branch that a pass takes for a row. -/
def scanRow (r : BgDownloadData) (i : Nat) : Pc :=
  if r.state = .pending then .acquiring i false
  else if r.Interrupted then .acquiring i true
  else .scanning (i + 1)

variable (c : Cipher)

/-- One step of `DownloadFilesThread`. -/
def stepThread (s : State) : Pc → ThreadAction → Option State
  | .checkStop, .go => some { s with pc := if s.stopDownload then .exited else .pausing }
  | .pausing, .go =>
    if s.stopDownload then some { s with pc := .exited }
    else if s.inRestMode then none
    else some { s with pc := .sweeping }
  | .sweeping, .go =>
    let kept := s.bgDownloadList.filter fun r => !r.removeRequested
    let removedAny := kept.length < s.bgDownloadList.length
    some { s with bgDownloadList := kept, pc := if removedAny then .sweepSave else .scanning 0 }
  | .sweepSave, .save now => some { s.save c now with pc := .scanning 0 }
  | .scanning i, .go =>
    match s.bgDownloadList[i]? with
    | none => some { s with pc := .sleeping }
    | some r => some { s with pc := scanRow r i }
  | .acquiring i resume, .acquired client =>
    some { s with pc := if client then .starting i resume else .scanning (i + 1) }
  | .starting i false, .go =>
    some { s.setRow i (fun r => { r with state := .downloading }) with pc := .startSave i }
  | .starting i true, .go =>
    some { s.setRow i (fun r => { r with state := .resumed }) with pc := .getting i true }
  | .startSave i, .save now => some { s.save c now with pc := .getting i false }
  | .getting i _, .progress bytesTransfered =>
    some (s.setRow i fun r => { r with bytesTransfered := bytesTransfered })
  | .getting i resume, .returned ret =>
    some { s with pc := if ret = 0 then .failing i resume else .completing i resume }
  -- a failure in rest mode leaves the row as it is
  | .failing i resume, .go =>
    some { s with pc := if s.inRestMode then .sleeping else .markFailed i resume }
  | .markFailed i resume, .go =>
    some { s.setRow i (fun r => { r with state := .failed }) with
      pc := if resume then .countAttempt i else .sleeping }
  | .countAttempt i, .go =>
    let s' := s.setRow i fun r => { r with failedAttempts := r.failedAttempts + 1 }
    match s'.bgDownloadList[i]? with
    | some r => some { s' with pc := if 5 ≤ r.failedAttempts then .failSave i else .sleeping }
    | none => none
  | .failSave _, .save now => some { s.save c now with pc := .sleeping }
  | .completing i _, .go =>
    some { s.setRow i (fun r => { r with state := .success }) with pc := .completeSave i }
  | .completeSave i, .save now => some { s.save c now with pc := .scanning (i + 1) }
  | .sleeping, .go => some { s with pc := .checkStop }
  | _, _ => none

/-- One step of request handler `k`. -/
def stepHandler (s : State) (k : Nat) : Handler → HandlerAction → Option State
  | .idle, .downloadUrl req now =>
    match req.downloadData now with
    | none => some s
    | some row => some (s.setHandler k (.adding row))
  | .adding row, .add =>
    some ({ s with bgDownloadList := s.bgDownloadList ++ [row] }.setHandler k .saving)
  | .saving, .save now => some ((s.save c now).setHandler k .idle)
  | .idle, .clearHistory => some (s.setHandler k (.clearing 0))
  | .clearing i, .visit =>
    match s.bgDownloadList[i]? with
    | none => some (s.setHandler k .idle)
    | some r =>
      if r.Finished then
        some ((s.setRow i fun r => { r with removeRequested := true }).setHandler k
          (.clearing (i + 1)))
      else some (s.setHandler k (.clearing (i + 1)))
  | _, _ => none

/-- A process that has just called `LoadBgDownloadData`, with `n` handlers. -/
def boot (file : Option (List JsonObject)) (n : Nat) : Option State :=
  ((file.map (loadBgDownloadData c)).getD (some [])).map fun rows =>
    { bgDownloadList := rows, file := file, inRestMode := false, stopDownload := false
      pc := .checkStop, handlers := List.replicate n .idle }

/-- One step of the process, or its end and the start of the next one. -/
def step (s : State) : Action → Option State
  | .thread a => stepThread c s s.pc a
  | .handler k a => (s.handlers[k]?).bind fun h => stepHandler c s k h a
  | .pause => some { s with inRestMode := true }
  | .resume => some { s with inRestMode := false }
  | .stop => some { s with stopDownload := true }
  | .restart => boot c s.file s.handlers.length

/-- States of runs that begin without a history file and whose steps all
satisfy `ok`. -/
def Reachable (ok : State → Action → Prop) : State → Prop :=
  Transition.Reachable (fun s => ∃ n, boot c none n = some s) (step c) ok

theorem exists_reachable (ok : State → Action → Prop) [∀ s a, Decidable (ok s a)] (n : Nat)
    (as : List Action) {β : Type} (f : State → β) (b : β)
    (hr : ((boot c none n).bind fun s => (Transition.run (step c) ok s as).map f) = some b) :
    ∃ s, Reachable c ok s ∧ f s = b := by
  obtain ⟨s, hs, hrun⟩ := Option.bind_eq_some_iff.mp hr
  exact Transition.exists_reachable_of_run ⟨n, hs⟩ as f b hrun

end EzRemote.Download

import Mathlib.Data.List.Flatten
import EzRemote.Lib.Lifetime

/-!
# The context of NfsClient

`Connect`, `Get`, `GetRange` and `Quit` of `clients/nfsclient.cpp` as far as they
make calls of libnfs on a context, from `CreatePooledClient` to
`DestroyPooledClient`.
-/

namespace EzRemote.Session

open Lifetime (Clean)

abbrev NfsContext := Option Nat

/-- The functions of libnfs that work on a context. -/
inductive NfsFunction
  | parseUrlFull | getError | mount | umount | open | lseek | read | close
  deriving DecidableEq, Repr

/-- A call of libnfs.  `nfs_destroy_url` takes no context. -/
inductive NfsCall
  | initContext (result : NfsContext)
  | call (function : NfsFunction) (nfs : NfsContext)
  | destroyContext (nfs : NfsContext)
  deriving DecidableEq, Repr

/-- What a call does to contexts; the null pointer is never alive. -/
def NfsCall.events : NfsCall → List (Lifetime.Event NfsContext)
  | .initContext none => []
  | .initContext (some nfs) => [.opened (some nfs)]
  | .call _ nfs => [.used nfs]
  | .destroyContext nfs => [.closed nfs]

/-- The members of `NfsClient` that its calls depend on. -/
structure NfsClient where
  nfs : NfsContext
  connected : Bool
  deriving DecidableEq, Repr

namespace NfsClient

def isConnected (client : NfsClient) : Bool := client.nfs.isSome && client.connected

/-- How the calls of `Connect` come out: the context, whether the url is parsed,
and the result of `nfs_mount`. -/
structure ConnectCalls where
  context : NfsContext
  url : Bool
  mount : Int
  deriving DecidableEq, Repr

/-- `Connect` of a new client, whose `nfs` has no value yet. -/
def connect (calls : ConnectCalls) : Int × NfsClient × List NfsCall :=
  let nfs := calls.context
  if nfs = none then (0, ⟨nfs, false⟩, [.initContext nfs])
  -- `nfs` keeps the address of the destroyed context
  else if calls.url = false then
    (0, ⟨nfs, false⟩,
      [.initContext nfs, .call .parseUrlFull nfs, .call .getError nfs, .destroyContext nfs])
  else if calls.mount ≠ 0 then
    (0, ⟨none, false⟩,
      [.initContext nfs, .call .parseUrlFull nfs, .call .mount nfs, .call .getError nfs,
        .destroyContext nfs])
  else (1, ⟨nfs, true⟩, [.initContext nfs, .call .parseUrlFull nfs, .call .mount nfs])

def quit (client : NfsClient) : Int × NfsClient × List NfsCall :=
  if client.nfs ≠ none then
    (1, ⟨none, false⟩, [.call .umount client.nfs, .destroyContext client.nfs])
  else (1, ⟨none, false⟩, [])

/-- The read loop of `Get`; a read behind those listed finds the end of the
file. -/
def getLoop (nfs : NfsContext) : List Int → Int × List NfsCall
  | [] => (1, [.call .read nfs, .call .close nfs])
  | count :: reads =>
    if count = 0 then (1, [.call .read nfs, .call .close nfs])
    else if count < 0 then (0, [.call .read nfs, .call .getError nfs, .call .close nfs])
    else
      let r := getLoop nfs reads
      (r.1, .call .read nfs :: r.2)

/-- How the calls of `Get` come out: the result of `nfs_open`, whether the local
file opens, and the results of `nfs_read`. -/
structure GetCalls where
  opened : Int
  out : Bool
  reads : List Int
  deriving DecidableEq, Repr

def get (client : NfsClient) (offset : UInt64) (calls : GetCalls) : Int × List NfsCall :=
  let nfs := client.nfs
  if calls.opened ≠ 0 then (0, [.call .open nfs, .call .getError nfs])
  else if calls.out = false then (0, [.call .open nfs])
  else
    let r := getLoop nfs calls.reads
    (r.1, .call .open nfs :: (if 0 < offset then [.call .lseek nfs] else []) ++ r.2)

/-- How the calls of `GetRange` come out; each read with what `sink.write` says
to its bytes. -/
structure RangeCalls where
  opened : Int
  lseek : Int
  buff : Bool
  reads : List (Int × Bool)
  deriving DecidableEq, Repr

/-- The loop of `GetRange`.  A read returns at most what it is asked for. -/
def rangeLoop (nfs : NfsContext) : List (Int × Bool) → Nat → Int × List NfsCall
  | [], bytesRemaining => if 0 < bytesRemaining then (0, [.call .read nfs]) else (1, [])
  | (count, taken) :: reads, bytesRemaining =>
    if 0 < bytesRemaining then
      if count < 0 then (0, [.call .read nfs, .call .getError nfs])
      else if count = 0 then (0, [.call .read nfs])
      else if taken = false then (0, [.call .read nfs])
      else
        let r := rangeLoop nfs reads (bytesRemaining - count.toNat)
        (r.1, .call .read nfs :: r.2)
    else (1, [])

/-- `GetRange` of an open file. -/
def getRangeFile (client : NfsClient) (size : UInt64) (calls : RangeCalls) : Int × List NfsCall :=
  let nfs := client.nfs
  if calls.lseek ≠ 0 then (0, [.call .lseek nfs, .call .getError nfs])
  else if calls.buff = false then (0, [.call .lseek nfs])
  else
    let r := rangeLoop nfs calls.reads size.toNat
    (r.1, .call .lseek nfs :: r.2)

def getRange (client : NfsClient) (size : UInt64) (calls : RangeCalls) : Int × List NfsCall :=
  let nfs := client.nfs
  if calls.opened ≠ 0 then (0, [.call .open nfs, .call .getError nfs])
  else
    let r := getRangeFile client size calls
    (r.1, .call .open nfs :: r.2 ++ [.call .close nfs])

inductive Transfer
  | get (offset : UInt64) (calls : GetCalls)
  | getRange (size : UInt64) (calls : RangeCalls)
  deriving DecidableEq, Repr

/-- No transfer changes the members of the client. -/
def Transfer.run (client : NfsClient) : Transfer → Int × List NfsCall
  | .get offset calls => client.get offset calls
  | .getRange size calls => client.getRange size calls

/-- The calls of a client from `CreatePooledClient` to `DestroyPooledClient`,
which nothing keeps from using it when `Connect` has failed. -/
def life (calls : ConnectCalls) (transfers : List Transfer) : List NfsCall :=
  let client := (connect calls).2.1
  (connect calls).2.2 ++ transfers.flatMap (fun t => (t.run client).2) ++ client.quit.2.2

/-- No call is made on a null or destroyed context, and a context is destroyed
exactly once. -/
def ContextsAlive (log : List NfsCall) : Prop := Clean (log.flatMap NfsCall.events)

instance (log : List NfsCall) : Decidable (ContextsAlive log) :=
  inferInstanceAs (Decidable (Clean _))

/-- Every call of a transfer is made on the context of the client. -/
def OnContext (nfs : NfsContext) (log : List NfsCall) : Prop :=
  ∀ c ∈ log, ∃ f, c = .call f nfs

theorem onContext_nil (nfs : NfsContext) : OnContext nfs [] := fun _ h => nomatch h

theorem OnContext.cons {nfs : NfsContext} {log : List NfsCall} (h : OnContext nfs log)
    (f : NfsFunction) : OnContext nfs (.call f nfs :: log) := by
  intro c hc
  rcases List.mem_cons.mp hc with rfl | hc
  · exact ⟨f, rfl⟩
  · exact h c hc

theorem OnContext.concat {nfs : NfsContext} {log : List NfsCall} (h : OnContext nfs log)
    (f : NfsFunction) : OnContext nfs (log ++ [.call f nfs]) := by
  intro c hc
  rcases List.mem_append.mp hc with hc | hc
  · exact h c hc
  · exact ⟨f, List.mem_singleton.mp hc⟩

theorem onContext_getLoop (nfs : NfsContext) (reads : List Int) :
    OnContext nfs (getLoop nfs reads).2 := by
  induction reads with
  | nil => exact ((onContext_nil nfs).cons .close).cons .read
  | cons count reads ih =>
    unfold getLoop
    by_cases h0 : count = 0
    · rw [if_pos h0]
      exact ((onContext_nil nfs).cons .close).cons .read
    · rw [if_neg h0]
      by_cases hneg : count < 0
      · rw [if_pos hneg]
        exact (((onContext_nil nfs).cons .close).cons .getError).cons .read
      · rw [if_neg hneg]
        exact ih.cons .read

theorem onContext_rangeLoop (nfs : NfsContext) (reads : List (Int × Bool)) (bytesRemaining : Nat) :
    OnContext nfs (rangeLoop nfs reads bytesRemaining).2 := by
  have hread : OnContext nfs [.call .read nfs] := (onContext_nil nfs).cons .read
  induction reads generalizing bytesRemaining with
  | nil =>
    unfold rangeLoop
    split
    · exact hread
    · exact onContext_nil nfs
  | cons read reads ih =>
    obtain ⟨count, taken⟩ := read
    unfold rangeLoop
    by_cases hrem : 0 < bytesRemaining
    · rw [if_pos hrem]
      by_cases hneg : count < 0
      · rw [if_pos hneg]
        exact ((onContext_nil nfs).cons .getError).cons .read
      · rw [if_neg hneg]
        split
        · exact hread
        · split
          · exact hread
          · exact (ih _).cons .read
    · rw [if_neg hrem]
      exact onContext_nil nfs

theorem onContext_getRangeFile (client : NfsClient) (size : UInt64) (calls : RangeCalls) :
    OnContext client.nfs (client.getRangeFile size calls).2 := by
  unfold getRangeFile
  split
  · exact ((onContext_nil _).cons .getError).cons .lseek
  · split
    · exact (onContext_nil _).cons .lseek
    · exact (onContext_rangeLoop _ _ _).cons .lseek

/-- A transfer begins with `nfs_open`, and all its calls are made on the context
of the client. -/
theorem run_eq (client : NfsClient) (t : Transfer) :
    ∃ log, (t.run client).2 = .call .open client.nfs :: log ∧ OnContext client.nfs log := by
  cases t with
  | get offset calls =>
    show ∃ log, (client.get offset calls).2 = _ ∧ _
    unfold get
    split
    · exact ⟨_, rfl, (onContext_nil _).cons .getError⟩
    · split
      · exact ⟨_, rfl, onContext_nil _⟩
      · refine ⟨_, rfl, ?_⟩
        have hloop := onContext_getLoop client.nfs calls.reads
        by_cases hoff : 0 < offset
        · rw [if_pos hoff]
          exact hloop.cons .lseek
        · rw [if_neg hoff]
          exact hloop
  | getRange size calls =>
    show ∃ log, (client.getRange size calls).2 = _ ∧ _
    unfold getRange
    split
    · exact ⟨_, rfl, (onContext_nil _).cons .getError⟩
    · exact ⟨_, rfl, (onContext_getRangeFile client size calls).concat .close⟩

theorem transfers_events (client : NfsClient) (transfers : List Transfer) :
    ∀ e ∈ (transfers.flatMap fun t => (t.run client).2).flatMap NfsCall.events,
      e = .used client.nfs := by
  intro e he
  obtain ⟨c, hc, he⟩ := List.mem_flatMap.mp he
  obtain ⟨t, -, hc⟩ := List.mem_flatMap.mp hc
  obtain ⟨log, hlog, hon⟩ := run_eq client t
  obtain ⟨f, rfl⟩ := hon.cons .open c (hlog ▸ hc)
  exact List.mem_singleton.mp he

theorem after_transfers_dead {client : NfsClient} {alive : List NfsContext}
    (h : client.nfs ∉ alive) {transfers : List Transfer} (hne : transfers ≠ [])
    (rest : List (Lifetime.Event NfsContext)) :
    Lifetime.after alive
      ((transfers.flatMap fun t => (t.run client).2).flatMap NfsCall.events ++ rest) = none := by
  obtain ⟨t, transfers, rfl⟩ := List.exists_cons_of_ne_nil hne
  obtain ⟨log, hlog, -⟩ := run_eq client t
  rw [List.flatMap_cons, hlog]
  exact Lifetime.after_used_dead h _

/-- The outcomes of `Connect` after which the pool's use of the client is sound:
the mount succeeds, or `nfs` is left null and no transfer follows. -/
def Sound (calls : ConnectCalls) (transfers : List Transfer) : Prop :=
  if calls.context = none then transfers = []
  else calls.url = true ∧ (calls.mount = 0 ∨ transfers = [])

instance (calls : ConnectCalls) (transfers : List Transfer) : Decidable (Sound calls transfers) :=
  inferInstanceAs (Decidable (ite _ _ _))

/-- The contexts of a client are used only while they are alive exactly where
`Connect` has succeeded, or has failed with a null pointer before no transfer. -/
theorem contexts_alive_iff (calls : ConnectCalls) (transfers : List Transfer) :
    ContextsAlive (life calls transfers) ↔ Sound calls transfers := by
  obtain ⟨context, url, mount⟩ := calls
  unfold ContextsAlive Clean life Sound
  rw [List.flatMap_append, List.flatMap_append, List.append_assoc]
  -- where the context is dead, the transfers decide
  have hnull : ∀ client : NfsClient, client.nfs = none →
      (Lifetime.after [] ((transfers.flatMap fun t => (t.run client).2).flatMap NfsCall.events ++
        client.quit.2.2.flatMap NfsCall.events) = some [] ↔ transfers = []) := by
    intro client hnfs
    by_cases hne : transfers = []
    · refine iff_of_true ?_ hne
      unfold quit
      rw [hne, if_neg (not_not.mpr hnfs)]
      rfl
    · refine iff_of_false ?_ hne
      rw [after_transfers_dead List.not_mem_nil hne]
      exact nofun
  cases context with
  | none => exact hnull ⟨none, false⟩ rfl
  | some nfs =>
    rw [if_neg (Option.some_ne_none nfs)]
    cases url with
    | false =>
      refine iff_of_false ?_ (fun h => nomatch h.1)
      -- `Quit` works on the destroyed context, if no transfer has done so before
      have hconnect : Lifetime.after []
          ((connect ⟨some nfs, false, mount⟩).2.2.flatMap NfsCall.events) = some [] := by
        simp [connect, NfsCall.events, Lifetime.after]
      rw [Lifetime.after_append_of hconnect]
      by_cases hne : transfers = []
      · rw [hne]
        exact nofun
      · rw [after_transfers_dead List.not_mem_nil hne]
        exact nofun
    | true =>
      by_cases hmount : mount = 0
      · refine iff_of_true ?_ ⟨rfl, .inl hmount⟩
        have hconnect : Lifetime.after []
            ((connect ⟨some nfs, true, mount⟩).2.2.flatMap NfsCall.events) = some [some nfs] := by
          simp [connect, NfsCall.events, Lifetime.after, hmount]
        have hnfs : (connect ⟨some nfs, true, mount⟩).2.1 = ⟨some nfs, true⟩ := by
          simp [connect, hmount]
        have htransfers : Lifetime.after [some nfs] ((transfers.flatMap fun t =>
            (t.run ⟨some nfs, true⟩).2).flatMap NfsCall.events) = some [some nfs] :=
          Lifetime.after_uses List.mem_cons_self (transfers_events ⟨some nfs, true⟩ transfers)
        rw [Lifetime.after_append_of hconnect, hnfs, Lifetime.after_append_of htransfers]
        simp [quit, NfsCall.events, Lifetime.after]
      · have hconnect : Lifetime.after []
            ((connect ⟨some nfs, true, mount⟩).2.2.flatMap NfsCall.events) = some [] := by
          simp [connect, NfsCall.events, Lifetime.after, hmount]
        have hnfs : (connect ⟨some nfs, true, mount⟩).2.1 = ⟨none, false⟩ := by
          simp [connect, hmount]
        rw [Lifetime.after_append_of hconnect, hnfs, hnull ⟨none, false⟩ rfl]
        simp [hmount]

/-- A url that libnfs does not parse, and a server that does not mount: `Quit`
destroys the context a second time, and `Get` works on the null pointer. -/
theorem contexts_alive_iff_dead :
    ¬ ContextsAlive (life ⟨some 1, false, 0⟩ []) ∧
      ¬ ContextsAlive (life ⟨some 1, true, -1⟩ [.get 0 ⟨0, true, [3]⟩]) ∧
      ContextsAlive (life ⟨some 1, true, 0⟩ [.get 0 ⟨0, true, [3]⟩]) := by
  decide

end NfsClient

end EzRemote.Session

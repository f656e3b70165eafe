import EzRemote.Lib.Transition
import EzRemote.Lib.Counting
import EzRemote.Pool.Client

/-!
# The client pool under interleaving

The three maps of the pool, the critical sections of `AcquireRemoteClient`,
`ReleasePooledClient` and `ClearClientPool`, and the program of a caller around
them.  One action is one critical section, one construction, one `Connect` or
one destruction; callers interleave at any of these points.  An address may be
allocated again once the client at it has been deleted.
-/

namespace EzRemote.Pool

/-- `RemoteClient *`. -/
abbrev Ptr := Nat

/-- `client_pool_idle`, `client_pool_key` and `client_pool_idle_since`.  A vector
is kept newest first: its head is `back()`. -/
structure ClientPool where
  clientPoolIdle : AList fun _ : Bytes => List Ptr
  clientPoolKey : Ptr → Option Bytes
  clientPoolIdleSince : Ptr → Option Int

namespace ClientPool

def empty : ClientPool := ⟨∅, fun _ => none, fun _ => none⟩

/-- Every pointer in every idle vector. -/
def idlePtrs (pool : ClientPool) : List Ptr := Counting.values pool.clientPoolIdle

def setIdle (pool : ClientPool) (key : Bytes) (idle : List Ptr) : ClientPool :=
  { pool with clientPoolIdle := pool.clientPoolIdle.insert key idle }

def setKey (pool : ClientPool) (p : Ptr) (key : Option Bytes) : ClientPool :=
  { pool with clientPoolKey := Function.update pool.clientPoolKey p key }

def setIdleSince (pool : ClientPool) (p : Ptr) (since : Option Int) : ClientPool :=
  { pool with clientPoolIdleSince := Function.update pool.clientPoolIdleSince p since }

end ClientPool

def clientPoolMaxIdle : Nat := 12

/-- What the loop of `AcquireRemoteClient` leaves behind: the maps, the rest of
the vector, the expired clients and the chosen one with the clock reading that
its age was judged by. -/
structure Taken where
  pool : ClientPool
  idle : List Ptr
  expired : List Ptr
  client : Option (Ptr × Option Int)

/-- The loop of `AcquireRemoteClient`.  `clock` holds the readings of
`time(NULL)`, one for each age check; a run that needs more of them than it is
given is not a step. -/
def takeIdle (maxIdle : Ptr → Int) : List Ptr → List Int → ClientPool → Option Taken
  | [], _, pool => some ⟨pool, [], [], none⟩
  | c :: idle, clock, pool =>
    match pool.clientPoolIdleSince c, clock with
    | none, _ => some ⟨pool.setIdleSince c none, idle, [], some (c, none)⟩
    | some _, [] => none
    | some since, now :: clock =>
      if now - since > maxIdle c then
        (takeIdle maxIdle idle clock ((pool.setIdleSince c none).setKey c none)).map fun t =>
          { t with expired := c :: t.expired }
      else some ⟨pool.setIdleSince c none, idle, [], some (c, some now)⟩

/-- The first critical section of `AcquireRemoteClient`. -/
def acquireSection (maxIdle : Ptr → Int) (key : Bytes) (clock : List Int) (pool : ClientPool) :
    Option Taken :=
  match pool.clientPoolIdle.lookup key with
  | none => some ⟨pool, [], [], none⟩
  | some idle => (takeIdle maxIdle idle clock pool).map fun t =>
      { t with pool := t.pool.setIdle key t.idle }

/-- The critical section of `ReleasePooledClient`; the flag is `pooled`. -/
def releaseSection (p : Ptr) (success connected : Bool) (now : Int) (pool : ClientPool) :
    ClientPool × Bool :=
  match pool.clientPoolKey p with
  | none => (pool.setKey p none, false)
  | some key =>
    let idle := (pool.clientPoolIdle.lookup key).getD []
    if success && connected && idle.length < clientPoolMaxIdle then
      ((pool.setIdle key (p :: idle)).setIdleSince p (some now), true)
    else (pool.setKey p none, false)

/-- Where a caller is: between calls, or inside `AcquireRemoteClient` (up to
`holding`), `ReleaseRemoteClient` or `ClearClientPool`. -/
inductive Caller
  | outside
  | acquiring (h : HostInfo) (reusable : Bool)
  | draining (h : HostInfo) (reusable : Bool) (expired : List Ptr) (client : Option Ptr)
  | connecting (h : HostInfo) (reusable : Bool) (client : Ptr)
  | registering (h : HostInfo) (client : Ptr)
  | holding (h : HostInfo) (client : Ptr)
  | releasing (client : Ptr) (success : Bool)
  | dropping (client : Ptr)
  | clearing
  | sweeping (clients : List Ptr)
  deriving DecidableEq, Repr

/-- The pointers that a caller's variables own. -/
def Caller.held : Caller → List Ptr
  | .draining _ _ expired client => expired ++ client.toList
  | .connecting _ _ p | .registering _ p | .holding _ p | .releasing p _ | .dropping p => [p]
  | .sweeping clients => clients
  | .outside | .acquiring _ _ | .clearing => []

/-- What a run records; the pool never reads it. -/
inductive Event
  | created (i : Nat) (c : RemoteClient)
  | handedOut (i : Nat) (c : RemoteClient) (now : Option Int)
  | returned (i : Nat) (c : RemoteClient)
  | released (i : Nat) (c : RemoteClient) (success connected pooled : Bool) (now : Int)
  | cleared (i : Nat)
  | destroyed (i : Nat) (c : RemoteClient)
  deriving DecidableEq, Repr

/-- The pool, the heap of live clients, the callers, and the records of a run:
how many clients were constructed, which were destroyed, which were lost by an
exception, and the events so far, newest first. -/
structure State where
  pool : ClientPool
  heap : Ptr → Option RemoteClient
  callers : List Caller
  born : Nat
  destroyed : List Nat
  leaked : List Ptr
  log : List Event

namespace State

def heldPtrs (s : State) : List Ptr := s.callers.flatMap Caller.held

def setCaller (s : State) (i : Nat) (c : Caller) : State :=
  { s with callers := s.callers.set i c }

def maxIdle (s : State) (p : Ptr) : Int :=
  ((s.heap p).map fun c => c.cls.getMaxIdleTimeout).getD 0

/-- Record an event about the client at `p`. -/
def note (s : State) (p : Ptr) (e : RemoteClient → Event) : State :=
  { s with log := ((s.heap p).map e).toList ++ s.log }

/-- `DestroyPooledClient`: `Quit` and `delete`. -/
def destroyPooledClient (s : State) (i : Nat) (p : Ptr) : Option State :=
  (s.heap p).map fun c =>
    { s with
      heap := Function.update s.heap p none
      destroyed := c.id :: s.destroyed
      log := .destroyed i c :: s.log }

def setClient (s : State) (p : Ptr) (c : RemoteClient) : State :=
  { s with heap := Function.update s.heap p (some c) }

end State

/-- What resolves a step: the arguments of a call, clock readings, the address
the allocator returns, the answer of `IsConnected()`. -/
inductive Action
  | acquire (h : HostInfo) (reusable : Bool)
  | enterAcquire (clock : List Int)
  | destroy
  | finish
  | create (p : Ptr)
  | connect
  | register
  | setCallback (t : TransferState)
  | release (success : Bool)
  | enterRelease (connected : Bool) (now : Int)
  | clear
  | enterClear
  deriving DecidableEq, Repr

variable (E : Env)

/-- One step of caller `i`. -/
def stepCaller (s : State) (i : Nat) : Caller → Action → Option State
  | .outside, .acquire h reusable => some (s.setCaller i (.acquiring h reusable))
  | .acquiring h false, .enterAcquire _ => some (s.setCaller i (.draining h false [] none))
  | .acquiring h true, .enterAcquire clock =>
    (acquireSection s.maxIdle (clientPoolKey h) clock s.pool).map fun t =>
      let s' := { s with pool := t.pool }
      match t.client with
      | none => s'.setCaller i (.draining h true t.expired none)
      | some (p, now) =>
        (s'.note p fun c => .handedOut i c now).setCaller i (.draining h true t.expired (some p))
  | .draining h reusable (p :: expired) client, .destroy =>
    (s.destroyPooledClient i p).map fun s' =>
      s'.setCaller i (.draining h reusable expired client)
  | .draining h _ [] (some p), .finish =>
    some ((s.note p (.returned i)).setCaller i (.holding h p))
  | .draining h reusable [] none, .create p =>
    match newClient h with
    | none => some (s.setCaller i .outside)
    | some cls =>
      if s.heap p = none then
        let c : RemoteClient := { id := s.born, cls := cls, host := h }
        some (({ s with born := s.born + 1, log := .created i c :: s.log }.setClient p c).setCaller i
          (.connecting h reusable p))
      else none
  | .connecting h reusable p, .connect =>
    if connectThrows E h then
      -- the exception leaves `AcquireRemoteClient`; nothing deletes the client
      some ({ s with leaked := p :: s.leaked }.setCaller i .outside)
    else
      (s.heap p).map fun c =>
        let s' := s.setClient p { c with urlEncode := pathEncoding h }
        if reusable then s'.setCaller i (.registering h p)
        else (s'.note p (.returned i)).setCaller i (.holding h p)
  | .registering h p, .register =>
    some (({ s with pool := s.pool.setKey p (some (clientPoolKey h)) }.note p
      (.returned i)).setCaller i (.holding h p))
  | .holding _ p, .setCallback t =>
    match s.heap p with
    | some c => if c.cls = .ftpClient then some (s.setClient p { c with transfer := t }) else none
    | none => none
  | .holding _ p, .release success => some (s.setCaller i (.releasing p success))
  | .releasing p success, .enterRelease connected now =>
    (s.heap p).map fun c =>
      let r := releaseSection p success connected now s.pool
      let c' := if r.2 then c.resetTransferState else c
      (({ s with pool := r.1 }.setClient p c').note p fun c =>
        .released i c success connected r.2 now).setCaller i
          (if r.2 then .outside else .dropping p)
  | .dropping p, .destroy => (s.destroyPooledClient i p).map fun s' => s'.setCaller i .outside
  | .outside, .clear => some (s.setCaller i .clearing)
  | .clearing, .enterClear =>
    some ({ s with pool := .empty, log := .cleared i :: s.log }.setCaller i
      (.sweeping s.pool.idlePtrs))
  | .sweeping (p :: clients), .destroy =>
    (s.destroyPooledClient i p).map fun s' => s'.setCaller i (.sweeping clients)
  | .sweeping [], .finish => some (s.setCaller i .outside)
  | _, _ => none

/-- One step of the pool and its callers. -/
def step (s : State) (a : Nat × Action) : Option State :=
  (s.callers[a.1]?).bind fun c => stepCaller E s a.1 c a.2

/-- `n` callers, none inside the pool, and empty maps. -/
def initial (n : Nat) : State :=
  ⟨.empty, fun _ => none, List.replicate n .outside, 0, [], [], []⟩

/-- States of runs whose steps all satisfy `ok`, for any number of callers. -/
def Reachable (ok : State → Nat × Action → Prop) : State → Prop :=
  Transition.Reachable (fun s => ∃ n, s = initial n) (step E) ok

theorem exists_reachable (ok : State → Nat × Action → Prop) [∀ s a, Decidable (ok s a)]
    (n : Nat) (as : List (Nat × Action)) {β : Type} (f : State → β) (b : β)
    (hr : (Transition.run (step E) ok (initial n) as).map f = some b) :
    ∃ s, Reachable E ok s ∧ f s = b :=
  Transition.exists_reachable_of_run ⟨n, rfl⟩ as f b hr

end EzRemote.Pool

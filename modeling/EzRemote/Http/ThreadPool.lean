import EzRemote.Lib.Counting
import EzRemote.Lib.Transition

/-!
# The accept loop and its thread pool

`Server::listen_internal`, which hands every connection to the `ThreadPool` as
a job, the workers of the pool and `Server::stop`.  A section under `mutex_` is
one step; `notify_one` and `notify_all` are called without the lock and are
steps of their own.
-/

namespace EzRemote.Http

/-- Where a worker of the pool is.  `checking` is the predicate of `cond_.wait`,
with which every turn begins and which follows every wake-up. -/
inductive Worker
  | checking
  | waiting
  | running (sock : Nat)
  | exited
  deriving DecidableEq, Repr

/-- A job is the connection that it processes and closes. -/
structure ThreadPool where
  threads : List Worker
  jobs : List Nat
  shutdown : Bool
  maxQueuedRequests : Nat
  deriving DecidableEq, Repr

namespace ThreadPool

/-- `ThreadPool(n, mqr)`. -/
def create (n mqr : Nat) : ThreadPool :=
  { threads := List.replicate n .checking, jobs := [], shutdown := false, maxQueuedRequests := mqr }

/-- The part of `enqueue` under the lock. -/
def enqueue (pool : ThreadPool) (sock : Nat) : Option ThreadPool :=
  if 0 < pool.maxQueuedRequests ∧ pool.maxQueuedRequests ≤ pool.jobs.length then none
  else some { pool with jobs := pool.jobs ++ [sock] }

/-- The part of a worker's turn under the lock, from the predicate on. -/
def turn (pool : ThreadPool) (i : Nat) : ThreadPool :=
  match pool.jobs, pool.shutdown with
  | [], false => { pool with threads := pool.threads.set i .waiting }
  | [], true => { pool with threads := pool.threads.set i .exited }
  | sock :: jobs, _ => { pool with threads := pool.threads.set i (.running sock), jobs := jobs }

theorem turn_park {pool : ThreadPool} (hj : pool.jobs = []) (hd : pool.shutdown = false) (i : Nat) :
    pool.turn i = { pool with threads := pool.threads.set i .waiting } := by
  unfold turn
  rw [hj, hd]

theorem turn_exit {pool : ThreadPool} (hj : pool.jobs = []) (hd : pool.shutdown = true) (i : Nat) :
    pool.turn i = { pool with threads := pool.threads.set i .exited } := by
  unfold turn
  rw [hj, hd]

theorem turn_take {pool : ThreadPool} {sock : Nat} {jobs : List Nat} (hj : pool.jobs = sock :: jobs)
    (i : Nat) :
    pool.turn i = { pool with threads := pool.threads.set i (.running sock), jobs := jobs } := by
  unfold turn
  rw [hj]

/-- `cond_.notify_all`. -/
def notifyAll (pool : ThreadPool) : ThreadPool :=
  { pool with threads := pool.threads.map fun w => if w = .waiting then .checking else w }

end ThreadPool

/-- `CPPHTTPLIB_THREAD_POOL_COUNT`, which the build sets. -/
def threadPoolCount : Nat := 64

/-- Where the thread in `listen_internal` is. -/
inductive Listener
  | loop
  | accepting
  | enqueueing (sock : Nat)
  | notifying
  | shuttingDown
  | notifyingAll
  | joining
  | returned
  deriving DecidableEq, Repr

/-- What `accept` comes back with; `retry` is `EMFILE`, `EINTR` or `EAGAIN`. -/
inductive Accepted
  | connection
  | retry
  | failed
  deriving DecidableEq, Repr

/-- Connections are numbered as they are accepted. -/
structure Listening where
  /-- `svr_sock_ != INVALID_SOCKET`. -/
  svrSock : Bool
  listener : Listener
  pool : ThreadPool
  ret : Bool
  accepted : Nat
  /-- The connections that a worker took, in that order. -/
  started : List Nat
  /-- The connections that `enqueue` did not take. -/
  refused : List Nat
  /-- The calls of `close_socket` on connections. -/
  closed : List Nat
  deriving DecidableEq, Repr

namespace Listening

/-- `finish` is a worker at the end of `process_and_close_socket`, `notified` what
`notify_one` chose. -/
inductive Action
  | check
  | accept (a : Accepted)
  | enqueue
  | notified (i : Option Nat)
  | shutdown
  | notifyAll
  | join
  | turn (i : Nat)
  | finish (i : Nat)
  | spurious (i : Nat)
  | stop
  deriving DecidableEq, Repr

/-- At the start of `listen_internal`. -/
def start (mqr : Nat) : Listening :=
  { svrSock := true
    listener := .loop
    pool := .create threadPoolCount mqr
    ret := true, accepted := 0, started := [], refused := [], closed := [] }

/-- `accept` has come back. -/
def acceptReturned (s : Listening) : Accepted → Listening
  | .connection => { s with listener := .enqueueing s.accepted, accepted := s.accepted + 1 }
  | .retry => { s with listener := .loop }
  | .failed => { s with listener := .shuttingDown, ret := s.ret && !s.svrSock }

def setThread (s : Listening) (i : Nat) (w : Worker) : Listening :=
  { s with pool := { s.pool with threads := s.pool.threads.set i w } }

def step (s : Listening) : Action → Option Listening
  | .check =>
    if s.listener = .loop then
      some { s with listener := if s.svrSock then .accepting else .shuttingDown }
    else none
  | .accept a => if s.listener = .accepting then some (s.acceptReturned a) else none
  | .enqueue =>
    match s.listener with
    | .enqueueing sock =>
      match s.pool.enqueue sock with
      | some pool => some { s with listener := .notifying, pool := pool }
      | none =>
        some { s with listener := .loop, refused := s.refused ++ [sock],
                      closed := s.closed ++ [sock] }
    | _ => none
  | .notified (some i) =>
    if s.listener = .notifying ∧ s.pool.threads[i]? = some .waiting then
      some { s.setThread i .checking with listener := .loop }
    else none
  | .notified none =>
    if s.listener = .notifying ∧ .waiting ∉ s.pool.threads then some { s with listener := .loop }
    else none
  | .shutdown =>
    if s.listener = .shuttingDown then
      some { s with listener := .notifyingAll, pool := { s.pool with shutdown := true } }
    else none
  | .notifyAll =>
    if s.listener = .notifyingAll then
      some { s with listener := .joining, pool := s.pool.notifyAll }
    else none
  | .join =>
    if s.listener = .joining ∧ ∀ w ∈ s.pool.threads, w = .exited then
      some { s with listener := .returned }
    else none
  | .turn i =>
    if s.pool.threads[i]? = some .checking then
      some { s with pool := s.pool.turn i, started := s.started ++ s.pool.jobs.take 1 }
    else none
  | .finish i =>
    match s.pool.threads[i]? with
    | some (.running sock) => some { s.setThread i .checking with closed := s.closed ++ [sock] }
    | _ => none
  | .spurious i =>
    if s.pool.threads[i]? = some .waiting then some (s.setThread i .checking) else none
  -- a second call fails the assertion in `stop` and ends the process
  | .stop =>
    if s.svrSock = true ∧ s.listener ≠ .returned then some { s with svrSock := false } else none

/-- Runs of the server with every schedule, and with `stop` at any moment. -/
def Reachable (mqr : Nat) : Listening → Prop :=
  Transition.Reachable (· = start mqr) step Transition.anyStep

/-- The steps that the system can take. -/
inductive Step (s : Listening) : Action → Listening → Prop
  | check : s.listener = .loop →
      Step s .check { s with listener := if s.svrSock then .accepting else .shuttingDown }
  | accept (a : Accepted) : s.listener = .accepting → Step s (.accept a) (s.acceptReturned a)
  | push (sock : Nat) : s.listener = .enqueueing sock →
      Step s .enqueue
        { s with listener := .notifying, pool := { s.pool with jobs := s.pool.jobs ++ [sock] } }
  | refuse (sock : Nat) : s.listener = .enqueueing sock → 0 < s.pool.maxQueuedRequests →
      Step s .enqueue
        { s with listener := .loop, refused := s.refused ++ [sock], closed := s.closed ++ [sock] }
  | notified (i : Nat) : s.listener = .notifying → s.pool.threads[i]? = some .waiting →
      Step s (.notified (some i)) { s.setThread i .checking with listener := .loop }
  | noWaiter : s.listener = .notifying → .waiting ∉ s.pool.threads →
      Step s (.notified none) { s with listener := .loop }
  | shutdown : s.listener = .shuttingDown →
      Step s .shutdown { s with listener := .notifyingAll, pool := { s.pool with shutdown := true } }
  | notifyAll : s.listener = .notifyingAll →
      Step s .notifyAll { s with listener := .joining, pool := s.pool.notifyAll }
  | join : s.listener = .joining → (∀ w ∈ s.pool.threads, w = .exited) →
      Step s .join { s with listener := .returned }
  | park (i : Nat) : s.pool.threads[i]? = some .checking → s.pool.jobs = [] →
      s.pool.shutdown = false → Step s (.turn i) (s.setThread i .waiting)
  | exit (i : Nat) : s.pool.threads[i]? = some .checking → s.pool.jobs = [] →
      s.pool.shutdown = true → Step s (.turn i) (s.setThread i .exited)
  | take (i sock : Nat) (jobs : List Nat) : s.pool.threads[i]? = some .checking →
      s.pool.jobs = sock :: jobs →
      Step s (.turn i)
        { s with pool := { s.pool with threads := s.pool.threads.set i (.running sock), jobs := jobs }
                 started := s.started ++ [sock] }
  | finish (i sock : Nat) : s.pool.threads[i]? = some (.running sock) →
      Step s (.finish i) { s.setThread i .checking with closed := s.closed ++ [sock] }
  | spurious (i : Nat) : s.pool.threads[i]? = some .waiting →
      Step s (.spurious i) (s.setThread i .checking)
  | stop : Step s .stop { s with svrSock := false }

theorem step_cases {s t : Listening} {a : Action} (h : step s a = some t) : Step s a t := by
  cases a with
  | check =>
    obtain ⟨hl, ⟨⟩⟩ := Option.ite_none_right_eq_some.mp h
    exact .check hl
  | accept a =>
    obtain ⟨hl, ⟨⟩⟩ := Option.ite_none_right_eq_some.mp h
    exact .accept a hl
  | enqueue =>
    unfold step at h
    dsimp only at h
    split at h
    · rename_i sock hl
      split at h
      · rename_i pool hp
        cases h
        obtain ⟨-, ⟨⟩⟩ := Option.ite_none_left_eq_some.mp hp
        exact .push sock hl
      · rename_i hp
        cases h
        obtain ⟨hfull, -⟩ : 0 < s.pool.maxQueuedRequests ∧
            s.pool.maxQueuedRequests ≤ s.pool.jobs.length := by
          by_contra hfull
          rw [ThreadPool.enqueue, if_neg hfull] at hp
          cases hp
        exact .refuse sock hl hfull
    · cases h
  | notified choice =>
    cases choice with
    | none =>
      obtain ⟨⟨hl, hw⟩, ⟨⟩⟩ := Option.ite_none_right_eq_some.mp h
      exact .noWaiter hl hw
    | some i =>
      obtain ⟨⟨hl, hw⟩, ⟨⟩⟩ := Option.ite_none_right_eq_some.mp h
      exact .notified i hl hw
  | shutdown =>
    obtain ⟨hl, ⟨⟩⟩ := Option.ite_none_right_eq_some.mp h
    exact .shutdown hl
  | notifyAll =>
    obtain ⟨hl, ⟨⟩⟩ := Option.ite_none_right_eq_some.mp h
    exact .notifyAll hl
  | join =>
    obtain ⟨⟨hl, hw⟩, ⟨⟩⟩ := Option.ite_none_right_eq_some.mp h
    exact .join hl hw
  | turn i =>
    obtain ⟨hw, ⟨⟩⟩ := Option.ite_none_right_eq_some.mp h
    cases hj : s.pool.jobs with
    | nil =>
      rw [List.take_nil, List.append_nil]
      cases hd : s.pool.shutdown with
      | false =>
        rw [ThreadPool.turn_park hj hd]
        exact .park i hw hj hd
      | true =>
        rw [ThreadPool.turn_exit hj hd]
        exact .exit i hw hj hd
    | cons sock jobs =>
      rw [ThreadPool.turn_take hj]
      exact .take i sock jobs hw hj
  | finish i =>
    unfold step at h
    dsimp only at h
    split at h
    · rename_i sock hw
      cases h
      exact .finish i sock hw
    · cases h
  | spurious i =>
    obtain ⟨hw, ⟨⟩⟩ := Option.ite_none_right_eq_some.mp h
    exact .spurious i hw
  | stop =>
    obtain ⟨-, ⟨⟩⟩ := Option.ite_none_right_eq_some.mp h
    exact .stop

end Listening

/-- The connection that a worker is at. -/
def Worker.held : Worker → List Nat
  | .running sock => [sock]
  | .checking | .waiting | .exited => []

def ThreadPool.running (pool : ThreadPool) : List Nat := pool.threads.flatMap Worker.held

/-- The connection that is accepted and not yet handed on. -/
def Listener.hand : Listener → List Nat
  | .enqueueing sock => [sock]
  | _ => []

namespace Listening

/-- Where the connections are that were accepted. -/
structure Handled (s : Listening) : Prop where
  hand : ∀ c ∈ s.listener.hand, c + 1 = s.accepted
  order : (s.started ++ s.pool.jobs).Pairwise (· < ·)
  once : ∀ c, (s.started ++ s.pool.jobs).count c + s.refused.count c + s.listener.hand.count c =
    (List.range s.accepted).count c
  closed : ∀ c, s.closed.count c + s.pool.running.count c = s.started.count c + s.refused.count c

variable {s t : Listening} {a : Action}

theorem Handled.frame (h : Handled s) (hhand : t.listener.hand = s.listener.hand)
    (hrun : ∀ c, t.pool.running.count c = s.pool.running.count c)
    (hlogs : t.accepted = s.accepted ∧ t.started = s.started ∧ t.refused = s.refused ∧
      t.closed = s.closed ∧ t.pool.jobs = s.pool.jobs) : Handled t := by
  obtain ⟨hacc, hstart, href, hclosed, hjobs⟩ := hlogs
  constructor
  · rw [hhand, hacc]
    exact h.hand
  · rw [hstart, hjobs]
    exact h.order
  · rw [hstart, hjobs, href, hhand, hacc]
    exact h.once
  · intro c
    rw [hclosed, hrun, hstart, href]
    exact h.closed c

theorem running_set {pool : ThreadPool} {i : Nat} {w : Worker} (h : pool.threads[i]? = some w)
    (w' : Worker) (jobs : List Nat) (c : Nat) :
    ({ pool with threads := pool.threads.set i w', jobs := jobs } : ThreadPool).running.count c +
      w.held.count c = pool.running.count c + w'.held.count c :=
  Counting.count_flatMap_set Worker.held pool.threads i w w' c h

theorem Handled.setThread (h : Handled s) {i : Nat} {w w' : Worker}
    (hw : s.pool.threads[i]? = some w) (hheld : w.held = []) (hheld' : w'.held = []) :
    Handled (s.setThread i w') := by
  refine h.frame rfl (fun c => ?_) ⟨rfl, rfl, rfl, rfl, rfl⟩
  have := running_set hw w' s.pool.jobs c
  rw [hheld, hheld'] at this
  exact this

theorem Handled.accept (h : Handled s) (a : Accepted) (hl : s.listener = .accepting) :
    Handled (s.acceptReturned a) := by
  have honce := h.once
  rw [hl] at honce
  cases a with
  | connection =>
    refine ⟨fun c hc => ?_, h.order, fun c => ?_, h.closed⟩
    · rw [List.mem_singleton.mp hc]
      rfl
    · show (s.started ++ s.pool.jobs).count c + s.refused.count c + [s.accepted].count c =
        (List.range (s.accepted + 1)).count c
      have := honce c
      rw [List.range_succ]
      simp only [Listener.hand, List.count_append, List.count_nil] at this ⊢
      omega
  | retry => exact h.frame (by rw [hl]; rfl) (fun c => rfl) ⟨rfl, rfl, rfl, rfl, rfl⟩
  | failed => exact h.frame (by rw [hl]; rfl) (fun c => rfl) ⟨rfl, rfl, rfl, rfl, rfl⟩

/-- The connection in the listener's hand came after those in the queue. -/
theorem Handled.hand_last (h : Handled s) {sock : Nat} (hl : s.listener = .enqueueing sock)
    {c : Nat} (hc : c ∈ s.started ++ s.pool.jobs) : c < sock := by
  have hsock : sock + 1 = s.accepted := h.hand sock (by rw [hl]; exact List.mem_singleton_self _)
  have honce := h.once c
  have hpos : 0 < (s.started ++ s.pool.jobs).count c := List.count_pos_iff.mpr hc
  have hle : (List.range s.accepted).count c ≤ 1 :=
    List.nodup_iff_count_le_one.mp List.nodup_range c
  have hmem : c ∈ List.range s.accepted := List.count_pos_iff.mp (by omega)
  have hlt : c < s.accepted := List.mem_range.mp hmem
  have hne : c ≠ sock := by
    rintro rfl
    rw [hl] at honce
    simp only [Listener.hand, List.count_singleton_self] at honce
    omega
  omega

theorem Handled.push (h : Handled s) {sock : Nat} (hl : s.listener = .enqueueing sock) :
    Handled { s with
      listener := .notifying, pool := { s.pool with jobs := s.pool.jobs ++ [sock] } } := by
  refine ⟨fun c hc => absurd hc List.not_mem_nil, ?_, fun c => ?_, h.closed⟩
  · show (s.started ++ (s.pool.jobs ++ [sock])).Pairwise (· < ·)
    rw [← List.append_assoc, List.pairwise_append]
    refine ⟨h.order, List.pairwise_singleton _ _, fun c hc d hd => ?_⟩
    rw [List.mem_singleton.mp hd]
    exact h.hand_last hl hc
  · show (s.started ++ (s.pool.jobs ++ [sock])).count c + s.refused.count c + [].count c =
      (List.range s.accepted).count c
    have := h.once c
    rw [hl] at this
    simp only [Listener.hand, List.count_append, List.count_nil] at this ⊢
    omega

theorem Handled.refuse (h : Handled s) {sock : Nat} (hl : s.listener = .enqueueing sock) :
    Handled { s with
      listener := .loop, refused := s.refused ++ [sock], closed := s.closed ++ [sock] } := by
  refine ⟨fun c hc => absurd hc List.not_mem_nil, h.order, fun c => ?_, fun c => ?_⟩
  · show (s.started ++ s.pool.jobs).count c + (s.refused ++ [sock]).count c + [].count c =
      (List.range s.accepted).count c
    have := h.once c
    rw [hl] at this
    simp only [Listener.hand, List.count_append, List.count_nil] at this ⊢
    omega
  · show (s.closed ++ [sock]).count c + s.pool.running.count c =
      s.started.count c + (s.refused ++ [sock]).count c
    have := h.closed c
    simp only [List.count_append]
    omega

theorem running_notifyAll (pool : ThreadPool) : pool.notifyAll.running = pool.running := by
  show (pool.threads.map _).flatMap Worker.held = _
  rw [List.flatMap_map]
  refine List.flatMap_congr fun w _ => ?_
  by_cases hw : w = .waiting
  · rw [if_pos hw, hw]
    rfl
  · rw [if_neg hw]

theorem Handled.take (h : Handled s) {i sock : Nat} {jobs : List Nat}
    (hw : s.pool.threads[i]? = some .checking) (hj : s.pool.jobs = sock :: jobs) :
    Handled { s with
      pool := { s.pool with threads := s.pool.threads.set i (.running sock), jobs := jobs }
      started := s.started ++ [sock] } := by
  have hlist : s.started ++ [sock] ++ jobs = s.started ++ s.pool.jobs := by
    rw [hj, List.append_assoc, List.singleton_append]
  refine ⟨h.hand, ?_, fun c => ?_, fun c => ?_⟩
  · rw [hlist]
    exact h.order
  · rw [hlist]
    exact h.once c
  · have hrun := running_set hw (.running sock) jobs c
    have := h.closed c
    simp only [Worker.held, List.count_nil] at hrun
    rw [List.count_append]
    dsimp only at hrun ⊢
    omega

theorem Handled.finish (h : Handled s) {i sock : Nat}
    (hw : s.pool.threads[i]? = some (.running sock)) :
    Handled { s.setThread i .checking with closed := s.closed ++ [sock] } := by
  refine ⟨h.hand, h.order, h.once, fun c => ?_⟩
  have hrun := running_set hw .checking s.pool.jobs c
  have := h.closed c
  simp only [Worker.held, List.count_nil] at hrun
  show (s.closed ++ [sock]).count c + (s.setThread i .checking).pool.running.count c = _
  rw [List.count_append]
  unfold Listening.setThread
  dsimp only at hrun ⊢
  omega

theorem Step.handled (st : Step s a t) (h : Handled s) : Handled t := by
  cases st with
  | check hl =>
    refine h.frame ?_ (fun c => rfl) ⟨rfl, rfl, rfl, rfl, rfl⟩
    rw [hl]
    show (if s.svrSock = true then Listener.accepting else .shuttingDown).hand = []
    split <;> rfl
  | accept a hl => exact h.accept a hl
  | push sock hl => exact h.push hl
  | refuse sock hl _ => exact h.refuse hl
  | notified i hl hw =>
    exact (h.setThread hw rfl rfl).frame (by show [] = s.listener.hand; rw [hl]; rfl) (fun c => rfl)
      ⟨rfl, rfl, rfl, rfl, rfl⟩
  | noWaiter hl _ => exact h.frame (by rw [hl]; rfl) (fun c => rfl) ⟨rfl, rfl, rfl, rfl, rfl⟩
  | shutdown hl => exact h.frame (by rw [hl]; rfl) (fun c => rfl) ⟨rfl, rfl, rfl, rfl, rfl⟩
  | notifyAll hl =>
    refine h.frame (by rw [hl]; rfl) (fun c => ?_) ⟨rfl, rfl, rfl, rfl, rfl⟩
    rw [running_notifyAll]
  | join hl _ => exact h.frame (by rw [hl]; rfl) (fun c => rfl) ⟨rfl, rfl, rfl, rfl, rfl⟩
  | park i hw _ _ => exact h.setThread hw rfl rfl
  | exit i hw _ _ => exact h.setThread hw rfl rfl
  | take i sock jobs hw hj => exact h.take hw hj
  | finish i sock hw => exact h.finish hw
  | spurious i hw => exact h.setThread hw rfl rfl
  | stop => exact h.frame rfl (fun c => rfl) ⟨rfl, rfl, rfl, rfl, rfl⟩

end Listening

/-- `shutdown_` is set. -/
def Listener.ended : Listener → Bool
  | .notifyingAll | .joining | .returned => true
  | _ => false

/-- Calls of `notify_one` that are still to come for a job in the queue. -/
def Listener.notices : Listener → Nat
  | .notifying => 1
  | _ => 0

namespace Listening

/-- Where the workers can be.  As long as one of them sleeps, each job has a
worker on its way to it, or the notice that wakes one. -/
structure Awake (s : Listening) : Prop where
  ended : s.pool.shutdown = s.listener.ended
  exited : .exited ∈ s.pool.threads → s.pool.shutdown = true ∧ s.pool.jobs = []
  told : s.listener = .joining ∨ s.listener = .returned → .waiting ∉ s.pool.threads
  gone : s.listener = .returned → ∀ w ∈ s.pool.threads, w = .exited
  wake : .waiting ∈ s.pool.threads →
    s.pool.jobs.length ≤ s.listener.notices + s.pool.threads.count .checking

variable {s t : Listening} {a : Action}

theorem Awake.listener (h : Awake s) {l : Listener} (hover : l.ended = s.listener.ended)
    (hnotices : s.listener.notices ≤ l.notices) (hjoin : l ≠ .joining ∧ l ≠ .returned)
    (htail : t.listener = l ∧ t.pool = s.pool) : Awake t := by
  obtain ⟨hl, hp⟩ := htail
  constructor
  · rw [hp, hl, hover]
    exact h.ended
  · rw [hp]
    exact h.exited
  · rw [hl]
    exact fun hj => (hj.elim hjoin.1 hjoin.2).elim
  · rw [hl]
    exact fun hr => absurd hr hjoin.2
  · rw [hp, hl]
    exact fun hw => Nat.le_trans (h.wake hw) (Nat.add_le_add_right hnotices _)

theorem Awake.toChecking (h : Awake s) {i : Nat} {w : Worker} (hw : s.pool.threads[i]? = some w)
    (hne : w ≠ .checking) (hnot : w ≠ .exited) : Awake (s.setThread i .checking) := by
  have hmem : ∀ {w'}, w' ∈ s.pool.threads.set i .checking → w' ≠ .checking →
      w' ∈ s.pool.threads :=
    fun hw' hc => (List.mem_or_eq_of_mem_set hw').elim id fun heq => absurd heq hc
  refine ⟨h.ended, fun he => h.exited (hmem he (by decide)),
    fun hj hs => h.told hj (hmem hs (by decide)), fun hr w' _ => ?_, fun hs => ?_⟩
  · exact absurd (h.gone hr w (List.mem_of_getElem? hw)) hnot
  · have hwake := h.wake (hmem hs (by decide))
    have hcount := Counting.count_set hw .checking .checking
    rw [List.count_singleton_self, List.count_singleton, if_neg (by simpa using hne)] at hcount
    show s.pool.jobs.length ≤ s.listener.notices + (s.pool.threads.set i .checking).count .checking
    omega

theorem Awake.check (h : Awake s) (hl : s.listener = .loop) :
    Awake { s with listener := if s.svrSock then .accepting else .shuttingDown } := by
  refine h.listener (l := if s.svrSock then .accepting else .shuttingDown) ?_ ?_ ?_ ⟨rfl, rfl⟩
  · rw [hl]
    cases s.svrSock <;> rfl
  · rw [hl]
    exact Nat.zero_le _
  · cases s.svrSock <;> decide

theorem Awake.accept (h : Awake s) (a : Accepted) (hl : s.listener = .accepting) :
    Awake (s.acceptReturned a) := by
  cases a with
  | connection =>
    exact h.listener (l := .enqueueing s.accepted) (by rw [hl]; rfl)
      (by rw [hl]; exact Nat.zero_le _) (by simp) ⟨rfl, rfl⟩
  | retry =>
    exact h.listener (l := .loop) (by rw [hl]; rfl) (by rw [hl]; decide) (by decide) ⟨rfl, rfl⟩
  | failed =>
    exact h.listener (l := .shuttingDown) (by rw [hl]; rfl) (by rw [hl]; decide) (by decide)
      ⟨rfl, rfl⟩

theorem Awake.push (h : Awake s) {sock : Nat} (hl : s.listener = .enqueueing sock) :
    Awake { s with
      listener := .notifying, pool := { s.pool with jobs := s.pool.jobs ++ [sock] } } := by
  have hover : s.pool.shutdown = false := by
    rw [h.ended, hl]
    rfl
  refine ⟨hover, fun he => ?_, by simp, by simp, fun hs => ?_⟩
  · have := (h.exited he).1
    rw [hover] at this
    cases this
  · have := h.wake hs
    rw [hl] at this
    show (s.pool.jobs ++ [sock]).length ≤ 1 + s.pool.threads.count .checking
    rw [List.length_append, List.length_singleton]
    simp only [Listener.notices] at this
    omega

/-- The worker that wakes stands for the notice. -/
theorem Awake.notified (h : Awake s) {i : Nat} (hl : s.listener = .notifying)
    (hw : s.pool.threads[i]? = some .waiting) :
    Awake { s.setThread i .checking with listener := .loop } := by
  have hset := h.toChecking hw (by decide) (by decide)
  refine ⟨?_, hset.exited, by simp, by simp, fun hs => ?_⟩
  · show s.pool.shutdown = false
    rw [h.ended, hl]
    rfl
  · have hin : .waiting ∈ s.pool.threads := List.mem_of_getElem? hw
    have hwake := h.wake hin
    have hcount := Counting.count_set hw .checking .checking
    rw [hl] at hwake
    simp only [Listener.notices] at hwake
    rw [List.count_singleton_self, List.count_singleton, if_neg (by decide)] at hcount
    show s.pool.jobs.length ≤ 0 + (s.pool.threads.set i .checking).count .checking
    omega

theorem waiting_notMem_notifyAll (pool : ThreadPool) : .waiting ∉ pool.notifyAll.threads := by
  intro hs
  obtain ⟨w, -, hw⟩ := List.mem_map.mp hs
  split at hw
  · cases hw
  · contradiction

theorem exited_mem_of_notifyAll {pool : ThreadPool} (he : .exited ∈ pool.notifyAll.threads) :
    .exited ∈ pool.threads := by
  obtain ⟨w, hmem, hw⟩ := List.mem_map.mp he
  split at hw
  · cases hw
  · exact hw ▸ hmem

theorem Awake.notifyAll (h : Awake s) (hl : s.listener = .notifyingAll) :
    Awake { s with listener := .joining, pool := s.pool.notifyAll } := by
  have hnone := waiting_notMem_notifyAll s.pool
  refine ⟨?_, fun he => h.exited (exited_mem_of_notifyAll he), fun _ => hnone, by simp,
    fun hs => absurd hs hnone⟩
  show s.pool.shutdown = true
  rw [h.ended, hl]
  rfl

theorem Awake.join (h : Awake s) (hl : s.listener = .joining)
    (hall : ∀ w ∈ s.pool.threads, w = .exited) : Awake { s with listener := .returned } := by
  refine ⟨?_, h.exited, fun _ => h.told (.inl hl), fun _ => hall, fun hs => ?_⟩
  · show s.pool.shutdown = true
    rw [h.ended, hl]
    rfl
  · exact absurd (hall _ hs) (by decide)

theorem Awake.park (h : Awake s) {i : Nat} (hj : s.pool.jobs = [])
    (hd : s.pool.shutdown = false) : Awake (s.setThread i .waiting) := by
  have hlistener : s.listener ≠ .joining ∧ s.listener ≠ .returned := by
    have := h.ended
    rw [hd] at this
    constructor
    all_goals
      intro hl
      rw [hl] at this
      cases this
  refine ⟨h.ended, fun he => ?_, fun hl => ?_, fun hl => absurd hl hlistener.2, fun _ => ?_⟩
  · have hin := (List.mem_or_eq_of_mem_set he).resolve_right (by decide)
    have := (h.exited hin).1
    rw [hd] at this
    cases this
  · exact (hl.elim hlistener.1 hlistener.2).elim
  · show s.pool.jobs.length ≤ _
    rw [hj]
    exact Nat.zero_le _

theorem Awake.exit (h : Awake s) {i : Nat} (hw : s.pool.threads[i]? = some .checking)
    (hj : s.pool.jobs = []) (hd : s.pool.shutdown = true) : Awake (s.setThread i .exited) := by
  have hmem : .waiting ∈ s.pool.threads.set i .exited → .waiting ∈ s.pool.threads :=
    fun hs => (List.mem_or_eq_of_mem_set hs).resolve_right (by decide)
  refine ⟨h.ended, fun _ => ⟨hd, hj⟩, fun hl hs => h.told hl (hmem hs), fun hl w _ => ?_,
    fun _ => ?_⟩
  · exact absurd (h.gone hl _ (List.mem_of_getElem? hw)) (by decide)
  · show s.pool.jobs.length ≤ _
    rw [hj]
    exact Nat.zero_le _

theorem Awake.take (h : Awake s) {i sock : Nat} {jobs : List Nat}
    (hw : s.pool.threads[i]? = some .checking) (hj : s.pool.jobs = sock :: jobs) :
    Awake { s with
      pool := { s.pool with threads := s.pool.threads.set i (.running sock), jobs := jobs }
      started := s.started ++ [sock] } := by
  have hmem : ∀ {w'}, w' ∈ s.pool.threads.set i (.running sock) → w' ≠ .running sock →
      w' ∈ s.pool.threads :=
    fun hw' hne => (List.mem_or_eq_of_mem_set hw').resolve_right hne
  refine ⟨h.ended, fun he => ?_, fun hl hs => h.told hl (hmem hs (by simp)), fun hl w _ => ?_,
    fun hs => ?_⟩
  · have := (h.exited (hmem he (by simp))).2
    rw [hj] at this
    cases this
  · exact absurd (h.gone hl _ (List.mem_of_getElem? hw)) (by decide)
  · have hwake := h.wake (hmem hs (by simp))
    have hcount := Counting.count_set hw (.running sock) .checking
    rw [List.count_singleton_self, List.count_singleton, if_neg (by simp)] at hcount
    rw [hj, List.length_cons] at hwake
    show jobs.length ≤ s.listener.notices +
      (s.pool.threads.set i (.running sock)).count .checking
    omega

theorem Step.awake (st : Step s a t) (h : Awake s) : Awake t := by
  cases st with
  | check hl => exact h.check hl
  | accept a hl => exact h.accept a hl
  | push sock hl => exact h.push hl
  | refuse sock hl _ =>
    exact h.listener (l := .loop) (by rw [hl]; rfl) (by rw [hl]; exact Nat.zero_le _) (by decide)
      ⟨rfl, rfl⟩
  | notified i hl hw => exact h.notified hl hw
  | noWaiter hl hw =>
    refine ⟨?_, h.exited, by simp, by simp, fun hs => absurd hs hw⟩
    show s.pool.shutdown = false
    rw [h.ended, hl]
    rfl
  | shutdown hl =>
    refine ⟨rfl, fun he => ⟨rfl, (h.exited he).2⟩, by simp, by simp, fun hs => ?_⟩
    have := h.wake hs
    rw [hl] at this
    exact this
  | notifyAll hl => exact h.notifyAll hl
  | join hl hall => exact h.join hl hall
  | park i hw hj hd => exact h.park hj hd
  | exit i hw hj hd => exact h.exit hw hj hd
  | take i sock jobs hw hj => exact h.take hw hj
  | finish i sock hw =>
    have hset := h.toChecking hw (by simp) (by simp)
    exact ⟨hset.ended, hset.exited, hset.told, hset.gone, hset.wake⟩
  | spurious i hw => exact h.toChecking hw (by decide) (by decide)
  | stop => exact ⟨h.ended, h.exited, h.told, h.gone, h.wake⟩

end Listening

def Worker.work : Worker → Nat
  | .exited => 0
  | .waiting => 1
  | .checking => 2
  | .running _ => 3

/-- With `n` workers, each of which `notify_all` may wake. -/
def Listener.work (n : Nat) : Listener → Nat
  | .returned => 0
  | .joining => 1
  | .notifyingAll => n + 2
  | .shuttingDown => n + 3
  | .accepting => n + 4
  | .loop => n + 5
  | .notifying => n + 7
  | .enqueueing _ => n + 10

theorem ThreadPool.work_notifyAll (threads : List Worker) :
    ((threads.map fun w => if w = .waiting then .checking else w).map Worker.work).sum ≤
      (threads.map Worker.work).sum + threads.length := by
  induction threads with
  | nil => exact Nat.le_refl 0
  | cons w threads ih =>
    have hw : (if w = .waiting then Worker.checking else w).work ≤ w.work + 1 := by
      by_cases h : w = .waiting
      · rw [if_pos h, h]
        exact Nat.le_refl 2
      · rw [if_neg h]
        exact Nat.le_succ _
    simp only [List.map_cons, List.sum_cons, List.length_cons]
    omega

namespace Listening

/-- What the threads of the server can do by themselves: connections come and
`stop` is called from outside, and nobody relies on a spurious wake-up.  On a
closed socket `accept` fails by itself. -/
def own (s : Listening) : Action → Prop
  | .accept .failed => s.svrSock = false
  | .accept _ | .spurious _ | .stop => False
  | _ => True

instance (s : Listening) (a : Action) : Decidable (own s a) :=
  match a with
  | .accept .failed => inferInstanceAs (Decidable (s.svrSock = false))
  | .accept .connection | .accept .retry | .spurious _ | .stop => inferInstanceAs (Decidable False)
  | .check | .enqueue | .notified _ | .shutdown | .notifyAll | .join | .turn _ | .finish _ =>
    inferInstanceAs (Decidable True)

/-- Bound on the steps to come. -/
def work (s : Listening) : Nat :=
  s.listener.work s.pool.threads.length + (s.pool.threads.map Worker.work).sum +
    2 * s.pool.jobs.length

variable {s t : Listening} {a : Action}

theorem work_set {i : Nat} {w : Worker} (hw : s.pool.threads[i]? = some w) (w' : Worker) :
    ((s.pool.threads.set i w').map Worker.work).sum + w.work =
      (s.pool.threads.map Worker.work).sum + w'.work :=
  Counting.sum_map_set Worker.work hw w'

theorem Step.work_lt (st : Step s a t) (hown : own s a) : t.work < s.work := by
  cases st with
  | check hl =>
    unfold work
    rw [hl]
    show (if s.svrSock = true then Listener.accepting else .shuttingDown).work _ + _ + _ < _
    cases s.svrSock <;> simp only [Listener.work] <;> simp
  | accept a hl =>
    cases a with
    | connection => exact hown.elim
    | retry => exact hown.elim
    | failed =>
      unfold work
      rw [hl]
      simp only [acceptReturned, Listener.work]
      omega
  | push sock hl =>
    unfold work
    rw [hl]
    simp only [Listener.work, List.length_append, List.length_singleton]
    omega
  | refuse sock hl _ =>
    unfold work
    rw [hl]
    simp only [Listener.work]
    omega
  | notified i hl hw =>
    have := work_set hw .checking
    unfold work Listening.setThread
    rw [hl]
    simp only [Listener.work, Worker.work, List.length_set] at this ⊢
    omega
  | noWaiter hl _ =>
    unfold work
    rw [hl]
    simp only [Listener.work]
    omega
  | shutdown hl =>
    unfold work
    rw [hl]
    simp only [Listener.work]
    omega
  | notifyAll hl =>
    have := ThreadPool.work_notifyAll s.pool.threads
    unfold work ThreadPool.notifyAll
    rw [hl]
    simp only [Listener.work]
    omega
  | join hl _ =>
    unfold work
    rw [hl]
    simp only [Listener.work]
    omega
  -- a worker that moves on: only its own share of the sum changes
  | park i hw _ _ =>
    have := work_set hw .waiting
    unfold work Listening.setThread
    simp only [Worker.work, List.length_set] at this ⊢
    omega
  | exit i hw _ _ =>
    have := work_set hw .exited
    unfold work Listening.setThread
    simp only [Worker.work, List.length_set] at this ⊢
    omega
  | take i sock jobs hw hj =>
    have := work_set hw (.running sock)
    unfold work
    rw [hj]
    simp only [Worker.work, List.length_set, List.length_cons] at this ⊢
    omega
  | finish i sock hw =>
    have := work_set hw .checking
    unfold work Listening.setThread
    simp only [Worker.work, List.length_set] at this ⊢
    omega
  | spurious i hw => exact hown.elim
  | stop => exact hown.elim

variable {mqr : Nat}

/-- What no step changes, and that connections are refused by a bounded queue only. -/
structure Sized (mqr : Nat) (s : Listening) : Prop where
  threads : s.pool.threads.length = threadPoolCount
  queue : s.pool.maxQueuedRequests = mqr
  refused : mqr = 0 → s.refused = []

theorem Step.sized (st : Step s a t) (h : Sized mqr s) :
    Sized mqr t := by
  have hset : ∀ i w, (s.pool.threads.set i w).length = threadPoolCount := by
    intro i w
    rw [List.length_set]
    exact h.threads
  cases st with
  | check | push | noWaiter | shutdown | join | stop => exact ⟨h.threads, h.queue, h.refused⟩
  | accept a => cases a <;> exact ⟨h.threads, h.queue, h.refused⟩
  | refuse sock _ hq =>
    refine ⟨h.threads, h.queue, fun h0 => ?_⟩
    rw [h.queue, h0] at hq
    exact absurd hq (Nat.lt_irrefl 0)
  | notifyAll => exact ⟨(List.length_map _).trans h.threads, h.queue, h.refused⟩
  | notified i | park i | exit i | take i | finish i | spurious i =>
    exact ⟨hset _ _, h.queue, h.refused⟩

theorem start_handled : Handled (start mqr) := by
  refine ⟨fun c hc => absurd hc List.not_mem_nil, List.Pairwise.nil, fun c => rfl, fun c => ?_⟩
  have hrun : (start mqr).pool.running = [] := by
    refine List.flatMap_eq_nil_iff.mpr fun w hw => ?_
    rw [List.eq_of_mem_replicate hw]
    rfl
  rw [hrun]
  rfl

theorem start_awake : Awake (start mqr) := by
  have hall : ∀ w ∈ (start mqr).pool.threads, w = .checking :=
    fun w hw => List.eq_of_mem_replicate hw
  refine ⟨rfl, fun he => ?_, fun _ hs => ?_, fun hl => ?_, fun _ => Nat.zero_le _⟩
  · cases hall _ he
  · cases hall _ hs
  · cases hl

theorem Reachable.handled (h : Reachable mqr s) : Handled s :=
  h.invariant (fun _ h0 => h0 ▸ start_handled) fun _ _ _ hs _ hst => (step_cases hst).handled hs

theorem Reachable.awake (h : Reachable mqr s) : Awake s :=
  h.invariant (fun _ h0 => h0 ▸ start_awake) fun _ _ _ hs _ hst => (step_cases hst).awake hs

theorem Reachable.sized (h : Reachable mqr s) :
    Sized mqr s :=
  h.invariant (fun _ h0 => h0 ▸ ⟨List.length_replicate, rfl, fun _ => rfl⟩)
    fun _ _ _ hs _ hst => (step_cases hst).sized hs

theorem Reachable.exists_thread (h : Reachable mqr s) :
    ∃ w, w ∈ s.pool.threads := by
  refine List.exists_mem_of_length_pos ?_
  rw [h.sized.threads]
  decide

/-- Every connection that is accepted is, at every moment, in exactly one place:
in the hand of the accept loop, in the queue, with one worker, or closed, once.
Workers take the connections in the order of their arrival.  When
`listen_internal` returns, all of them have been closed, and unless the queue is
bounded all of them have been processed. -/
theorem listen_handles_each_once (h : Reachable mqr s) :
    (s.started ++ s.pool.jobs).Pairwise (· < ·) ∧
    (s.closed ++ s.pool.running ++ s.pool.jobs ++ s.listener.hand).Perm (List.range s.accepted) ∧
    (s.listener = .returned →
      s.closed.Perm (List.range s.accepted) ∧
      (mqr = 0 → s.started = List.range s.accepted)) := by
  have hhandled := h.handled
  have hplaces : (s.closed ++ s.pool.running ++ s.pool.jobs ++ s.listener.hand).Perm
      (List.range s.accepted) := by
    rw [List.perm_iff_count]
    intro c
    have honce := hhandled.once c
    have hclosed := hhandled.closed c
    simp only [List.count_append] at honce ⊢
    omega
  refine ⟨hhandled.order, hplaces, fun hl => ?_⟩
  have hgone := h.awake.gone hl
  obtain ⟨w, hw⟩ := h.exists_thread
  have hjobs : s.pool.jobs = [] := (h.awake.exited (hgone w hw ▸ hw)).2
  have hrun : s.pool.running = [] := by
    refine List.flatMap_eq_nil_iff.mpr fun w hw => ?_
    rw [hgone w hw]
    rfl
  rw [hjobs, hrun, hl, List.append_nil, List.append_nil] at hplaces
  have hclosed : s.closed.Perm (List.range s.accepted) := by
    simpa only [Listener.hand, List.append_nil] using hplaces
  refine ⟨hclosed, fun h0 => ?_⟩
  have hperm : s.started.Perm (List.range s.accepted) := by
    rw [List.perm_iff_count]
    intro c
    have honce := hhandled.once c
    rw [hjobs, h.sized.refused h0, hl, List.append_nil] at honce
    exact honce
  have horder := hhandled.order
  rw [hjobs, List.append_nil] at horder
  exact hperm.eq_of_pairwise (fun _ _ _ _ hab hba => absurd hab (Nat.lt_asymm hba)) horder
    List.pairwise_lt_range

/-- One connection, during which the server is stopped. -/
def oneAndStop : List Action :=
  [.check, .accept .connection, .enqueue, .notified none, .turn 3, .stop, .check, .shutdown,
    .notifyAll, .finish 3] ++ (List.range threadPoolCount).map .turn

theorem Reachable.start : Reachable mqr (start mqr) :=
  Transition.Reachable.start rfl

theorem exists_reachable (as : List Action) (l : Listener) (n : Nat)
    (hr : (Transition.run step Transition.anyStep (start 0) as).map
      (fun s => (s.listener, s.accepted)) = some (l, n)) :
    ∃ s, Reachable 0 s ∧ s.listener = l ∧ s.accepted = n := by
  obtain ⟨s, hs, hobs⟩ := Option.map_eq_some_iff.mp hr
  obtain ⟨hl, hn⟩ := Prod.mk.inj hobs
  exact ⟨s, Transition.Reachable.run Reachable.start as hs, hl, hn⟩

theorem listen_handles_each_once_stopped :
    ∃ s : Listening, s.listener = .returned ∧ s.accepted = 1 ∧ s.closed.Perm (List.range 1) := by
  obtain ⟨s, hs, hl, hacc⟩ := exists_reachable (oneAndStop ++ [.join]) .returned 1 (by decide)
  have hclosed := ((listen_handles_each_once hs).2.2 hl).1
  exact ⟨s, hl, hacc, hacc ▸ hclosed⟩

theorem Step.svrSock (st : Step s a t) (h : s.svrSock = false) : t.svrSock = false := by
  cases st with
  | accept a => cases a <;> exact h
  | stop => rfl
  | check | push | refuse | notified | noWaiter | shutdown | notifyAll | join | park | exit | take
  | finish | spurious => exact h

theorem run_svrSock {as : List Action} (hr : Transition.run step own s as = some t)
    (h : s.svrSock = false) : t.svrSock = false := by
  induction as generalizing s with
  | nil => exact Option.some.inj hr ▸ h
  | cons a as ih =>
    unfold Transition.run at hr
    split at hr
    · obtain ⟨u, hu, ht⟩ := Option.bind_eq_some_iff.mp hr
      exact ih ht ((step_cases hu).svrSock h)
    · cases hr

/-- Where nothing moves by itself, the accept loop is through, or it waits for a
connection and every worker for a job. -/
theorem Awake.still (h : Awake s) (hthread : ∃ w, w ∈ s.pool.threads)
    (hstill : ∀ a, own s a → step s a = none) :
    s.listener = .returned ∨
      s.svrSock = true ∧ s.listener = .accepting ∧ s.pool.jobs = [] ∧
        ∀ w ∈ s.pool.threads, w = .waiting := by
  -- a worker that checks or runs has a step of its own
  have hworkers : ∀ w ∈ s.pool.threads, w = .waiting ∨ w = .exited := by
    intro w hw
    obtain ⟨i, hi⟩ := List.getElem?_of_mem hw
    cases w with
    | checking =>
      have := hstill (.turn i) trivial
      rw [step, if_pos hi] at this
      cases this
    | running sock =>
      have := hstill (.finish i) trivial
      unfold step at this
      simp only [hi] at this
      cases this
    | waiting => exact .inl rfl
    | exited => exact .inr rfl
  cases hl : s.listener with
  | returned => exact .inl rfl
  | accepting =>
    right
    have hsock : s.svrSock = true := by
      by_contra hsock
      have := hstill (.accept .failed) (Bool.eq_false_iff.mpr hsock)
      rw [step, if_pos hl] at this
      cases this
    have hover : s.pool.shutdown = false := by
      rw [h.ended, hl]
      rfl
    have hwaiting : ∀ w ∈ s.pool.threads, w = .waiting := by
      intro w hw
      refine (hworkers w hw).resolve_right fun he => ?_
      have := (h.exited (he ▸ hw)).1
      rw [hover] at this
      cases this
    refine ⟨hsock, rfl, ?_, hwaiting⟩
    -- with every worker asleep and no notice to come, `wake` leaves no job
    obtain ⟨w, hw⟩ := hthread
    have hwake := h.wake (hwaiting w hw ▸ hw)
    have hchecking : s.pool.threads.count .checking = 0 := by
      rw [List.count_eq_zero]
      intro hc
      cases hwaiting _ hc
    rw [hl, hchecking] at hwake
    exact List.length_eq_zero_iff.mp (Nat.le_zero.mp hwake)
  | loop =>
    have := hstill .check trivial
    rw [step, if_pos hl] at this
    cases this
  | enqueueing sock =>
    have := hstill .enqueue trivial
    unfold step at this
    simp only [hl] at this
    split at this <;> cases this
  | notifying =>
    by_cases hw : .waiting ∈ s.pool.threads
    · obtain ⟨i, hi⟩ := List.getElem?_of_mem hw
      have := hstill (.notified (some i)) trivial
      rw [step, if_pos ⟨hl, hi⟩] at this
      cases this
    · have := hstill (.notified none) trivial
      rw [step, if_pos ⟨hl, hw⟩] at this
      cases this
  | shuttingDown =>
    have := hstill .shutdown trivial
    rw [step, if_pos hl] at this
    cases this
  | notifyingAll =>
    have := hstill .notifyAll trivial
    rw [step, if_pos hl] at this
    cases this
  | joining =>
    have hall : ∀ w ∈ s.pool.threads, w = .exited := by
      intro w hw
      exact (hworkers w hw).resolve_left fun hs => h.told (.inl hl) (hs ▸ hw)
    have := hstill .join trivial
    rw [step, if_pos ⟨hl, hall⟩] at this
    cases this

/-- No job is left to a sleeping pool: while a worker sleeps and a job is queued,
another worker is on its way to the queue or the notice is about to be given.
Left to itself the server comes to rest after at most `work` steps, whatever the
schedule, and it rests only with nothing queued and every worker idle, or, if it
was stopped, after `listen_internal` has returned. -/
theorem listen_comes_to_rest (h : Reachable mqr s) :
    (.waiting ∈ s.pool.threads → s.pool.jobs ≠ [] →
      s.listener = .notifying ∨ .checking ∈ s.pool.threads) ∧
    ∀ as t, Transition.run step own s as = some t →
      as.length ≤ s.work ∧
      ((∀ a, own t a → step t a = none) →
        t.listener = .returned ∨
          s.svrSock = true ∧ t.listener = .accepting ∧ t.pool.jobs = [] ∧
            ∀ w ∈ t.pool.threads, w = .waiting) := by
  refine ⟨fun hs hj => ?_, fun as t hr => ⟨?_, fun hstill => ?_⟩⟩
  · by_contra hno
    obtain ⟨hl, hc⟩ := not_or.mp hno
    have hwake := h.awake.wake hs
    have hnotices : s.listener.notices = 0 := by
      cases hl' : s.listener <;> first | rfl | exact absurd hl' hl
    rw [hnotices, List.count_eq_zero.mpr hc] at hwake
    exact hj (List.length_eq_zero_iff.mp (Nat.le_zero.mp hwake))
  · have := Transition.run_length_le (μ := work)
      (fun _ _ _ hown hst => (step_cases hst).work_lt hown) hr
    omega
  · have ht : Reachable mqr t :=
      Transition.Reachable.run_mono h (fun _ _ _ => trivial) as hr
    rcases ht.awake.still ht.exists_thread hstill with hret | ⟨hsock, hrest⟩
    · exact .inl hret
    · refine .inr ⟨?_, hrest⟩
      by_contra hs
      rw [run_svrSock hr (Bool.eq_false_iff.mpr hs)] at hsock
      cases hsock

/-- Behind `stop` the run `oneAndStop` leaves the join to do. -/
theorem listen_comes_to_rest_stopped :
    ∃ s : Listening, s.svrSock = false ∧ s.listener = .joining ∧
      ∀ t, Transition.run step own s [.join] = some t → 1 ≤ s.work := by
  obtain ⟨s, hs, hobs⟩ := Option.map_eq_some_iff.mp
    (show (Transition.run step Transition.anyStep (start 0) oneAndStop).map
      (fun s => (s.svrSock, s.listener)) = some (false, .joining) by decide)
  obtain ⟨hsock, hl⟩ := Prod.mk.inj hobs
  have h : Reachable 0 s := Transition.Reachable.run Reachable.start oneAndStop hs
  exact ⟨s, hsock, hl, fun t ht => ((listen_comes_to_rest h).2 [.join] t ht).1⟩

end Listening

end EzRemote.Http

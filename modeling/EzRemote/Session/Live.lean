import EzRemote.Pool.Ownership
import EzRemote.Session.Acquire

/-!
# Which clients are handed out

The pool together with what `IsConnected()` says of each client.  A client is
kept only while it is connected, so the pool hands out live sessions; a client
that was just created is as live as `Connect` has left it.
-/

namespace EzRemote.Session

open Pool (Ptr Caller newClient sourceEnv Owned acquireSection clientPoolKey Taken Returns)

/-- The pool, and the answer of `IsConnected()` for the client at each address;
nothing asks a client before its `Connect`. -/
structure Live where
  pool : Pool.State
  connected : Ptr → Bool

/-- A step of the pool with the outcomes of the calls in it, or what a transfer
leaves of a client. -/
inductive LiveAction
  | pool (i : Nat) (a : Pool.Action) (o : Outcomes)
  | transfer (i : Nat) (connected : Bool)

namespace Live

/-- A step that does not ask any client. -/
def stepPool (s : Live) (i : Nat) (a : Pool.Action) (connected : Ptr → Bool) : Option Live :=
  (Pool.step sourceEnv s.pool (i, a)).map fun t => ⟨t, connected⟩

/-- One step of caller `i`. -/
def stepCaller (s : Live) (i : Nat) (o : Outcomes) : Caller → Pool.Action → Option Live
  | .connecting h _ p, .connect =>
    match createPooledClient o h with
    | .ok (.client connected _) => s.stepPool i .connect (Function.update s.connected p connected)
    | .ok .null => none
    -- only the exceptions of the pool's own model leave `Connect`
    | .error _ => if Pool.connectThrows sourceEnv h then s.stepPool i .connect s.connected else none
  | .releasing p _, .enterRelease connected now =>
    if connected = s.connected p then s.stepPool i (.enterRelease connected now) s.connected
    else none
  | _, a => s.stepPool i a s.connected

/-- One step of the pool, its callers and their transfers. -/
def step (s : Live) : LiveAction → Option Live
  | .pool i a o => (s.pool.callers[i]?).bind fun C => s.stepCaller i o C a
  | .transfer i connected =>
    match s.pool.callers[i]? with
    | some (.holding _ p) => some { s with connected := Function.update s.connected p connected }
    | _ => none

/-- States of runs of any number of callers, whatever each `Connect` meets. -/
def Reachable : Live → Prop :=
  Transition.Reachable (fun s => ∃ n, s = ⟨Pool.initial n, fun _ => false⟩) step Transition.anyStep

/-- Every client that waits in the pool is connected. -/
structure Kept (s : Live) : Prop where
  owned : Owned s.pool
  idle : ∀ p ∈ s.pool.pool.idlePtrs, s.connected p = true

end Live

/-- What a step of the pool adds to the idle clients: the client of a release
that found it connected. -/
theorem idle_step {E : Pool.Env} {s s' : Pool.State} {i : Nat} {C : Caller} {a : Pool.Action}
    (st : Pool.Step E s i C a s') {q : Ptr} (hq : q ∈ s'.pool.idlePtrs) :
    q ∈ s.pool.idlePtrs ∨ ∃ success now, C = .releasing q success ∧ a = .enterRelease true now := by
  cases st with
  | move m => exact .inl hq
  | enterAcquire h clock t spec =>
    have hcount := spec.count q
    have hpos : 0 < t.pool.idlePtrs.count q := List.count_pos_iff.mpr hq
    exact .inl (List.count_pos_iff.mp (by omega))
  | destroy d hc => exact .inl hq
  | finish h reusable p => exact .inl (by simpa [Pool.State.note, Pool.State.setCaller] using hq)
  | create h reusable p cls hn hp => exact .inl hq
  | throw h reusable p ht => exact .inl hq
  | connect h p c hc ht => exact .inl hq
  | connectAlone h p c hc ht => exact .inl hq
  | register h p => exact .inl hq
  | setCallback h p c t hc hf => exact .inl hq
  | releasePooled p c key now hc hk hroom =>
    by_cases hqp : q = p
    · exact .inr ⟨true, now, by rw [hqp], rfl⟩
    · have hcount := Pool.ClientPool.count_setIdle s.pool q key
        (p :: (s.pool.clientPoolIdle.lookup key).getD [])
      rw [List.count_cons_of_ne (Ne.symm hqp)] at hcount
      have hpos : 0 < (s.pool.setIdle key
          (p :: (s.pool.clientPoolIdle.lookup key).getD [])).idlePtrs.count q :=
        List.count_pos_iff.mpr hq
      exact .inl (List.count_pos_iff.mp (by omega))
  | releaseDropped p c success connected now hc => exact .inl hq
  | enterClear => cases hq

namespace Live

/-- What a step of the pool does to the answers: it changes them at most for an
address that waits nowhere, and it pools only a connected client. -/
theorem Kept.stepPool {s t : Live} {i : Nat} {a : Pool.Action} {connected : Ptr → Bool}
    (hk : s.Kept) {C : Caller} (hC : s.pool.callers[i]? = some C)
    (hsame : ∀ p ∈ s.pool.pool.idlePtrs, connected p = s.connected p)
    (hnew : ∀ p success now, C = .releasing p success → a = .enterRelease true now →
      connected p = true) (h : s.stepPool i a connected = some t) : t.Kept := by
  obtain ⟨t', hstep, rfl⟩ := Option.map_eq_some_iff.mp h
  obtain ⟨C', hC', st⟩ := Pool.step_caller hstep
  cases Option.some.inj (hC.symm.trans hC')
  refine ⟨Pool.owned_step hk.owned hC st, ?_⟩
  intro q hq
  rcases idle_step st hq with hold | ⟨success, now, rfl, rfl⟩
  · exact (hsame q hold).trans (hk.idle q hold)
  · exact hnew q success now rfl rfl

theorem Kept.held_update {s : Live} (hk : s.Kept) {i : Nat} {C : Caller}
    (hC : s.pool.callers[i]? = some C) {p : Ptr} (hp : p ∈ C.held) (b : Bool) :
    ∀ q ∈ s.pool.pool.idlePtrs, Function.update s.connected p b q = s.connected q := by
  intro q hq
  refine Function.update_of_ne ?_ _ _
  rintro rfl
  exact hk.owned.held_not_idle hC hp hq

theorem Kept.step {s t : Live} {a : LiveAction} (hk : s.Kept) (h : s.step a = some t) : t.Kept := by
  cases a with
  | transfer i connected =>
    unfold Live.step at h
    dsimp only at h
    split at h
    · rename_i hC
      cases h
      refine ⟨hk.owned, ?_⟩
      intro q hq
      exact (hk.held_update hC List.mem_cons_self _ q hq).trans (hk.idle q hq)
    · cases h
  | pool i a o =>
    obtain ⟨C, hC, h⟩ := Option.bind_eq_some_iff.mp h
    unfold Live.stepCaller at h
    split at h
    -- Connect
    · split at h
      · exact hk.stepPool hC (hk.held_update hC List.mem_cons_self _) (fun _ _ _ h => nomatch h) h
      · cases h
      · split at h
        · exact hk.stepPool hC (fun _ _ => rfl) (fun _ _ _ h => nomatch h) h
        · cases h
    -- the release asks the client
    · split at h
      · rename_i hb
        refine hk.stepPool hC (fun _ _ => rfl) ?_ h
        intro q success now hq ha
        cases hq
        cases ha
        exact hb.symm
      · cases h
    · rename_i hrelease
      refine hk.stepPool hC (fun _ _ => rfl) ?_ h
      intro q success now hq ha
      exact absurd ha (hrelease q success true now hq)

theorem kept_reachable {s : Live} (h : Reachable s) : s.Kept := by
  refine Transition.Reachable.invariant h ?_ fun s a t hk _ hs => hk.step hs
  rintro _ ⟨n, rfl⟩
  refine ⟨Pool.owned_initial n, ?_⟩
  intro p hp
  cases hp

/-- What the first part of `AcquireRemoteClient` takes out of the pool. -/
def taken (s : Live) (h : HostInfo) (reusable : Bool) (clock : List Int) : Option Taken :=
  if reusable then acquireSection s.pool.maxIdle (clientPoolKey h) clock s.pool.pool
  else some ⟨s.pool.pool, [], [], none⟩

end Live

/-- No transfer meets a client whose `Connect` failed. -/
def Acquired.Usable : Acquired → Prop
  | .null => True
  | .client connected connect => connected = true ∧ connect ≠ some 0

/-- `AcquireRemoteClient` behind its first part. -/
def Live.acquire (s : Live) (o : Outcomes) (h : HostInfo) (t : Taken) : Runs Acquired :=
  acquireRemoteClient s.connected o h t

theorem Live.Kept.taken_connected {s : Live} (hk : s.Kept) {h : HostInfo} {reusable : Bool}
    {clock : List Int} {t : Taken} (ht : s.taken h reusable clock = some t) {p : Ptr}
    {now : Option Int} (hp : t.client = some (p, now)) : s.connected p = true := by
  unfold Live.taken at ht
  cases reusable with
  | false =>
    cases ht
    cases hp
  | true =>
    have spec := Pool.acquireSection_spec ht
    have hremoved : p ∈ t.removed := by
      rw [Taken.removed, hp]
      exact List.mem_append_right _ List.mem_cons_self
    obtain ⟨v, hv, hmem⟩ := spec.source p hremoved
    exact hk.idle p (Pool.ClientPool.mem_idlePtrs.mpr ⟨_, v, hv, hmem⟩)

/-- What a call hands out is usable exactly where it takes a client out of the pool or
its `Connect` makes a session: the result of `Connect` is not looked at. -/
theorem usable_iff {s : Live} (hs : Live.Reachable s) {o : Outcomes} {h : HostInfo}
    {reusable : Bool} {clock : List Int} {t : Taken} (ht : s.taken h reusable clock = some t)
    {letIn : Prop} (hletIn : ∀ x, ftpLogin o.ftp h.username h.password = some x →
      (x.2.isConnected = true ↔ o.ftp.Reached ∧ letIn)) :
    (∀ a, s.acquire o h t = .ok a → a.Usable) ↔
      (t.client = none → ∀ cls, newClient h = some cls → Returns (connect o h cls) →
        Succeeds o letIn h cls) := by
  have hk := Live.kept_reachable hs
  unfold Live.acquire acquireRemoteClient
  cases hclient : t.client with
  | some x =>
    obtain ⟨p, now⟩ := x
    refine iff_of_true ?_ fun h => nomatch h
    intro a ha
    cases ha
    exact ⟨hk.taken_connected ht hclient, fun h => nomatch h⟩
  | none =>
    unfold createPooledClient
    cases hnew : newClient h with
    | none =>
      refine iff_of_true ?_ fun _ _ h => nomatch h
      intro a ha
      cases ha
      trivial
    | some cls =>
      constructor
      · rintro hall _ _ hcls ⟨r, hr⟩
        cases hcls
        have husable := hall (.client r.2 (some r.1)) (congrArg (· >>= _) hr)
        exact (connect_live hletIn hr).1.mp husable.1
      · intro hsucceeds a ha
        obtain ⟨r, hr, ha⟩ := bind_eq_ok ha
        cases ha
        obtain ⟨hlive, hret⟩ := connect_live hletIn hr
        have hconnected := hlive.mpr (hsucceeds rfl cls rfl ⟨r, hr⟩)
        exact ⟨hconnected, fun h => hret hconnected (Option.some.inj h)⟩

/-- A call of `AcquireRemoteClient` hands out a live session, or a null pointer,
exactly where it takes a client out of the pool or its `Connect` makes a session.  Of
an FTP server the replies decide, and where it sends anything else, what the calls of
`Connect` make of that. -/
theorem live_sessions_iff {s : Live} (hs : Live.Reachable s) (o : Outcomes) (h : HostInfo)
    (reusable : Bool) (clock : List Int) (t : Taken) (ht : s.taken h reusable clock = some t) :
    (∀ replies, o.ftp.Says replies → ((∀ a, s.acquire o h t = .ok a → a.Usable) ↔
      (t.client = none → ∀ cls, newClient h = some cls → Returns (connect o h cls) →
        Succeeds o (replies.LetIn h.username h.password) h cls))) ∧
    ((∀ a, s.acquire o h t = .ok a → a.Usable) ↔
      (t.client = none → ∀ cls, newClient h = some cls → Returns (connect o h cls) →
        Succeeds o (Admits o.ftp.server h.username h.password
          ⟨greeted Ftp.ftpClient, o.ftp.greeting, []⟩) h cls)) := by
  constructor
  · intro replies hspoke
    exact usable_iff hs ht fun x hx => ftpLogin_connected_iff hspoke hx
  · exact usable_iff hs ht fun x hx => (ftpLogin_isConnected hx).1

/-- A pool of one caller that nothing has used. -/
def unused : Live := ⟨Pool.initial 1, fun _ => false⟩

/-- An export that mounts or not, and nothing else that answers. -/
def mounting (mount : Int) : Outcomes := { silentServers with nfs := ⟨some 1, true, mount⟩ }

def nfsHost : HostInfo :=
  { type := 5, url := bytes "nfs://h/e", httpServerType := [], username := [], password := [] }

theorem unused_taken (h : HostInfo) :
    unused.taken h true [] = some ⟨.empty, [], [], none⟩ := rfl

theorem unused_reachable : unused.Reachable := .start ⟨1, rfl⟩

theorem live_sessions_iff_mounted : ∃ t, unused.taken nfsHost true [] = some t ∧
    Returns (unused.acquire (mounting 0) nfsHost t) ∧
    ∀ a, unused.acquire (mounting 0) nfsHost t = .ok a → a.Usable := by
  refine ⟨_, unused_taken nfsHost, ⟨.client true (some 1), by decide⟩, ?_⟩
  obtain ⟨replies, hspoke⟩ := silentServers_tame.ftp
  have hiff := (live_sessions_iff unused_reachable (mounting 0) nfsHost true [] _
    (unused_taken nfsHost)).1 replies hspoke
  refine hiff.mpr ?_
  intro _ cls hcls _
  have hnfs : cls = .nfsClient := Option.some.inj (hcls.symm.trans (by decide))
  rw [hnfs]
  exact ⟨rfl, rfl, rfl⟩

/-- A mount that fails: the client is handed out with `Connect` having returned
0. -/
theorem live_sessions_iff_unmounted : ∃ t, unused.Reachable ∧
    unused.taken nfsHost true [] = some t ∧
    unused.acquire (mounting (-1)) nfsHost t = .ok (.client false (some 0)) := by
  exact ⟨_, unused_reachable, unused_taken nfsHost, by decide⟩

end EzRemote.Session

import Mathlib
import EzRemote.Lib.Separator
import EzRemote.Util
import EzRemote.Pool.Ownership

/-!
# Whose session a caller is given

A client is pooled under `ClientPoolKey` of the host it was connected with, and
served to every host with that key.  So the account and the kind of a served
client are those asked for exactly where the key determines them.
-/

namespace EzRemote.Pool

theorem bar_notMem_toDecimal (n : Int) : bar ∉ toDecimal n := by
  intro h
  exact absurd (mem_toDecimal h).2 (by decide)

theorem toDecimal_injective : Function.Injective toDecimal := by
  intro m n h
  have hc := congrArg (List.map fun b => Char.ofNat b.toNat) h
  rw [map_toDecimal, map_toDecimal, String.toList_inj] at hc
  exact Int.repr_injective hc

/-- The fields that `ClientPoolKey` joins. -/
def keyFields (h : HostInfo) : List Bytes :=
  [toDecimal h.type, h.url, h.username, h.password]

theorem clientPoolKey_eq (h : HostInfo) :
    clientPoolKey h = [bar].intercalate (keyFields h) := by
  simp [clientPoolKey, keyFields, List.intercalate]

/-- None of the three strings contains the separator. -/
def BarFree (h : HostInfo) : Prop := bar ∉ h.url ∧ bar ∉ h.username ∧ bar ∉ h.password

theorem type_of_clientPoolKey {h h' : HostInfo} (he : clientPoolKey h' = clientPoolKey h) :
    h'.type = h.type := by
  have hcut : ∀ g : HostInfo, (clientPoolKey g).takeWhile (· != bar) = toDecimal g.type := by
    intro g
    have hfree : ∀ b ∈ toDecimal g.type, (b != bar) = true := by
      intro b hb
      simp only [bne_iff_ne, ne_eq]
      rintro rfl
      exact bar_notMem_toDecimal g.type hb
    rw [clientPoolKey, List.takeWhile_append_of_pos hfree]
    simp
  exact toDecimal_injective (by rw [← hcut, he, hcut])

theorem account_of_clientPoolKey {h h' : HostInfo} (hfree : BarFree h)
    (he : clientPoolKey h' = clientPoolKey h) : h'.account = h.account := by
  have hj : keyFields h = keyFields h' := by
    refine Separator.eq_of_join_eq rfl (by simp [keyFields]) ?_
      (by rw [← clientPoolKey_eq, ← clientPoolKey_eq, he])
    simp only [keyFields, List.mem_cons, List.not_mem_nil, or_false]
    rintro l (rfl | rfl | rfl | rfl)
    · exact bar_notMem_toDecimal h.type
    · exact hfree.1
    · exact hfree.2.1
    · exact hfree.2.2
  simp only [keyFields, List.cons.injEq, and_true] at hj
  obtain ⟨ht, hu, hn, hp⟩ := hj
  simp only [HostInfo.account, Prod.mk.injEq]
  exact ⟨type_of_clientPoolKey he, hu.symm, hn.symm, hp.symm⟩

/-- A separator inside a field can be read as the end of that field. -/
theorem exists_collision {h : HostInfo} (hbar : ¬ BarFree h) :
    ∃ h', clientPoolKey h' = clientPoolKey h ∧ h'.account ≠ h.account := by
  have hmem : bar ∈ h.url ∨ bar ∈ h.username ∨ bar ∈ h.password := by
    by_contra hno
    simp only [not_or] at hno
    exact hbar hno
  rcases hmem with hm | hm | hm <;> obtain ⟨a, b, hab⟩ := List.append_of_mem hm
  · refine ⟨{ h with url := a, username := b, password := h.username ++ bar :: h.password }, ?_, ?_⟩
    · simp [clientPoolKey, hab]
    · intro he
      have hl := congrArg (fun x => x.2.1.length) he
      simp [HostInfo.account, hab] at hl
  · refine ⟨{ h with username := a, password := b ++ bar :: h.password }, ?_, ?_⟩
    · simp [clientPoolKey, hab]
    · intro he
      have hl := congrArg (fun x => x.2.2.1.length) he
      simp [HostInfo.account, hab] at hl
  · refine ⟨{ h with username := h.username ++ bar :: a, password := b }, ?_, ?_⟩
    · simp [clientPoolKey, hab]
    · intro he
      have hl := congrArg (fun x => x.2.2.2.length) he
      simp [HostInfo.account, hab] at hl
      omega

/-- The key names the account exactly where no field contains the separator. -/
theorem key_separates_iff (h : HostInfo) :
    (∀ h', clientPoolKey h' = clientPoolKey h → h'.account = h.account) ↔ BarFree h := by
  constructor
  · intro hsep
    by_contra hbar
    obtain ⟨h', he, hne⟩ := exists_collision hbar
    exact hne (hsep h' he)
  · intro hfree h' he
    exact account_of_clientPoolKey hfree he

/-- The calls of `AcquireRemoteClient` are for hosts in `H`. -/
def hostsIn (H : HostInfo → Prop) (_ : State) : Nat × Action → Prop
  | (_, .acquire h _) => H h
  | _ => True

instance (H : HostInfo → Prop) [DecidablePred H] (s : State) (a : Nat × Action) :
    Decidable (hostsIn H s a) := by
  unfold hostsIn
  split <;> infer_instance

/-- `Connect` was called with a host of the run, returned, and was followed by
the path encoding of that host. -/
structure Connected (E : Env) (H : HostInfo → Prop) (c : RemoteClient) : Prop where
  host : H c.host
  cls : newClient c.host = some c.cls
  returns : connectThrows E c.host = false
  urlEncode : c.urlEncode = pathEncoding c.host

/-- What a caller may assume of the client it has. -/
def CallerServed (E : Env) (H : HostInfo → Prop) (heap : Ptr → Option RemoteClient) :
    Caller → Prop
  | .acquiring h _ | .draining h _ _ none => H h
  | .draining h _ _ (some p) | .holding h p =>
    H h ∧ ∃ c, heap p = some c ∧ Connected E H c ∧ clientPoolKey c.host = clientPoolKey h
  | .connecting h _ p => H h ∧ ∃ c, heap p = some c ∧ c.host = h ∧ newClient h = some c.cls
  | .registering h p => H h ∧ ∃ c, heap p = some c ∧ c.host = h ∧ Connected E H c
  | .outside | .releasing _ _ | .dropping _ | .clearing | .sweeping _ => True

structure Serving (E : Env) (H : HostInfo → Prop) (s : State) : Prop where
  pooled : ∀ p k, s.pool.clientPoolKey p = some k →
    ∃ c, s.heap p = some c ∧ Connected E H c ∧ clientPoolKey c.host = k
  callers : ∀ (i : Nat) (C : Caller), s.callers[i]? = some C → CallerServed E H s.heap C

variable {E : Env} {H : HostInfo → Prop}

theorem Connected.resetTransferState {c : RemoteClient} (hc : Connected E H c) :
    Connected E H c.resetTransferState := by
  unfold RemoteClient.resetTransferState
  split
  · exact ⟨hc.host, hc.cls, hc.returns, hc.urlEncode⟩
  · exact hc

theorem resetTransferState_host (c : RemoteClient) : c.resetTransferState.host = c.host := by
  unfold RemoteClient.resetTransferState
  split <;> rfl

theorem CallerServed.congr {heap heap' : Ptr → Option RemoteClient} {C : Caller}
    (h : CallerServed E H heap C) (he : ∀ p ∈ C.held, heap' p = heap p) :
    CallerServed E H heap' C := by
  unfold CallerServed at h ⊢
  split at h <;> simp_all [Caller.held]

/-- A step of caller `i` that changes the heap at most at `p`, which no other
caller owns, leaves what the others may assume. -/
theorem Serving.callers_set {s : State} (hv : Serving E H s) {i : Nat} {C' : Caller}
    {heap' : Ptr → Option RemoteClient}
    (hframe : ∀ (j : Nat) (D : Caller), j ≠ i → s.callers[j]? = some D →
      ∀ q ∈ D.held, heap' q = s.heap q)
    (hnew : CallerServed E H heap' C') (j : Nat) (D : Caller)
    (hj : (s.callers.set i C')[j]? = some D) : CallerServed E H heap' D := by
  rw [List.getElem?_set] at hj
  split at hj
  · split at hj
    · rw [Option.some.injEq] at hj
      exact hj ▸ hnew
    · cases hj
  · rename_i hij
    exact (hv.callers j D hj).congr (hframe j D (Ne.symm hij) hj)

theorem Owned.frame {s : State} (ho : Owned s) {i : Nat} {C : Caller} {p : Ptr}
    {v : Option RemoteClient} (hi : s.callers[i]? = some C) (hp : p ∈ C.held) (j : Nat)
    (D : Caller) (hij : j ≠ i) (hj : s.callers[j]? = some D) (q : Ptr) (hq : q ∈ D.held) :
    Function.update s.heap p v q = s.heap q := by
  refine Function.update_of_ne ?_ _ _
  rintro rfl
  exact ho.held_disjoint hij hj hi hq hp

theorem Serving.pooled_update {s : State} (hv : Serving E H s) {p : Ptr} {c : RemoteClient}
    (hp : ∀ k, s.pool.clientPoolKey p = some k → Connected E H c ∧ clientPoolKey c.host = k)
    (q : Ptr) (k : Bytes) (hk : s.pool.clientPoolKey q = some k) :
    ∃ d, Function.update s.heap p (some c) q = some d ∧ Connected E H d ∧
      clientPoolKey d.host = k := by
  by_cases hq : q = p
  · subst hq
    exact ⟨c, Function.update_self .., hp k hk⟩
  · rw [Function.update_of_ne hq]
    exact hv.pooled q k hk

theorem serving_register {s : State} (hv : Serving E H s) {i : Nat} {h : HostInfo} {p : Ptr}
    {log : List Event} (hi : s.callers[i]? = some (.registering h p)) :
    Serving E H { s with
      pool := s.pool.setKey p (some (clientPoolKey h))
      callers := s.callers.set i (.holding h p)
      log := log } := by
  obtain ⟨hh, c, hc, hhost, hconn⟩ := hv.callers i _ hi
  constructor
  · intro q k hk
    change (s.pool.setKey p _).clientPoolKey q = some k at hk
    rw [ClientPool.setKey_key] at hk
    split at hk
    · rename_i hq
      rw [Option.some.injEq] at hk
      exact ⟨c, hq ▸ hc, hconn, by rw [hhost, hk]⟩
    · exact hv.pooled q k hk
  · exact hv.callers_set (fun _ _ _ _ _ _ => rfl) ⟨hh, c, hc, hconn, by rw [hhost]⟩

section Sections

variable {s : State} (ho : Owned s) (hv : Serving E H s) {i : Nat} {C C' : Caller}
include ho hv

theorem serving_enterAcquire {h : HostInfo} {t : Taken} (hh : H h)
    (spec : AcquireSpec s.maxIdle (clientPoolKey h) s.pool t) : Serving E H (s.taken i h t) := by
  refine ⟨fun q k hk => hv.pooled q k (spec.key_of_taken hk),
    hv.callers_set (fun _ _ _ _ _ _ => rfl) ?_⟩
  cases hc : t.client with
  | none => exact hh
  | some x =>
    have hx : x.1 ∈ t.removed := by simp [Taken.removed, hc]
    obtain ⟨v, hlook, hm⟩ := spec.source x.1 hx
    exact ⟨hh, hv.pooled x.1 _ (ho.key _ v hlook x.1 hm)⟩

theorem serving_destroy {p : Ptr} {c : RemoteClient} {log : List Event}
    (hi : s.callers[i]? = some C) (d : Destroys C p C') :
    Serving E H { s with
      heap := Function.update s.heap p none
      callers := s.callers.set i C'
      destroyed := c.id :: s.destroyed
      log := log } := by
  have hC := hv.callers i C hi
  obtain ⟨hheld, hun⟩ := d.held_eq
  have hkey : s.pool.clientPoolKey p = none := ho.unkeyed i C hi p (by simp [hun])
  constructor
  · intro q k hk
    have hq : q ≠ p := by
      rintro rfl
      rw [hkey] at hk
      cases hk
    simpa only [Function.update_of_ne hq] using hv.pooled q k hk
  · refine hv.callers_set (ho.frame hi (by simp [hheld])) ?_
    have hone : p ∉ C'.held := by
      have := ho.held_once hi (p := p)
      rw [hheld, List.count_cons_self] at this
      exact List.count_eq_zero.mp (by omega)
    have hrest : CallerServed E H s.heap C' := by
      cases d with
      | expired h r p expired client => cases client <;> exact hC
      | dropped p => trivial
      | swept p clients => trivial
    refine hrest.congr ?_
    intro q hq
    refine Function.update_of_ne ?_ _ _
    rintro rfl
    exact hone hq

theorem serving_create {h : HostInfo} {reusable : Bool} {p : Ptr} {cls : ClientClass} {b : Nat}
    {log : List Event} (hh : H h) (hn : newClient h = some cls) (hp : s.heap p = none) :
    Serving E H { s with
      heap := Function.update s.heap p (some { id := b, cls := cls, host := h })
      callers := s.callers.set i (.connecting h reusable p)
      born := s.born + 1
      log := log } := by
  constructor
  · refine hv.pooled_update ?_
    intro k hk
    obtain ⟨c, hc, -⟩ := hv.pooled p k hk
    rw [hp] at hc
    cases hc
  · refine hv.callers_set ?_ ⟨hh, _, Function.update_self .., rfl, hn⟩
    intro j D hij hj q hq
    refine Function.update_of_ne ?_ _ _
    rintro rfl
    have := ho.held_live hj hq
    rw [hp] at this
    cases this

/-- `Connect` returned, so the client serves its caller wherever that goes next. -/
theorem serving_connect {h : HostInfo} {reusable : Bool} {p : Ptr} {c : RemoteClient}
    {log : List Event} (hi : s.callers[i]? = some (.connecting h reusable p))
    (hc : s.heap p = some c) (ht : connectThrows E h = false)
    (hnext : ∀ heap, H h → heap p = some { c with urlEncode := pathEncoding h } → c.host = h →
      Connected E H { c with urlEncode := pathEncoding h } → CallerServed E H heap C') :
    Serving E H { s with
      heap := Function.update s.heap p (some { c with urlEncode := pathEncoding h })
      callers := s.callers.set i C'
      log := log } := by
  obtain ⟨hh, d, hd, hhost, hcls⟩ := hv.callers i _ hi
  rw [hc, Option.some.injEq] at hd
  subst hd
  have hkey := ho.unkeyed i _ hi p (by simp [Caller.unkeyed])
  constructor
  · refine hv.pooled_update ?_
    intro k hk
    rw [hkey] at hk
    cases hk
  · refine hv.callers_set (ho.frame hi (by simp [Caller.held])) ?_
    subst hhost
    exact hnext _ hh (Function.update_self ..) rfl ⟨hh, hcls, ht, rfl⟩

theorem serving_setCallback {h : HostInfo} {p : Ptr} {c : RemoteClient} {t : TransferState}
    (hi : s.callers[i]? = some (.holding h p)) (hc : s.heap p = some c) :
    Serving E H (s.setClient p { c with transfer := t }) := by
  obtain ⟨hh, d, hd, hconn, hkey⟩ := hv.callers i _ hi
  rw [hc, Option.some.injEq] at hd
  subst hd
  have hconn' : Connected E H { c with transfer := t } :=
    ⟨hconn.host, hconn.cls, hconn.returns, hconn.urlEncode⟩
  constructor
  · refine hv.pooled_update ?_
    intro k hk
    obtain ⟨d, hd, -, hdk⟩ := hv.pooled p k hk
    rw [hc, Option.some.injEq] at hd
    exact ⟨hconn', by rw [← hdk, ← hd]⟩
  · intro j D hj
    refine hv.callers_set (ho.frame hi (by simp [Caller.held])) ?_ j D
      ((callers_set_self hi).symm ▸ hj)
    exact ⟨hh, _, Function.update_self .., hconn', hkey⟩

theorem serving_releasePooled {p : Ptr} {c : RemoteClient} {key : Bytes} {v : List Ptr} {now : Int}
    {log : List Event} (hi : s.callers[i]? = some (.releasing p true)) (hc : s.heap p = some c)
    (hk : s.pool.clientPoolKey p = some key) :
    Serving E H { s with
      pool := (s.pool.setIdle key v).setIdleSince p (some now)
      heap := Function.update s.heap p (some c.resetTransferState)
      callers := s.callers.set i .outside
      log := log } := by
  obtain ⟨d, hd, hconn, hkey⟩ := hv.pooled p key hk
  rw [hc, Option.some.injEq] at hd
  subst hd
  constructor
  · refine hv.pooled_update ?_
    intro k hk'
    rw [hk, Option.some.injEq] at hk'
    exact ⟨hconn.resetTransferState, by rw [resetTransferState_host, hkey, hk']⟩
  · exact hv.callers_set (ho.frame hi (by simp [Caller.held])) trivial

end Sections

theorem serving_step {s s' : State} {i : Nat} {C : Caller} {a : Action} (ho : Owned s)
    (hv : Serving E H s) (hi : s.callers[i]? = some C) (hok : hostsIn H s (i, a))
    (st : Step E s i C a s') : Serving E H s' := by
  have hC := hv.callers i C hi
  have hsame : ∀ (j : Nat) (D : Caller), j ≠ i → s.callers[j]? = some D →
      ∀ q ∈ D.held, s.heap q = s.heap q := fun _ _ _ _ _ _ => rfl
  cases st with
  | move m =>
    refine ⟨hv.pooled, hv.callers_set hsame ?_⟩
    cases m with
    | acquire h r => exact hok
    | skip h => exact hC
    | _ => trivial
  | enterAcquire h clock t spec => exact serving_enterAcquire ho hv hC spec
  | destroy d hc => exact serving_destroy ho hv hi d
  | finish h r p => exact ⟨hv.pooled, hv.callers_set hsame hC⟩
  | create h r p cls hn hp => exact serving_create ho hv hC hn hp
  | throw h r p ht => exact ⟨hv.pooled, hv.callers_set hsame trivial⟩
  | connect h p c hc ht =>
    exact serving_connect ho hv hi hc ht fun _ hh hp hhost hconn => ⟨hh, _, hp, hhost, hconn⟩
  | connectAlone h p c hc ht =>
    exact serving_connect ho hv hi hc ht fun _ hh hp hhost hconn =>
      ⟨hh, _, hp, hconn, congrArg clientPoolKey hhost⟩
  | register h p => exact serving_register hv hi
  | setCallback h p c t hc hf => exact serving_setCallback ho hv hi hc
  | releasePooled p c key now hc hk hroom => exact serving_releasePooled ho hv hi hc hk
  | releaseDropped p c success connected now hc =>
    constructor
    · intro q k hk
      rw [ClientPool.setKey_key] at hk
      split at hk
      · cases hk
      · exact hv.pooled q k hk
    · exact hv.callers_set hsame trivial
  | enterClear =>
    constructor
    · intro q k hk
      cases hk
    · exact hv.callers_set hsame trivial

theorem serving_initial (n : Nat) : Serving E H (initial n) := by
  constructor
  · intro p k hk
    cases hk
  · intro i C hi
    have hC : C = .outside := List.eq_of_mem_replicate (List.mem_of_getElem? hi)
    rw [hC]
    trivial

theorem serving_reachable {s : State} (h : Reachable E (hostsIn H) s) : Serving E H s := by
  refine (@Transition.Reachable.invariant _ _ _ _ _
    (fun s => Owned s ∧ Serving E H s) s h ?_ ?_).2
  · rintro _ ⟨n, rfl⟩
    exact ⟨owned_initial n, serving_initial n⟩
  · intro s a t ⟨ho, hv⟩ hok hs
    obtain ⟨C, hC, st⟩ := step_caller hs
    exact ⟨owned_step ho hC st, serving_step ho hv hC hok st⟩

/-- Every client that a call for `h` returns in a run over hosts in `H`. -/
def Serves (E : Env) (H : HostInfo → Prop) (h : HostInfo) (P : RemoteClient → Prop) : Prop :=
  ∀ s, Reachable E (hostsIn H) s → ∀ (i : Nat) (p : Ptr), s.callers[i]? = some (.holding h p) →
    ∃ c, s.heap p = some c ∧ P c

/-- `CreatePooledClient` returns a client for this host. -/
def Connects (E : Env) (h : HostInfo) : Prop :=
  newClient h ≠ none ∧ connectThrows E h = false

/-- One caller and at most one client, at address 0. -/
def solo (pool : ClientPool) (c : Option RemoteClient) (C : Caller) (log : List Event) : State :=
  ⟨pool, Function.update (fun _ => none) 0 c, [C], c.toList.length, [], [], log⟩

/-- A client connected for `h'` and released is served to `h`. -/
theorem exists_served {h h' : HostInfo} (hH : H h) (hH' : H h') (hc : Connects E h')
    (hk : clientPoolKey h' = clientPoolKey h) :
    ∃ s, Reachable E (hostsIn H) s ∧ s.callers[0]? = some (.holding h 0) ∧
      ∃ c, s.heap 0 = some c ∧ c.host = h' ∧ createPooledClient h' = some (c.cls, c.urlEncode) := by
  obtain ⟨hn, ht⟩ := hc
  obtain ⟨cls, hcls⟩ := Option.ne_none_iff_exists'.mp hn
  have hold : ¬ (0 : Int) - 0 > cls.getMaxIdleTimeout := by cases cls <;> decide
  let c : RemoteClient := { id := 0, cls := cls, host := h' }
  let d : RemoteClient := { c with urlEncode := pathEncoding h' }
  have hreset : d.resetTransferState = d := by
    unfold RemoteClient.resetTransferState
    split <;> rfl
  let held : ClientPool := ClientPool.empty.setKey 0 (some (clientPoolKey h'))
  let pooled : ClientPool := (held.setIdle (clientPoolKey h') [0]).setIdleSince 0 (some 0)
  -- one caller: acquire for `h'`, connect, release with success, acquire for `h`
  have r0 : Reachable E (hostsIn H) (solo .empty none .outside []) := by
    refine .start ⟨1, ?_⟩
    simp [solo, initial]
  have r1 : Reachable E (hostsIn H) (solo .empty none (.acquiring h' true) []) :=
    r0.next (a := (0, .acquire h' true)) (by exact hH') rfl
  have r2 : Reachable E (hostsIn H) (solo .empty none (.draining h' true [] none) []) :=
    r1.next (a := (0, .enterAcquire [])) (by trivial) rfl
  have r3 : Reachable E (hostsIn H) (solo .empty (some c) (.connecting h' true 0) [.created 0 c]) := by
    refine r2.next (a := (0, .create 0)) (by trivial) ?_
    simp [step, stepCaller, solo, hcls, State.setClient, State.setCaller, c]
  have r4 : Reachable E (hostsIn H) (solo .empty (some d) (.registering h' 0) [.created 0 c]) := by
    refine r3.next (a := (0, .connect)) (by trivial) ?_
    simp [step, stepCaller, solo, ht, State.setClient, State.setCaller, d]
  have r5 : Reachable E (hostsIn H)
      (solo held (some d) (.holding h' 0) [.returned 0 d, .created 0 c]) := by
    refine r4.next (a := (0, .register)) (by trivial) ?_
    simp [step, stepCaller, solo, State.note, State.setCaller, held]
  have r6 : Reachable E (hostsIn H)
      (solo held (some d) (.releasing 0 true) [.returned 0 d, .created 0 c]) :=
    r5.next (a := (0, .release true)) (by trivial) rfl
  have r7 : Reachable E (hostsIn H) (solo pooled (some d) .outside
      [.released 0 d true true true 0, .returned 0 d, .created 0 c]) := by
    refine r6.next (a := (0, .enterRelease true 0)) (by trivial) ?_
    simp [step, stepCaller, solo, State.note, State.setCaller, State.setClient, held, pooled,
      releaseSection, ClientPool.setKey_key, clientPoolMaxIdle, hreset]
  have r8 : Reachable E (hostsIn H) (solo pooled (some d) (.acquiring h true)
      [.released 0 d true true true 0, .returned 0 d, .created 0 c]) :=
    r7.next (a := (0, .acquire h true)) (by exact hH) rfl
  let left : ClientPool := (pooled.setIdleSince 0 none).setIdle (clientPoolKey h) []
  have r9 : Reachable E (hostsIn H) (solo left (some d) (.draining h true [] (some 0))
      [.handedOut 0 d (some 0), .released 0 d true true true 0, .returned 0 d, .created 0 c]) := by
    refine r8.next (a := (0, .enterAcquire [0])) (by trivial) ?_
    have htake : ∀ maxIdle : Ptr → Int, ¬ (0 : Int) - 0 > maxIdle 0 →
        takeIdle maxIdle [0] [0] pooled =
          some ⟨pooled.setIdleSince 0 none, [], [], some (0, some 0)⟩ := by
      intro maxIdle hage
      unfold takeIdle
      simp only [pooled, ClientPool.setIdleSince_since, if_true]
      rw [if_neg hage]
    have hlook : pooled.clientPoolIdle.lookup (clientPoolKey h) = some [0] := by
      simp [pooled, hk]
    simp only [step, stepCaller, acquireSection, solo, List.getElem?_cons_zero,
      Option.bind_some, hlook]
    rw [htake _ (by simpa [State.maxIdle, d, c] using hold)]
    simp [State.note, State.setCaller, left]
  have r10 := r9.next (a := (0, .finish)) (by trivial) rfl
  exact ⟨_, r10, rfl, d, rfl, rfl, by simp [createPooledClient, hcls, d, c]⟩

/-- Whatever is read off the host of a served client is that of the request
exactly where the key determines it among the hosts of the run. -/
theorem serves_iff {β : Type} (f : HostInfo → β) {h : HostInfo} (hH : H h) :
    Serves E H h (fun c => f c.host = f h) ↔
      ∀ h', H h' → Connects E h' → clientPoolKey h' = clientPoolKey h → f h' = f h := by
  constructor
  · intro hall h' hH' hc hk
    obtain ⟨s, hs, hi, c, hheap, hhost, -⟩ := exists_served hH hH' hc hk
    obtain ⟨d, hd, hf⟩ := hall s hs 0 0 hi
    rw [hheap, Option.some.injEq] at hd
    rw [← hhost, hd]
    exact hf
  · intro hkey s hs i p hi
    obtain ⟨-, c, hc, hconn, hk⟩ := (serving_reachable hs).callers i _ hi
    exact ⟨c, hc, hkey c.host hconn.host ⟨by simp [hconn.cls], hconn.returns⟩ hk⟩

theorem Serves.congr {h : HostInfo} {P Q : RemoteClient → Prop}
    (hPQ : ∀ c, Connected E H c → (P c ↔ Q c)) : Serves E H h P ↔ Serves E H h Q := by
  constructor <;> intro hs s hr i p hi <;> obtain ⟨c, hc, hP⟩ := hs s hr i p hi <;>
    obtain ⟨-, d, hd, hconn, -⟩ := (serving_reachable hr).callers i _ hi <;>
    rw [hc, Option.some.injEq] at hd <;> subst hd
  · exact ⟨c, hc, (hPQ c hconn).mp hP⟩
  · exact ⟨c, hc, (hPQ c hconn).mpr hP⟩

def anyHost : HostInfo → Prop := fun _ => True

/-- In every run, a client served to `h` was connected with the account of `h`. -/
def ServesOwnAccount (E : Env) (h : HostInfo) : Prop :=
  Serves E anyHost h fun c => c.host.account = h.account

/-- Pooled sessions stay within an account exactly as far as the key separates
accounts, and it does so exactly for strings without the separator. -/
theorem served_account_iff (E : Env) (h : HostInfo) :
    ((∀ h', clientPoolKey h' = clientPoolKey h → h'.account = h.account) ↔ BarFree h) ∧
      (ServesOwnAccount E h ↔ ∀ h', Connects E h' → clientPoolKey h' = clientPoolKey h →
        h'.account = h.account) ∧
      (BarFree h → ServesOwnAccount E h) := by
  have hserves : ServesOwnAccount E h ↔ ∀ h', Connects E h' →
      clientPoolKey h' = clientPoolKey h → h'.account = h.account := by
    unfold ServesOwnAccount
    rw [serves_iff HostInfo.account trivial]
    simp only [anyHost, true_imp_iff]
  refine ⟨key_separates_iff h, hserves, ?_⟩
  intro hfree
  rw [hserves]
  intro h' _ hk
  exact account_of_clientPoolKey hfree hk

/-- Two accounts on one server whose keys are both `2|nas|a|b|c`. -/
def splitUser : HostInfo :=
  { type := 2, url := bytes "nas", httpServerType := []
    username := bytes "a|b", password := bytes "c" }

def splitPassword : HostInfo :=
  { splitUser with username := bytes "a", password := bytes "b|c" }

/-- The session of `a|b` with password `c` is served to `a` with password `b|c`. -/
theorem served_account_collision : ¬ ∀ E h, ServesOwnAccount E h := by
  intro hall
  obtain ⟨s, hs, hi, c, hc, hhost, -⟩ := @exists_served quietEnv anyHost splitPassword
    splitUser trivial trivial ⟨by decide, by decide⟩ (by decide)
  obtain ⟨d, hd, hacc⟩ := hall quietEnv splitPassword s hs 0 0 hi
  rw [hc, Option.some.injEq] at hd
  rw [← hd, hhost] at hacc
  exact absurd hacc (by decide)

/-- What `CreatePooledClient` reads of `http_server_type`. -/
def serverKind (h : HostInfo) : Bool × Bool :=
  (h.httpServerType = httpServerArchiveorg, h.httpServerType = httpServerGithub)

/-- In every run over hosts in `H`, a client served to `h` has the class and the
path encoding that `CreatePooledClient(h)` would give it. -/
def ServesOwnKind (E : Env) (H : HostInfo → Prop) (h : HostInfo) : Prop :=
  Serves E H h fun c => some (c.cls, c.urlEncode) = createPooledClient h

theorem createPooledClient_eq_iff {h h' : HostInfo} (ht : h'.type = h.type) :
    createPooledClient h' = createPooledClient h ↔
      (h.type = ClientType.httpServer.toInt → serverKind h' = serverKind h) := by
  by_cases hs : h.type = ClientType.httpServer.toInt
  · have hmake : ∀ g : HostInfo, g.type = ClientType.httpServer.toInt →
        createPooledClient g =
          some (if (serverKind g).1 then .archiveOrgClient else .baseClient,
            !(serverKind g).2) := by
      intro g hg
      simp only [createPooledClient, newClient, pathEncoding, serverKind, hg]
      by_cases ha : g.httpServerType = httpServerArchiveorg <;>
        simp [ClientType.toInt, ha]
    rw [hmake h hs, hmake h' (ht.trans hs)]
    obtain ⟨a, b⟩ := serverKind h
    obtain ⟨a', b'⟩ := serverKind h'
    simp only [hs, true_imp_iff]
    revert a b a' b'
    decide
  · have hmake : ∀ g : HostInfo, g.type = h.type →
        createPooledClient g = createPooledClient h := by
      intro g hg
      simp [createPooledClient, newClient, pathEncoding, hg, hs]
    simp [hs, hmake h' ht]

/-- Served clients are of the requested kind exactly when no two requests of a
run for an HTTP server share a key and differ in the kind of the server. -/
theorem served_kind_iff (E : Env) (H : HostInfo → Prop) :
    (∀ h, H h → ServesOwnKind E H h) ↔
      ∀ h h', H h → H h' → h.type = ClientType.httpServer.toInt → Connects E h' →
        clientPoolKey h' = clientPoolKey h → serverKind h' = serverKind h := by
  have hkind : ∀ h, H h → (ServesOwnKind E H h ↔ ∀ h', H h' → Connects E h' →
      clientPoolKey h' = clientPoolKey h → createPooledClient h' = createPooledClient h) := by
    intro h hH
    rw [← serves_iff createPooledClient hH]
    refine Serves.congr ?_
    intro c hc
    have hmade : createPooledClient c.host = some (c.cls, c.urlEncode) := by
      simp [createPooledClient, hc.cls, hc.urlEncode]
    rw [hmade]
  constructor
  · intro hall h h' hH hH' ht hc hk
    have := (hkind h hH).mp (hall h hH) h' hH' hc hk
    exact (createPooledClient_eq_iff (type_of_clientPoolKey hk)).mp this ht
  · intro hall h hH
    rw [hkind h hH]
    intro h' hH' hc hk
    rw [createPooledClient_eq_iff (type_of_clientPoolKey hk)]
    exact fun ht => hall h h' hH hH' ht hc hk

/-- Only HTTP servers can be confused at all. -/
theorem key_kind_iff (h : HostInfo) :
    (∀ h', clientPoolKey h' = clientPoolKey h → createPooledClient h' = createPooledClient h) ↔
      h.type ≠ ClientType.httpServer.toInt := by
  constructor
  · intro hall ht
    by_cases hg : h.httpServerType = httpServerGithub
    · have hmade := hall { h with httpServerType := httpServerArchiveorg } rfl
      rw [createPooledClient_eq_iff (by rfl)] at hmade
      have hkind := hmade ht
      have hne : httpServerArchiveorg ≠ httpServerGithub := by decide
      simp [serverKind, hg, hne] at hkind
    · have hmade := hall { h with httpServerType := httpServerGithub } rfl
      rw [createPooledClient_eq_iff (by rfl)] at hmade
      have hkind := hmade ht
      simp [serverKind, hg] at hkind
  · intro ht h' hk
    rw [createPooledClient_eq_iff (type_of_clientPoolKey hk)]
    exact fun hs => absurd hs ht

def plainServer : HostInfo :=
  { type := 4, url := bytes "https://h", httpServerType := bytes "Apache"
    username := [], password := [] }

def githubServer : HostInfo := { plainServer with httpServerType := httpServerGithub }

/-- A client made for a Github host, which does not encode paths, is served to
a request for a plain server. -/
theorem served_kind_github : ¬ ∀ E h, ServesOwnKind E anyHost h := by
  intro hall
  obtain ⟨s, hs, hi, c, hc, -, hmade⟩ := @exists_served quietEnv anyHost plainServer
    githubServer trivial trivial ⟨by decide, by decide⟩ (by decide)
  obtain ⟨d, hd, hkind⟩ := hall quietEnv plainServer s hs 0 0 hi
  rw [hc, Option.some.injEq] at hd
  rw [← hd, ← hmade] at hkind
  exact absurd hkind (by decide)

end EzRemote.Pool

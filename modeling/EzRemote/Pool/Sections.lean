import EzRemote.Pool.Model

/-!
# What each critical section and each step can do

One specification for each section of the pool, and the inversion of `step`:
everything later is derived from these and unfolds neither.
-/

namespace EzRemote.Pool

namespace ClientPool

variable (pool : ClientPool) (p q : Ptr) (key : Bytes) (idle : List Ptr) (v : Option Bytes)
  (t : Option Int)

@[simp] theorem empty_idle : empty.clientPoolIdle = ∅ := rfl
@[simp] theorem empty_key : empty.clientPoolKey p = none := rfl
@[simp] theorem empty_since : empty.clientPoolIdleSince p = none := rfl
@[simp] theorem empty_idlePtrs : empty.idlePtrs = [] := rfl

@[simp] theorem setIdle_idle :
    (pool.setIdle key idle).clientPoolIdle = pool.clientPoolIdle.insert key idle := rfl
@[simp] theorem setIdle_key : (pool.setIdle key idle).clientPoolKey = pool.clientPoolKey := rfl
@[simp] theorem setIdle_since :
    (pool.setIdle key idle).clientPoolIdleSince = pool.clientPoolIdleSince := rfl

@[simp] theorem setKey_idle : (pool.setKey p v).clientPoolIdle = pool.clientPoolIdle := rfl
@[simp] theorem setKey_since :
    (pool.setKey p v).clientPoolIdleSince = pool.clientPoolIdleSince := rfl
@[simp] theorem setKey_idlePtrs : (pool.setKey p v).idlePtrs = pool.idlePtrs := rfl
theorem setKey_key : (pool.setKey p v).clientPoolKey q =
    if q = p then v else pool.clientPoolKey q := Function.update_apply ..

@[simp] theorem setIdleSince_idle :
    (pool.setIdleSince p t).clientPoolIdle = pool.clientPoolIdle := rfl
@[simp] theorem setIdleSince_key :
    (pool.setIdleSince p t).clientPoolKey = pool.clientPoolKey := rfl
@[simp] theorem setIdleSince_idlePtrs : (pool.setIdleSince p t).idlePtrs = pool.idlePtrs := rfl
theorem setIdleSince_since : (pool.setIdleSince p t).clientPoolIdleSince q =
    if q = p then t else pool.clientPoolIdleSince q := Function.update_apply ..

variable {pool p} in
theorem mem_idlePtrs : p ∈ pool.idlePtrs ↔
    ∃ k v, pool.clientPoolIdle.lookup k = some v ∧ p ∈ v := Counting.mem_values _ _

theorem count_setIdle :
    (pool.setIdle key idle).idlePtrs.count p + ((pool.clientPoolIdle.lookup key).getD []).count p =
      pool.idlePtrs.count p + idle.count p := Counting.count_values_insert _ _ _ _

end ClientPool

/-- The clients that a run of the loop took off the vector. -/
def Taken.removed (t : Taken) : List Ptr := t.expired ++ (t.client.map Prod.fst).toList

/-- The loop splits the vector, keeps the vectors of the map, and erases the age
of each client it took and the key of each client it found expired.  The chosen
client was within its limit by the reading recorded with it, unless its age was
unknown. -/
structure TakeSpec (maxIdle : Ptr → Int) (idle : List Ptr) (pool : ClientPool) (t : Taken) :
    Prop where
  split : t.removed ++ t.idle = idle
  idleMap : t.pool.clientPoolIdle = pool.clientPoolIdle
  since : ∀ p, t.pool.clientPoolIdleSince p =
    if p ∈ t.removed then none else pool.clientPoolIdleSince p
  key : ∀ p, t.pool.clientPoolKey p = if p ∈ t.expired then none else pool.clientPoolKey p
  young : ∀ p now, t.client = some (p, some now) →
    ∃ since, pool.clientPoolIdleSince p = some since ∧ now - since ≤ maxIdle p
  unknown : ∀ p, t.client = some (p, none) → pool.clientPoolIdleSince p = none ∨ p ∈ t.expired

theorem takeIdle_spec {maxIdle : Ptr → Int} {idle : List Ptr} {clock : List Int}
    {pool : ClientPool} {t : Taken} (h : takeIdle maxIdle idle clock pool = some t) :
    TakeSpec maxIdle idle pool t := by
  induction idle generalizing clock pool t with
  | nil =>
    simp only [takeIdle, Option.some.injEq] at h
    subst h
    constructor <;> simp [Taken.removed]
  | cons c idle ih =>
    unfold takeIdle at h
    split at h
    · rename_i hc
      simp only [Option.some.injEq] at h
      subst h
      constructor <;> simp [Taken.removed, ClientPool.setIdleSince_since, hc]
    · cases h
    · rename_i since now clock hc
      split at h
      -- too old: the client is expired and the next one is looked at
      · rename_i hold
        simp only [Option.map_eq_some_iff] at h
        obtain ⟨u, hu, rfl⟩ := h
        have spec := ih hu
        constructor
        · simpa [Taken.removed] using spec.split
        · simpa using spec.idleMap
        · intro p
          have := spec.since p
          simp only [ClientPool.setKey_since, ClientPool.setIdleSince_since] at this
          simp only [Taken.removed, List.cons_append, List.mem_cons] at this ⊢
          grind
        · intro p
          have := spec.key p
          simp only [ClientPool.setKey_key, ClientPool.setIdleSince_key] at this
          simp only [List.mem_cons]
          grind
        · intro p now' hp
          obtain ⟨t', ht', hle⟩ := spec.young p now' hp
          simp only [ClientPool.setKey_since, ClientPool.setIdleSince_since] at ht'
          grind
        · intro p hp
          have := spec.unknown p hp
          simp only [ClientPool.setKey_since, ClientPool.setIdleSince_since] at this
          simp only [List.mem_cons]
          grind
      · rename_i hfresh
        simp only [Option.some.injEq] at h
        subst h
        constructor
        · simp [Taken.removed]
        · simp
        · simp [Taken.removed, ClientPool.setIdleSince_since]
        · simp
        · intro p now' hp
          simp only [Option.some.injEq, Prod.mk.injEq] at hp
          obtain ⟨rfl, rfl⟩ := hp
          exact ⟨since, hc, by omega⟩
        · simp

/-- The first section of `AcquireRemoteClient`: what it removes comes from the
vector of the key, whose rest is stored back; every other vector is unchanged. -/
structure AcquireSpec (maxIdle : Ptr → Int) (key : Bytes) (pool : ClientPool) (t : Taken) :
    Prop where
  count : ∀ p, t.pool.idlePtrs.count p + t.removed.count p = pool.idlePtrs.count p
  suffix : ∀ k v, t.pool.clientPoolIdle.lookup k = some v →
    ∃ w, pool.clientPoolIdle.lookup k = some w ∧ v <:+ w
  source : ∀ p ∈ t.removed, ∃ v, pool.clientPoolIdle.lookup key = some v ∧ p ∈ v
  since : ∀ p, t.pool.clientPoolIdleSince p =
    if p ∈ t.removed then none else pool.clientPoolIdleSince p
  key : ∀ p, t.pool.clientPoolKey p = if p ∈ t.expired then none else pool.clientPoolKey p
  young : ∀ p now, t.client = some (p, some now) →
    ∃ since, pool.clientPoolIdleSince p = some since ∧ now - since ≤ maxIdle p
  unknown : ∀ p, t.client = some (p, none) → pool.clientPoolIdleSince p = none ∨ p ∈ t.expired

theorem AcquireSpec.key_of_taken {maxIdle : Ptr → Int} {key : Bytes} {pool : ClientPool} {t : Taken}
    (spec : AcquireSpec maxIdle key pool t) {p : Ptr} {k : Bytes}
    (hk : t.pool.clientPoolKey p = some k) : pool.clientPoolKey p = some k := by
  rw [spec.key p] at hk
  split at hk
  · cases hk
  · exact hk

theorem acquireSection_spec {maxIdle : Ptr → Int} {key : Bytes} {clock : List Int}
    {pool : ClientPool} {t : Taken} (h : acquireSection maxIdle key clock pool = some t) :
    AcquireSpec maxIdle key pool t := by
  unfold acquireSection at h
  split at h
  · simp only [Option.some.injEq] at h
    subst h
    constructor <;> simp [Taken.removed]
    exact fun k v hv => ⟨v, hv, List.suffix_refl v⟩
  · rename_i idle hidle
    simp only [Option.map_eq_some_iff] at h
    obtain ⟨u, hu, rfl⟩ := h
    have spec := takeIdle_spec hu
    have hsplit := spec.split
    constructor
    · intro p
      have hc := ClientPool.count_setIdle u.pool p key u.idle
      have hp : u.pool.idlePtrs = pool.idlePtrs := by
        rw [ClientPool.idlePtrs, spec.idleMap, ClientPool.idlePtrs]
      rw [spec.idleMap, hidle, hp, Option.getD_some, ← hsplit, List.count_append] at hc
      change (u.pool.setIdle key u.idle).idlePtrs.count p + u.removed.count p = _
      omega
    · intro k v hv
      simp only [ClientPool.setIdle_idle, spec.idleMap] at hv
      by_cases hk : k = key
      · subst hk
        rw [AList.lookup_insert, Option.some.injEq] at hv
        exact ⟨idle, hidle, ⟨u.removed, by rw [← hv, hsplit]⟩⟩
      · rw [AList.lookup_insert_ne hk] at hv
        exact ⟨v, hv, List.suffix_refl v⟩
    · intro p hp
      exact ⟨idle, hidle, by rw [← hsplit]; exact List.mem_append_left _ hp⟩
    · exact spec.since
    · exact spec.key
    · exact spec.young
    · exact spec.unknown

theorem releaseSection_pooled {p : Ptr} {success connected : Bool} {now : Int}
    {pool : ClientPool} (h : (releaseSection p success connected now pool).2 = true) :
    success = true ∧ connected = true ∧ ∃ key, pool.clientPoolKey p = some key ∧
      ((pool.clientPoolIdle.lookup key).getD []).length < clientPoolMaxIdle ∧
      (releaseSection p success connected now pool).1 =
        (pool.setIdle key (p :: (pool.clientPoolIdle.lookup key).getD [])).setIdleSince p
          (some now) := by
  cases hk : pool.clientPoolKey p with
  | none => simp [releaseSection, hk] at h
  | some key =>
    simp only [releaseSection, hk] at h ⊢
    split at h
    · rename_i hc
      simp only [Bool.and_eq_true, decide_eq_true_eq] at hc
      refine ⟨hc.1.1, hc.1.2, key, rfl, hc.2, ?_⟩
      rw [if_pos (by simp [hc])]
    · simp at h

theorem releaseSection_dropped {p : Ptr} {success connected : Bool} {now : Int}
    {pool : ClientPool} (h : (releaseSection p success connected now pool).2 = false) :
    (releaseSection p success connected now pool).1 = pool.setKey p none := by
  cases hk : pool.clientPoolKey p with
  | none => simp [releaseSection, hk]
  | some key =>
    simp only [releaseSection, hk] at h ⊢
    split at h
    · simp at h
    · rename_i hc
      rw [if_neg hc]

theorem callers_set_self {callers : List Caller} {i : Nat} {C : Caller}
    (hi : callers[i]? = some C) : callers.set i C = callers := by
  obtain ⟨hlt, he⟩ := List.getElem?_eq_some_iff.mp hi
  rw [← he, List.set_getElem_self]

/-- Steps that only move a caller: what it owns stays the same. -/
inductive Moves : Caller → Action → Caller → Prop
  | acquire (h : HostInfo) (reusable : Bool) :
      Moves .outside (.acquire h reusable) (.acquiring h reusable)
  | skip (h : HostInfo) (clock : List Int) :
      Moves (.acquiring h false) (.enterAcquire clock) (.draining h false [] none)
  | noClient (h : HostInfo) (reusable : Bool) (p : Ptr) :
      Moves (.draining h reusable [] none) (.create p) .outside
  | release (h : HostInfo) (p : Ptr) (success : Bool) :
      Moves (.holding h p) (.release success) (.releasing p success)
  | clear : Moves .outside .clear .clearing
  | swept : Moves (.sweeping []) .finish .outside

/-- The steps that destroy a client, with the client and the next place. -/
inductive Destroys : Caller → Ptr → Caller → Prop
  | expired (h : HostInfo) (reusable : Bool) (p : Ptr) (expired : List Ptr) (client : Option Ptr) :
      Destroys (.draining h reusable (p :: expired) client) p (.draining h reusable expired client)
  | dropped (p : Ptr) : Destroys (.dropping p) p .outside
  | swept (p : Ptr) (clients : List Ptr) : Destroys (.sweeping (p :: clients)) p (.sweeping clients)

/-- The state after the first section of `AcquireRemoteClient`. -/
def State.taken (s : State) (i : Nat) (h : HostInfo) (t : Taken) : State :=
  { s with
    pool := t.pool
    callers := s.callers.set i (.draining h true t.expired (t.client.map Prod.fst))
    log := (t.client.bind fun x => (s.heap x.1).map fun c => .handedOut i c x.2).toList ++ s.log }

variable (E : Env)

/-- Every step of caller `i` from `C`, with the state it leads to. -/
inductive Step (s : State) (i : Nat) : Caller → Action → State → Prop
  | move {C C' : Caller} {a : Action} (m : Moves C a C') : Step s i C a (s.setCaller i C')
  | enterAcquire (h : HostInfo) (clock : List Int) (t : Taken)
      (spec : AcquireSpec s.maxIdle (clientPoolKey h) s.pool t) :
      Step s i (.acquiring h true) (.enterAcquire clock) (s.taken i h t)
  | destroy {C C' : Caller} {p : Ptr} {c : RemoteClient} (d : Destroys C p C')
      (hc : s.heap p = some c) :
      Step s i C .destroy
        { s with
          heap := Function.update s.heap p none
          callers := s.callers.set i C'
          destroyed := c.id :: s.destroyed
          log := .destroyed i c :: s.log }
  | finish (h : HostInfo) (reusable : Bool) (p : Ptr) :
      Step s i (.draining h reusable [] (some p)) .finish
        ((s.note p (.returned i)).setCaller i (.holding h p))
  | create (h : HostInfo) (reusable : Bool) (p : Ptr) (cls : ClientClass)
      (hn : newClient h = some cls) (hp : s.heap p = none) :
      Step s i (.draining h reusable [] none) (.create p)
        { s with
          heap := Function.update s.heap p (some { id := s.born, cls := cls, host := h })
          callers := s.callers.set i (.connecting h reusable p)
          born := s.born + 1
          log := .created i { id := s.born, cls := cls, host := h } :: s.log }
  | throw (h : HostInfo) (reusable : Bool) (p : Ptr) (ht : connectThrows E h = true) :
      Step s i (.connecting h reusable p) .connect
        ({ s with leaked := p :: s.leaked }.setCaller i .outside)
  | connect (h : HostInfo) (p : Ptr) (c : RemoteClient) (hc : s.heap p = some c)
      (ht : connectThrows E h = false) :
      Step s i (.connecting h true p) .connect
        ((s.setClient p { c with urlEncode := pathEncoding h }).setCaller i (.registering h p))
  | connectAlone (h : HostInfo) (p : Ptr) (c : RemoteClient) (hc : s.heap p = some c)
      (ht : connectThrows E h = false) :
      Step s i (.connecting h false p) .connect
        (((s.setClient p { c with urlEncode := pathEncoding h }).note p
          (.returned i)).setCaller i (.holding h p))
  | register (h : HostInfo) (p : Ptr) :
      Step s i (.registering h p) .register
        (({ s with pool := s.pool.setKey p (some (clientPoolKey h)) }.note p
          (.returned i)).setCaller i (.holding h p))
  | setCallback (h : HostInfo) (p : Ptr) (c : RemoteClient) (t : TransferState)
      (hc : s.heap p = some c) (hf : c.cls = .ftpClient) :
      Step s i (.holding h p) (.setCallback t) (s.setClient p { c with transfer := t })
  | releasePooled (p : Ptr) (c : RemoteClient) (key : Bytes) (now : Int)
      (hc : s.heap p = some c) (hk : s.pool.clientPoolKey p = some key)
      (hroom : ((s.pool.clientPoolIdle.lookup key).getD []).length < clientPoolMaxIdle) :
      Step s i (.releasing p true) (.enterRelease true now)
        { s with
          pool := (s.pool.setIdle key
            (p :: (s.pool.clientPoolIdle.lookup key).getD [])).setIdleSince p (some now)
          heap := Function.update s.heap p (some c.resetTransferState)
          callers := s.callers.set i .outside
          log := .released i c.resetTransferState true true true now :: s.log }
  | releaseDropped (p : Ptr) (c : RemoteClient) (success connected : Bool) (now : Int)
      (hc : s.heap p = some c) :
      Step s i (.releasing p success) (.enterRelease connected now)
        { s with
          pool := s.pool.setKey p none
          callers := s.callers.set i (.dropping p)
          log := .released i c success connected false now :: s.log }
  | enterClear :
      Step s i .clearing .enterClear
        { s with
          pool := .empty
          callers := s.callers.set i (.sweeping s.pool.idlePtrs)
          log := .cleared i :: s.log }

theorem step_cases {s s' : State} {i : Nat} {C : Caller} {a : Action}
    (h : stepCaller E s i C a = some s') : Step E s i C a s' := by
  unfold stepCaller at h
  split at h
  case h_1 => cases h; exact .move (.acquire _ _)
  case h_2 => cases h; exact .move (.skip ..)
  case h_3 hr clock =>
    simp only [Option.map_eq_some_iff] at h
    obtain ⟨t, ht, rfl⟩ := h
    have hd := Step.enterAcquire (E := E) (s := s) (i := i) hr clock t (acquireSection_spec ht)
    unfold State.taken at hd
    rcases hc : t.client with _ | ⟨p, now⟩ <;>
      simpa [hc, State.note, State.setCaller] using hd
  case h_4 =>
    simp only [State.destroyPooledClient, Option.map_map, Option.map_eq_some_iff] at h
    obtain ⟨c, hc, rfl⟩ := h
    exact .destroy (.expired ..) hc
  case h_5 => cases h; exact .finish ..
  case h_6 h' r p =>
    split at h
    · cases h; exact .move (.noClient ..)
    · split at h
      · cases h; exact .create h' r p _ ‹_› ‹_›
      · cases h
  case h_7 h' r p =>
    split at h
    · cases h; exact .throw h' r p ‹_›
    · rename_i ht
      simp only [Bool.not_eq_true] at ht
      simp only [Option.map_eq_some_iff] at h
      obtain ⟨c, hc, rfl⟩ := h
      cases r with
      | false => exact .connectAlone h' p c hc ht
      | true => exact .connect h' p c hc ht
  case h_8 h' p => cases h; exact .register h' p
  case h_9 h' p t =>
    split at h
    · split at h
      · cases h; exact .setCallback h' p _ t ‹_› ‹_›
      · cases h
    · cases h
  case h_10 => cases h; exact .move (.release ..)
  case h_11 p success connected now =>
    simp only [Option.map_eq_some_iff] at h
    obtain ⟨c, hc, rfl⟩ := h
    cases hr : (releaseSection p success connected now s.pool).2 with
    | false =>
      have hd := Step.releaseDropped (E := E) (s := s) (i := i) p c success connected now hc
      have hu : Function.update s.heap p (some c) = s.heap := by
        rw [← hc, Function.update_eq_self]
      simpa [releaseSection_dropped hr, State.setClient, State.note, State.setCaller, hu, hc]
        using hd
    | true =>
      obtain ⟨rfl, rfl, key, hk, hroom, hpool⟩ := releaseSection_pooled hr
      have hd := Step.releasePooled (E := E) (s := s) (i := i) p c key now hc hk hroom
      simpa [hpool, State.setClient, State.note, State.setCaller] using hd
  case h_12 =>
    simp only [State.destroyPooledClient, Option.map_map, Option.map_eq_some_iff] at h
    obtain ⟨c, hc, rfl⟩ := h
    exact .destroy (.dropped _) hc
  case h_13 => cases h; exact .move .clear
  case h_14 => cases h; exact .enterClear
  case h_15 =>
    simp only [State.destroyPooledClient, Option.map_map, Option.map_eq_some_iff] at h
    obtain ⟨c, hc, rfl⟩ := h
    exact .destroy (.swept ..) hc
  case h_16 => cases h; exact .move .swept
  case h_17 => cases h

end EzRemote.Pool

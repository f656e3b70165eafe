import EzRemote.Pool.Sections

/-!
# Every client has exactly one owner

The pointers of the idle vectors, of the callers and of the lost clients are,
counted together, the live addresses, each once.  The three maps agree with the
idle vectors, and a client is destroyed only after its key is gone.
-/

namespace EzRemote.Pool

/-- The pointers of a caller that are no longer, or not yet, in
`client_pool_key`. -/
def Caller.unkeyed : Caller → List Ptr
  | .draining _ _ expired _ => expired
  | .connecting _ _ p | .registering _ p | .dropping p => [p]
  | .sweeping clients => clients
  | .outside | .acquiring _ _ | .clearing | .holding _ _ | .releasing _ _ => []

/-- The records of construction and destruction agree with the heap. -/
structure Births (heap : Ptr → Option RemoteClient) (born : Nat) (destroyed : List Nat) :
    Prop where
  inj : ∀ p q c d, heap p = some c → heap q = some d → c.id = d.id → p = q
  live : ∀ p c, heap p = some c → c.id < born ∧ c.id ∉ destroyed
  dead : ∀ b ∈ destroyed, b < born
  once : destroyed.Nodup
  all : ∀ b < born, b ∈ destroyed ∨ ∃ p c, heap p = some c ∧ c.id = b

/-- How many clients are live at an address that holds `c`. -/
def alive (c : Option RemoteClient) : Nat := c.toList.length

@[simp] theorem alive_some (c : RemoteClient) : alive (some c) = 1 := rfl

@[simp] theorem alive_none : alive none = 0 := rfl

theorem isSome_of_alive {c : Option RemoteClient} (h : 0 < alive c) : c.isSome := by
  cases c with
  | none => simp at h
  | some c => rfl

theorem alive_le_one (c : Option RemoteClient) : alive c ≤ 1 := by
  cases c <;> simp

structure Owned (s : State) : Prop where
  owners : ∀ p, s.pool.idlePtrs.count p + s.heldPtrs.count p + s.leaked.count p = alive (s.heap p)
  since : ∀ p, (s.pool.clientPoolIdleSince p).isSome ↔ p ∈ s.pool.idlePtrs
  key : ∀ k v, s.pool.clientPoolIdle.lookup k = some v →
    ∀ p ∈ v, s.pool.clientPoolKey p = some k
  size : ∀ k v, s.pool.clientPoolIdle.lookup k = some v → v.length ≤ clientPoolMaxIdle
  keyLive : ∀ p k, s.pool.clientPoolKey p = some k → (s.heap p).isSome
  unkeyed : ∀ (i : Nat) (C : Caller), s.callers[i]? = some C →
    ∀ p ∈ C.unkeyed, s.pool.clientPoolKey p = none
  births : Births s.heap s.born s.destroyed

namespace Owned

variable {s : State} (h : Owned s) {i j : Nat} {C D : Caller} {p : Ptr}
include h

theorem held_live (hi : s.callers[i]? = some C) (hp : p ∈ C.held) : (s.heap p).isSome := by
  have hc := Counting.count_le_flatMap Caller.held s.callers i C p hi
  have hpos : 0 < C.held.count p := List.count_pos_iff.mpr hp
  have ho := h.owners p
  unfold State.heldPtrs at ho
  exact isSome_of_alive (by omega)

theorem idle_live (hp : p ∈ s.pool.idlePtrs) : (s.heap p).isSome := by
  have hpos : 0 < s.pool.idlePtrs.count p := List.count_pos_iff.mpr hp
  have ho := h.owners p
  exact isSome_of_alive (by omega)

theorem held_not_idle (hi : s.callers[i]? = some C) (hp : p ∈ C.held) :
    p ∉ s.pool.idlePtrs := by
  intro hq
  have hc := Counting.count_le_flatMap Caller.held s.callers i C p hi
  have hpos : 0 < C.held.count p := List.count_pos_iff.mpr hp
  have hpos' : 0 < s.pool.idlePtrs.count p := List.count_pos_iff.mpr hq
  have ho := h.owners p
  have hle := alive_le_one (s.heap p)
  unfold State.heldPtrs at ho
  omega

theorem held_disjoint (hij : i ≠ j) (hi : s.callers[i]? = some C) (hj : s.callers[j]? = some D)
    (hp : p ∈ C.held) : p ∉ D.held := by
  intro hq
  have hc := Counting.count_add_le_flatMap Caller.held s.callers i j C D p hij hi hj
  have hpos : 0 < C.held.count p := List.count_pos_iff.mpr hp
  have hpos' : 0 < D.held.count p := List.count_pos_iff.mpr hq
  have ho := h.owners p
  have hle := alive_le_one (s.heap p)
  unfold State.heldPtrs at ho
  omega

theorem held_once (hi : s.callers[i]? = some C) : C.held.count p ≤ 1 := by
  have hc := Counting.count_le_flatMap Caller.held s.callers i C p hi
  have ho := h.owners p
  have hle := alive_le_one (s.heap p)
  unfold State.heldPtrs at ho
  omega

end Owned

theorem unkeyed_held {C : Caller} {p : Ptr} (hp : p ∈ C.unkeyed) : p ∈ C.held := by
  cases C <;> simp_all [Caller.unkeyed, Caller.held]

namespace Births

variable {heap : Ptr → Option RemoteClient} {born : Nat} {destroyed : List Nat}
  (h : Births heap born destroyed) {p : Ptr} {c d : RemoteClient}
include h

theorem replace (hc : heap p = some c) (hd : d.id = c.id) :
    Births (Function.update heap p (some d)) born destroyed := by
  have key : ∀ q e, Function.update heap p (some d) q = some e →
      ∃ e', heap q = some e' ∧ e'.id = e.id := by
    intro q e he
    rw [Function.update_apply] at he
    split at he
    · rename_i hq
      simp only [Option.some.injEq] at he
      exact ⟨c, hq ▸ hc, by rw [← hd, he]⟩
    · exact ⟨e, he, rfl⟩
  constructor
  · intro q r e f he hf hid
    obtain ⟨e', he', hie⟩ := key q e he
    obtain ⟨f', hf', hif⟩ := key r f hf
    exact h.inj q r e' f' he' hf' (by rw [hie, hif, hid])
  · intro q e he
    obtain ⟨e', he', hie⟩ := key q e he
    exact hie ▸ h.live q e' he'
  · exact h.dead
  · exact h.once
  · intro b hb
    rcases h.all b hb with hb | ⟨q, e, he, hid⟩
    · exact .inl hb
    · refine .inr ?_
      by_cases hq : q = p
      · subst hq
        rw [hc, Option.some.injEq] at he
        exact ⟨q, d, Function.update_self .., by rw [hd, he, hid]⟩
      · exact ⟨q, e, by rwa [Function.update_of_ne hq], hid⟩

theorem destroy (hc : heap p = some c) :
    Births (Function.update heap p none) born (c.id :: destroyed) := by
  have key : ∀ q e, Function.update heap p none q = some e → q ≠ p ∧ heap q = some e := by
    intro q e he
    rw [Function.update_apply] at he
    split at he
    · cases he
    · exact ⟨‹_›, he⟩
  constructor
  · intro q r e f he hf hid
    exact h.inj q r e f (key q e he).2 (key r f hf).2 hid
  · intro q e he
    obtain ⟨hq, he⟩ := key q e he
    refine ⟨(h.live q e he).1, ?_⟩
    intro hm
    rcases List.mem_cons.mp hm with hid | hm
    · exact hq (h.inj q p e c he hc hid)
    · exact (h.live q e he).2 hm
  · intro b hb
    rcases List.mem_cons.mp hb with rfl | hb
    · exact (h.live p c hc).1
    · exact h.dead b hb
  · exact List.nodup_cons.mpr ⟨(h.live p c hc).2, h.once⟩
  · intro b hb
    rcases h.all b hb with hb | ⟨q, e, he, hid⟩
    · exact .inl (List.mem_cons_of_mem _ hb)
    · by_cases hq : q = p
      · subst hq
        rw [hc, Option.some.injEq] at he
        exact .inl (by simp [← hid, ← he])
      · exact .inr ⟨q, e, by rwa [Function.update_of_ne hq], hid⟩

theorem create (hp : heap p = none) (hd : d.id = born) :
    Births (Function.update heap p (some d)) (born + 1) destroyed := by
  have key : ∀ q e, Function.update heap p (some d) q = some e →
      (q = p ∧ e.id = born) ∨ heap q = some e := by
    intro q e he
    rw [Function.update_apply] at he
    split at he
    · simp only [Option.some.injEq] at he
      exact .inl ⟨‹_›, by rw [← he, hd]⟩
    · exact .inr he
  constructor
  · intro q r e f he hf hid
    rcases key q e he with ⟨hq, hb⟩ | hq <;> rcases key r f hf with ⟨hr, hb'⟩ | hr
    · rw [hq, hr]
    · have := (h.live r f hr).1
      omega
    · have := (h.live q e hq).1
      omega
    · exact h.inj q r e f hq hr hid
  · intro q e he
    rcases key q e he with ⟨-, hb⟩ | he
    · refine ⟨by omega, ?_⟩
      intro hm
      have := h.dead _ hm
      omega
    · have := h.live q e he
      exact ⟨by omega, this.2⟩
  · intro b hb
    have := h.dead b hb
    omega
  · exact h.once
  · intro b hb
    by_cases hlt : b < born
    · rcases h.all b hlt with hb | ⟨q, e, he, hid⟩
      · exact .inl hb
      · have hq : q ≠ p := by
          rintro rfl
          rw [hp] at he
          cases he
        exact .inr ⟨q, e, by rwa [Function.update_of_ne hq], hid⟩
    · exact .inr ⟨p, d, Function.update_self .., by omega⟩

end Births

namespace Owned

variable {s s' : State} (h : Owned s) {i : Nat} {C C' : Caller}
include h

/-- The count is kept when the caller's gain balances the pool, the losses and
the heap. -/
theorem owners_set (hi : s.callers[i]? = some C) (hc : s'.callers = s.callers.set i C')
    (hbal : ∀ p, s'.pool.idlePtrs.count p + C'.held.count p + s'.leaked.count p +
        alive (s.heap p) =
      s.pool.idlePtrs.count p + C.held.count p + s.leaked.count p + alive (s'.heap p)) (p : Ptr) :
    s'.pool.idlePtrs.count p + s'.heldPtrs.count p + s'.leaked.count p = alive (s'.heap p) := by
  have hset := Counting.count_flatMap_set Caller.held s.callers i C C' p hi
  have ho := h.owners p
  have hb := hbal p
  unfold State.heldPtrs at ho ⊢
  rw [hc]
  omega

theorem unkeyed_set (hi : s.callers[i]? = some C) (hc : s'.callers = s.callers.set i C')
    (hnew : ∀ p ∈ C'.unkeyed, s'.pool.clientPoolKey p = none)
    (hold : ∀ p, p ∉ C.held → s.pool.clientPoolKey p = none → s'.pool.clientPoolKey p = none)
    (j : Nat) (D : Caller) (hj : s'.callers[j]? = some D) :
    ∀ p ∈ D.unkeyed, s'.pool.clientPoolKey p = none := by
  intro p hp
  rw [hc] at hj
  by_cases hij : i = j
  · subst hij
    have hlt : i < s.callers.length := (List.getElem?_eq_some_iff.mp hi).1
    rw [List.getElem?_set_self hlt, Option.some.injEq] at hj
    exact hnew p (hj ▸ hp)
  · rw [List.getElem?_set_ne hij] at hj
    exact hold p (h.held_disjoint (Ne.symm hij) hj hi (unkeyed_held hp)) (h.unkeyed j D hj p hp)

end Owned

/-- A step that leaves the pool, the heap and the records alone keeps ownership
when the caller owns what it owned. -/
theorem Owned.move {s : State} (h : Owned s) {i : Nat} {C C' : Caller} {log : List Event}
    (hi : s.callers[i]? = some C) (hheld : C'.held = C.held)
    (hun : ∀ p ∈ C'.unkeyed, s.pool.clientPoolKey p = none) :
    Owned { s with callers := s.callers.set i C', log := log } where
  owners := h.owners_set hi rfl (by intro p; rw [hheld])
  since := h.since
  key := h.key
  size := h.size
  keyLive := h.keyLive
  unkeyed := h.unkeyed_set hi rfl hun (fun p _ hk => hk)
  births := h.births

theorem Owned.replace {s : State} (h : Owned s) {p : Ptr} {c d : RemoteClient}
    (hc : s.heap p = some c) (hd : d.id = c.id) : Owned (s.setClient p d) where
  owners := by
    intro q
    have hq : alive ((s.setClient p d).heap q) = alive (s.heap q) := by
      simp only [State.setClient, Function.update_apply]
      split
      · rename_i hq
        rw [hq, hc, alive_some, alive_some]
      · rfl
    rw [hq]
    exact h.owners q
  since := h.since
  key := h.key
  size := h.size
  keyLive := by
    intro q k hk
    have := h.keyLive q k hk
    simp only [State.setClient, Function.update_apply]
    split
    · rfl
    · exact this
  unkeyed := h.unkeyed
  births := h.births.replace hc hd

theorem Owned.rekey {s : State} (h : Owned s) {i : Nat} {C C' : Caller} {p : Ptr}
    {key : Option Bytes} {log : List Event} (hi : s.callers[i]? = some C) (hp : p ∈ C.held)
    (hheld : C'.held = C.held)
    (hun : ∀ q ∈ C'.unkeyed, (s.pool.setKey p key).clientPoolKey q = none) :
    Owned { s with pool := s.pool.setKey p key, callers := s.callers.set i C', log := log } where
  owners := h.owners_set hi rfl (by intro q; rw [hheld]; rfl)
  since := h.since
  key := by
    intro k v hv q hq
    have hidle : q ∈ s.pool.idlePtrs := ClientPool.mem_idlePtrs.mpr ⟨k, v, hv, hq⟩
    have hne : q ≠ p := by
      rintro rfl
      exact h.held_not_idle hi hp hidle
    rw [ClientPool.setKey_key, if_neg hne]
    exact h.key k v hv q hq
  size := h.size
  keyLive := by
    intro q k hk
    rw [ClientPool.setKey_key] at hk
    split at hk
    · rename_i hq
      subst hq
      exact h.held_live hi hp
    · exact h.keyLive q k hk
  unkeyed := by
    refine h.unkeyed_set hi rfl hun ?_
    intro q hq hk
    have hne : q ≠ p := fun he => hq (he ▸ hp)
    rw [ClientPool.setKey_key, if_neg hne, hk]
  births := h.births

theorem Moves.held_eq {C C' : Caller} {a : Action} (m : Moves C a C') :
    C'.held = C.held ∧ C'.unkeyed = [] := by
  cases m <;> simp [Caller.held, Caller.unkeyed]

theorem Destroys.held_eq {C C' : Caller} {p : Ptr} (d : Destroys C p C') :
    C.held = p :: C'.held ∧ C.unkeyed = p :: C'.unkeyed := by
  cases d <;> simp [Caller.held, Caller.unkeyed]

variable {E : Env}

section Sections

variable {s : State} (h : Owned s) {i : Nat} {C C' : Caller}
include h

/-- What the first section leaves idle was idle, and is not what it removes. -/
theorem Owned.idle_taken {key : Bytes} {t : Taken} (spec : AcquireSpec s.maxIdle key s.pool t)
    {p : Ptr} (hp : p ∈ t.pool.idlePtrs) : p ∈ s.pool.idlePtrs ∧ p ∉ t.removed := by
  have hcount := spec.count p
  have hown := h.owners p
  have hle := alive_le_one (s.heap p)
  have hpos : 0 < t.pool.idlePtrs.count p := List.count_pos_iff.mpr hp
  exact ⟨List.count_pos_iff.mp (by omega), List.count_eq_zero.mp (by omega)⟩

theorem Owned.since_taken {key : Bytes} {t : Taken} (spec : AcquireSpec s.maxIdle key s.pool t)
    (p : Ptr) : (t.pool.clientPoolIdleSince p).isSome ↔ p ∈ t.pool.idlePtrs := by
  rw [spec.since p]
  by_cases hr : p ∈ t.removed
  · rw [if_pos hr]
    exact ⟨fun hs => absurd hs Bool.false_ne_true, fun hp => absurd hr (h.idle_taken spec hp).2⟩
  · rw [if_neg hr, h.since p]
    refine ⟨fun hp => ?_, fun hp => (h.idle_taken spec hp).1⟩
    have hcount := spec.count p
    rw [List.count_eq_zero.mpr hr, Nat.add_zero] at hcount
    exact List.count_pos_iff.mp (hcount ▸ List.count_pos_iff.mpr hp)

theorem Owned.enterAcquire {hr : HostInfo} {t : Taken}
    (hi : s.callers[i]? = some (.acquiring hr true))
    (spec : AcquireSpec s.maxIdle (clientPoolKey hr) s.pool t) : Owned (s.taken i hr t) := by
  constructor
  · refine h.owners_set hi rfl ?_
    intro p
    have := spec.count p
    simp only [State.taken, Caller.held, List.count_nil, Taken.removed] at this ⊢
    omega
  · exact h.since_taken spec
  · intro k v hv p hp
    obtain ⟨w, hw, hsuf⟩ := spec.suffix k v hv
    have hkey := h.key k w hw p (hsuf.subset hp)
    have hidle : p ∈ t.pool.idlePtrs := ClientPool.mem_idlePtrs.mpr ⟨k, v, hv, hp⟩
    have hne : p ∉ t.expired := fun hexp =>
      (h.idle_taken spec hidle).2 (List.mem_append_left _ hexp)
    simp only [State.taken]
    rw [spec.key p, if_neg hne, hkey]
  · intro k v hv
    obtain ⟨w, hw, hsuf⟩ := spec.suffix k v hv
    exact Nat.le_trans hsuf.length_le (h.size k w hw)
  · intro p k hk
    simp only [State.taken] at hk ⊢
    rw [spec.key p] at hk
    split at hk
    · cases hk
    · exact h.keyLive p k hk
  · refine h.unkeyed_set hi rfl ?_ ?_
    · intro p hp
      simp only [State.taken, Caller.unkeyed] at hp ⊢
      rw [spec.key p, if_pos hp]
    · intro p _ hk
      simp only [State.taken]
      rw [spec.key p, hk, ite_self]
  · exact h.births

theorem Owned.destroy {p : Ptr} {c : RemoteClient} {log : List Event}
    (hi : s.callers[i]? = some C) (d : Destroys C p C') (hc : s.heap p = some c) :
    Owned { s with
      heap := Function.update s.heap p none
      callers := s.callers.set i C'
      destroyed := c.id :: s.destroyed
      log := log } := by
  obtain ⟨hheld, hun⟩ := d.held_eq
  have hkey : s.pool.clientPoolKey p = none := h.unkeyed i C hi p (by simp [hun])
  constructor
  · refine h.owners_set hi rfl ?_
    intro q
    dsimp only
    rw [hheld, List.count_cons, Function.update_apply]
    by_cases hq : q = p
    · subst hq
      simp [hc]
      omega
    · simp [hq, Ne.symm hq]
  · exact h.since
  · exact h.key
  · exact h.size
  · intro q k hk
    have hq : q ≠ p := by
      rintro rfl
      rw [hkey] at hk
      cases hk
    simpa [Function.update_of_ne hq] using h.keyLive q k hk
  · exact h.unkeyed_set hi rfl (fun q hq => h.unkeyed i C hi q (by simp [hun, hq]))
      (fun q _ hk => hk)
  · exact h.births.destroy hc

theorem Owned.create {hr : HostInfo} {reusable : Bool} {p : Ptr} {c : RemoteClient}
    {log : List Event} (hi : s.callers[i]? = some (.draining hr reusable [] none))
    (hp : s.heap p = none) (hid : c.id = s.born) :
    Owned { s with
      heap := Function.update s.heap p (some c)
      callers := s.callers.set i (.connecting hr reusable p)
      born := s.born + 1
      log := log } := by
  have hkey : s.pool.clientPoolKey p = none := by
    cases hk : s.pool.clientPoolKey p with
    | none => rfl
    | some k => simpa [hp] using h.keyLive p k hk
  constructor
  · refine h.owners_set hi rfl ?_
    intro q
    simp only [Caller.held, Function.update_apply, List.append_nil, Option.toList_none,
      List.count_nil, List.count_cons]
    by_cases hq : q = p
    · subst hq
      simp [hp]
      omega
    · simp [hq, Ne.symm hq]
  · exact h.since
  · exact h.key
  · exact h.size
  · intro q k hk
    have := h.keyLive q k hk
    simp only [Function.update_apply]
    split
    · rfl
    · exact this
  · exact h.unkeyed_set hi rfl (by simp [Caller.unkeyed, hkey]) (fun q _ hk => hk)
  · exact h.births.create hp hid

theorem Owned.throw {hr : HostInfo} {reusable : Bool} {p : Ptr}
    (hi : s.callers[i]? = some (.connecting hr reusable p)) :
    Owned ({ s with leaked := p :: s.leaked }.setCaller i .outside) := by
  constructor
  · refine h.owners_set hi rfl ?_
    intro q
    simp only [State.setCaller, Caller.held, List.count_nil, List.count_cons]
    omega
  · exact h.since
  · exact h.key
  · exact h.size
  · exact h.keyLive
  · exact h.unkeyed_set hi rfl (by simp [Caller.unkeyed]) (fun q _ hk => hk)
  · exact h.births

theorem Owned.releasePooled {p : Ptr} {c : RemoteClient} {key : Bytes} {now : Int}
    {log : List Event} (hi : s.callers[i]? = some (.releasing p true)) (hc : s.heap p = some c)
    (hk : s.pool.clientPoolKey p = some key)
    (hroom : ((s.pool.clientPoolIdle.lookup key).getD []).length < clientPoolMaxIdle) :
    Owned { s with
      pool := (s.pool.setIdle key
        (p :: (s.pool.clientPoolIdle.lookup key).getD [])).setIdleSince p (some now)
      heap := Function.update s.heap p (some c.resetTransferState)
      callers := s.callers.set i .outside
      log := log } := by
  have hnot : p ∉ s.pool.idlePtrs := h.held_not_idle hi (by simp [Caller.held])
  have hid : c.resetTransferState.id = c.id := by
    unfold RemoteClient.resetTransferState
    split <;> rfl
  have hr' := h.replace hc hid
  have hcount := fun q => ClientPool.count_setIdle s.pool q key
    (p :: (s.pool.clientPoolIdle.lookup key).getD [])
  simp only [List.count_cons] at hcount
  constructor
  -- the pointer goes from the caller to the list of its key, so it keeps one owner
  · refine hr'.owners_set hi rfl ?_
    intro q
    have := hcount q
    simp only [ClientPool.setIdleSince_idlePtrs, Caller.held, List.count_nil, List.count_cons,
      State.setClient]
    omega
  · intro q
    have hq := hcount q
    have hmem : q ∈ s.pool.idlePtrs ↔ 0 < s.pool.idlePtrs.count q := List.count_pos_iff.symm
    dsimp only
    rw [ClientPool.setIdleSince_since, ClientPool.setIdleSince_idlePtrs, ← List.count_pos_iff]
    by_cases hqp : q = p
    · subst hqp
      simp only [beq_self_eq_true, if_true] at hq ⊢
      simp only [Option.isSome_some, true_iff]
      omega
    · have hne : (p == q) = false := by simp [Ne.symm hqp]
      rw [if_neg hqp, ClientPool.setIdle_since, h.since q, hmem]
      rw [hne, if_neg Bool.false_ne_true] at hq
      omega
  · intro k v hv q hq
    simp only [ClientPool.setIdleSince_idle, ClientPool.setIdle_idle] at hv
    simp only [ClientPool.setIdleSince_key, ClientPool.setIdle_key]
    by_cases hkk : k = key
    · subst hkk
      rw [AList.lookup_insert, Option.some.injEq] at hv
      rw [← hv] at hq
      rcases List.mem_cons.mp hq with rfl | hq
      · exact hk
      · cases ho : s.pool.clientPoolIdle.lookup k with
        | none => simp [ho] at hq
        | some w => exact h.key k w ho q (by simpa [ho] using hq)
    · rw [AList.lookup_insert_ne hkk] at hv
      exact h.key k v hv q hq
  · intro k v hv
    simp only [ClientPool.setIdleSince_idle, ClientPool.setIdle_idle] at hv
    by_cases hkk : k = key
    · subst hkk
      rw [AList.lookup_insert, Option.some.injEq] at hv
      rw [← hv, List.length_cons]
      exact hroom
    · rw [AList.lookup_insert_ne hkk] at hv
      exact h.size k v hv
  · exact hr'.keyLive
  · exact hr'.unkeyed_set hi rfl (by simp [Caller.unkeyed]) (fun q _ hk => hk)
  · exact hr'.births

theorem Owned.enterClear {log : List Event} (hi : s.callers[i]? = some .clearing) :
    Owned { s with
      pool := .empty
      callers := s.callers.set i (.sweeping s.pool.idlePtrs)
      log := log } := by
  constructor
  · refine h.owners_set hi rfl ?_
    intro q
    simp [Caller.held]
  · simp
  · simp
  · simp
  · simp
  · exact h.unkeyed_set hi rfl (by simp) (by simp)
  · exact h.births

end Sections

theorem owned_step {s s' : State} {i : Nat} {C : Caller} {a : Action} (h : Owned s)
    (hi : s.callers[i]? = some C) (st : Step E s i C a s') : Owned s' := by
  cases st with
  | move m =>
    obtain ⟨hheld, hun⟩ := m.held_eq
    exact h.move hi hheld (by simp [hun])
  | finish hr r p => exact h.move hi (by simp [Caller.held]) (by simp [Caller.unkeyed])
  | enterAcquire hr clock t spec => exact h.enterAcquire hi spec
  | destroy d hc => exact h.destroy hi d hc
  | create hr r p cls hn hp => exact h.create hi hp rfl
  | throw hr r p ht => exact h.throw hi
  | connect hr p c hc ht =>
    have hr' := h.replace (d := { c with urlEncode := pathEncoding hr }) hc rfl
    exact hr'.move hi rfl fun q hq => h.unkeyed i _ hi q (by simpa [Caller.unkeyed] using hq)
  | connectAlone hr p c hc ht =>
    have hr' := h.replace (d := { c with urlEncode := pathEncoding hr }) hc rfl
    exact hr'.move hi rfl (by simp [Caller.unkeyed])
  | register hr p => exact h.rekey hi (by simp [Caller.held]) rfl (by simp [Caller.unkeyed])
  | setCallback hr p c t hc hf => exact h.replace hc rfl
  | releasePooled p c key now hc hk hroom => exact h.releasePooled hi hc hk hroom
  | releaseDropped p c success connected now hc =>
    exact h.rekey hi (by simp [Caller.held]) rfl (by simp [Caller.unkeyed, ClientPool.setKey_key])
  | enterClear => exact h.enterClear hi

theorem owned_initial (n : Nat) : Owned (initial n) := by
  have hcallers : ∀ (i : Nat) (C : Caller), (initial n).callers[i]? = some C → C = .outside := by
    intro i C hi
    have hm := List.mem_of_getElem? hi
    exact List.eq_of_mem_replicate hm
  constructor
  · intro p
    have hheld : (initial n).heldPtrs = [] := by
      simp [State.heldPtrs, initial, Caller.held]
    rw [hheld]
    simp [initial]
  · simp [initial]
  · simp [initial]
  · simp [initial]
  · simp [initial]
  · intro i C hi p hp
    rw [hcallers i C hi] at hp
    simp [Caller.unkeyed] at hp
  · constructor <;> simp [initial]

theorem step_caller {s s' : State} {a : Nat × Action} (h : step E s a = some s') :
    ∃ C, s.callers[a.1]? = some C ∧ Step E s a.1 C a.2 s' := by
  simp only [step, Option.bind_eq_some_iff] at h
  obtain ⟨C, hC, hs⟩ := h
  exact ⟨C, hC, step_cases E hs⟩

/-- Every run, whatever is thrown, keeps the ownership invariant. -/
theorem owned_reachable {ok : State → Nat × Action → Prop} {s : State}
    (h : Reachable E ok s) : Owned s := by
  refine Transition.Reachable.invariant h ?_ ?_
  · rintro _ ⟨n, rfl⟩
    exact owned_initial n
  · intro s a t ho _ hs
    obtain ⟨C, hC, st⟩ := step_caller hs
    exact owned_step ho hC st

namespace State

/-- The clients at the given addresses, by the number of their construction. -/
def clientsAt (s : State) (ps : List Ptr) : List Nat :=
  ps.filterMap fun p => (s.heap p).map RemoteClient.id

def idleClients (s : State) : List Nat := s.clientsAt s.pool.idlePtrs

def heldClients (s : State) : List Nat := s.clientsAt s.heldPtrs

end State

/-- Client pool ownership: each client ever constructed is idle once, held once
or destroyed once, nothing idle or held is deleted, and the three maps agree. -/
structure Ownership (s : State) : Prop where
  place : ∀ b < s.born,
    s.idleClients.count b + s.heldClients.count b + s.destroyed.count b = 1
  live : ∀ p, p ∈ s.pool.idlePtrs ∨ p ∈ s.heldPtrs → (s.heap p).isSome
  since : ∀ p, (s.pool.clientPoolIdleSince p).isSome ↔ p ∈ s.pool.idlePtrs
  key : ∀ k v, s.pool.clientPoolIdle.lookup k = some v →
    ∀ p ∈ v, s.pool.clientPoolKey p = some k
  size : ∀ k v, s.pool.clientPoolIdle.lookup k = some v → v.length ≤ clientPoolMaxIdle

theorem count_clientsAt {s : State} (h : Owned s) {p : Ptr} {c : RemoteClient}
    (hc : s.heap p = some c) (ps : List Ptr) : (s.clientsAt ps).count c.id = ps.count p := by
  induction ps with
  | nil => rfl
  | cons q ps ih =>
    unfold State.clientsAt at ih ⊢
    rw [List.filterMap_cons, List.count_cons]
    cases hq : s.heap q with
    | none =>
      have hne : (q == p) = false := by
        rw [beq_eq_false_iff_ne]
        rintro rfl
        rw [hq] at hc
        cases hc
      simp [ih, hne]
    | some d =>
      have hiff : d.id = c.id ↔ q = p :=
        ⟨h.births.inj q p d c hq hc, by rintro rfl; rw [hq] at hc; cases hc; rfl⟩
      simp only [Option.map_some, List.count_cons, ih, beq_iff_eq, hiff]

theorem count_clientsAt_destroyed {s : State} (h : Owned s) {b : Nat} (hb : b ∈ s.destroyed)
    (ps : List Ptr) : (s.clientsAt ps).count b = 0 := by
  rw [List.count_eq_zero]
  intro hm
  simp only [State.clientsAt, List.mem_filterMap, Option.map_eq_some_iff] at hm
  obtain ⟨p, -, c, hc, rfl⟩ := hm
  exact (h.births.live p c hc).2 hb

/-- Where no client was lost by an exception, every client has one place. -/
theorem Owned.ownership {s : State} (h : Owned s) (hl : s.leaked = []) : Ownership s where
  place := by
    intro b hb
    rcases h.births.all b hb with hd | ⟨p, c, hc, rfl⟩
    · have h1 := count_clientsAt_destroyed h hd s.pool.idlePtrs
      have h2 := count_clientsAt_destroyed h hd s.heldPtrs
      have h3 := List.count_eq_one_of_mem h.births.once hd
      unfold State.idleClients State.heldClients
      omega
    · have h1 := count_clientsAt h hc s.pool.idlePtrs
      have h2 := count_clientsAt h hc s.heldPtrs
      have h3 := List.count_eq_zero.mpr (h.births.live p c hc).2
      have ho := h.owners p
      rw [hc, hl, List.count_nil, alive_some] at ho
      unfold State.idleClients State.heldClients
      omega
  live := by
    rintro p (hp | hp)
    · exact h.idle_live hp
    · simp only [State.heldPtrs, List.mem_flatMap] at hp
      obtain ⟨C, hC, hp⟩ := hp
      obtain ⟨i, hi⟩ := List.mem_iff_getElem?.mp hC
      exact h.held_live hi hp
  since := h.since
  key := h.key
  size := h.size

/-- The step is a `Connect` that leaves `CreatePooledClient` by an exception. -/
def connectFails (E : Env) (s : State) (a : Nat × Action) : Bool :=
  match s.callers[a.1]?, a.2 with
  | some (.connecting h _ _), .connect => connectThrows E h
  | _, _ => false

def noThrow (E : Env) (s : State) (a : Nat × Action) : Prop := connectFails E s a = false

instance (s : State) (a : Nat × Action) : Decidable (noThrow E s a) :=
  inferInstanceAs (Decidable (_ = _))

theorem leaked_step {s s' : State} {i : Nat} {C : Caller} {a : Action} (hl : s.leaked = [])
    (hi : s.callers[i]? = some C) (hok : noThrow E s (i, a)) (st : Step E s i C a s') :
    s'.leaked = [] := by
  cases st with
  | throw h r p ht => simp [noThrow, connectFails, hi, ht] at hok
  | _ => exact hl

theorem leaked_reachable {s : State} (h : Reachable E (noThrow E) s) : s.leaked = [] := by
  refine @Transition.Reachable.invariant _ _ _ _ _ (fun s => s.leaked = []) s h ?_ ?_
  · rintro _ ⟨n, rfl⟩
    rfl
  · intro s a t hl hok hs
    obtain ⟨C, hC, st⟩ := step_caller hs
    exact leaked_step hl hC hok st

/-- Every client ever created is in one place, in every run of any number of
callers in which no `Connect` throws. -/
theorem pool_ownership (E : Env) (s : State) (h : Reachable E (noThrow E) s) : Ownership s :=
  (owned_reachable h).ownership (leaked_reachable h)

/-- A plain server, whose url no constructor refuses. -/
def smbHost : HostInfo :=
  { type := 2, url := bytes "nas", httpServerType := [], username := bytes "u", password := [] }

/-- A url that is shorter than the scheme `FtpClient::Connect` cuts off. -/
def shortFtpHost : HostInfo :=
  { type := 0, url := bytes "x", httpServerType := [], username := [], password := [] }

def quietEnv : Env := ⟨fun _ _ => false⟩

/-- Two callers: the client of the first is pooled and handed to the second. -/
theorem pool_ownership_reuse : ∃ s, Reachable quietEnv (noThrow quietEnv) s ∧
    (s.born = 1 ∧ s.callers = [.outside, .holding smbHost 7]) ∧ Ownership s := by
  obtain ⟨s, hs, ho⟩ := exists_reachable quietEnv (noThrow quietEnv) 2
    [(0, .acquire smbHost true), (0, .enterAcquire []), (0, .create 7), (0, .connect),
      (0, .register), (0, .release true), (0, .enterRelease true 100),
      (1, .acquire smbHost true), (1, .enterAcquire [160]), (1, .finish)]
    (fun s => (s.born, s.callers)) (1, [.outside, .holding smbHost 7]) (by decide)
  simp only [Prod.mk.injEq] at ho
  exact ⟨s, hs, ho, pool_ownership quietEnv s hs⟩

/-- A `Connect` that throws loses the client that was just constructed. -/
theorem pool_ownership_shortUrl :
    ¬ ∀ E s, Reachable E Transition.anyStep s → Ownership s := by
  intro hall
  obtain ⟨s, hs, ho⟩ := exists_reachable quietEnv Transition.anyStep 1
    [(0, .acquire shortFtpHost true), (0, .enterAcquire []), (0, .create 7), (0, .connect)]
    (fun s => (s.born, s.idleClients, s.heldClients, s.destroyed)) (1, [], [], []) (by decide)
  simp only [Prod.mk.injEq] at ho
  obtain ⟨hborn, hidle, hheld, hdest⟩ := ho
  have hplace := (hall quietEnv s hs).place 0 (by omega)
  simp [hidle, hheld, hdest] at hplace

end EzRemote.Pool

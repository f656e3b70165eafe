import Mathlib.Data.List.TakeWhile
import EzRemote.Pool.Ownership

/-!
# When a client may be reused

The records of a run say what happened to each client.  The latest record about
a client explains where it is: an idle client was last released in order, a
client taken from the pool was last released in order and is young enough, a
client that is being connected was last created by the same caller.
-/

namespace EzRemote.Pool

/-- The client that an event is about. -/
def Event.client : Event → Option Nat
  | .created _ c | .handedOut _ c _ | .returned _ c | .released _ c _ _ _ _ | .destroyed _ c =>
    some c.id
  | .cleared _ => none

/-- The events from the latest one about client `b` on, newest first. -/
def history (b : Nat) (log : List Event) : List Event :=
  log.dropWhile fun e => e.client ≠ some b

theorem history_cons_self {e : Event} {b : Nat} (h : e.client = some b) (log : List Event) :
    history b (e :: log) = e :: log := by
  simp [history, h]

theorem history_cons_ne {e : Event} {b : Nat} (h : e.client ≠ some b) (log : List Event) :
    history b (e :: log) = history b log := by
  simp [history, h]

/-- A release that kept the client: success, connected, state reset. -/
def ReleasedInOrder (c : RemoteClient) (t : Int) (events : List Event) : Prop :=
  c.transfer = {} ∧ ∃ j older, events = .released j c true true true t :: older

/-- The hand-out of an idle client, at most its idle limit after the release. -/
def Reused (i : Nat) (c : RemoteClient) (events : List Event) : Prop :=
  ∃ now t older, events = .handedOut i c (some now) :: older ∧
    ReleasedInOrder c t (history c.id older) ∧ now - t ≤ c.cls.getMaxIdleTimeout

/-- Nothing happened to the client since caller `i` created it. -/
def Fresh (i : Nat) (events : List Event) : Prop :=
  ∃ c older, events = .created i c :: older

/-- The client was out of the pool, with a caller or on its way to it. -/
def CheckedOut (b : Nat) (log : List Event) : Prop :=
  ∃ i c older, (∃ now, history b log = .handedOut i c now :: older) ∨
    history b log = .returned i c :: older

/-- After this event client `b` must not be handed out again. -/
def Retires (b : Nat) (e : Event) (older : List Event) : Prop :=
  (∃ i c connected pooled now, e = .released i c false connected pooled now ∧ c.id = b) ∨
    (∃ i, e = .cleared i) ∧ CheckedOut b older

def Retired (b : Nat) (log : List Event) : Prop :=
  ∃ e older, e :: older <:+ log ∧ Retires b e older

theorem retired_cons {b : Nat} {e : Event} {log : List Event} :
    Retired b (e :: log) ↔ Retires b e log ∨ Retired b log := by
  constructor
  · rintro ⟨f, older, hs, hr⟩
    rcases List.suffix_cons_iff.mp hs with he | hs
    · rw [List.cons.injEq] at he
      exact .inl (he.1 ▸ he.2 ▸ hr)
    · exact .inr ⟨f, older, hs, hr⟩
  · rintro (hr | ⟨f, older, hs, hr⟩)
    · exact ⟨e, log, List.suffix_refl _, hr⟩
    · exact ⟨f, older, hs.trans (List.suffix_cons e log), hr⟩

/-- The events that can retire a client. -/
def Event.retiring : Event → Bool
  | .released _ _ success _ _ _ => !success
  | .cleared _ => true
  | .created _ _ | .handedOut _ _ _ | .returned _ _ | .destroyed _ _ => false

theorem retired_cons_quiet {b : Nat} {e : Event} {log : List Event} (he : e.retiring = false) :
    Retired b (e :: log) ↔ Retired b log := by
  rw [retired_cons, or_iff_right]
  rintro (⟨i, c, connected, pooled, now, rfl, -⟩ | ⟨⟨i, rfl⟩, -⟩) <;> cases he

/-- Every client that `AcquireRemoteClient` returns is new, or was released in
order and is young; a retired client is not taken from the pool again. -/
structure ReuseDiscipline (log : List Event) : Prop where
  returned : ∀ i c older, .returned i c :: older <:+ log →
    Fresh i (history c.id older) ∨ Reused i c (history c.id older)
  handedOut : ∀ i c now older, .handedOut i c now :: older <:+ log → ¬ Retired c.id older

namespace ReuseDiscipline

variable {log : List Event} (h : ReuseDiscipline log)
include h

theorem cons {e : Event}
    (hr : ∀ i c, e = .returned i c → Fresh i (history c.id log) ∨ Reused i c (history c.id log))
    (ho : ∀ i c now, e = .handedOut i c now → ¬ Retired c.id log) :
    ReuseDiscipline (e :: log) where
  returned := by
    intro i c older hs
    rcases List.suffix_cons_iff.mp hs with he | hs
    · rw [List.cons.injEq] at he
      exact he.2 ▸ hr i c he.1.symm
    · exact h.returned i c older hs
  handedOut := by
    intro i c now older hs
    rcases List.suffix_cons_iff.mp hs with he | hs
    · rw [List.cons.injEq] at he
      exact he.2 ▸ ho i c now he.1.symm
    · exact h.handedOut i c now older hs

end ReuseDiscipline

/-- What the records say of the client that caller `i` is acquiring. -/
def CallerStory (s : State) (i : Nat) : Caller → Prop
  | .draining _ _ _ (some p) => ∃ c, s.heap p = some c ∧ Reused i c (history c.id s.log)
  | .connecting _ _ p | .registering _ p =>
    ∃ c, s.heap p = some c ∧ Fresh i (history c.id s.log) ∧ ¬ Retired c.id s.log
  | _ => True

structure Story (s : State) : Prop where
  idle : ∀ p ∈ s.pool.idlePtrs, ∃ c t, s.heap p = some c ∧
    s.pool.clientPoolIdleSince p = some t ∧ ReleasedInOrder c t (history c.id s.log)
  callers : ∀ (i : Nat) (C : Caller), s.callers[i]? = some C → CallerStory s i C
  plain : ∀ p c, s.heap p = some c → c.cls ≠ .ftpClient → c.transfer = {}
  ids : ∀ e ∈ s.log, ∀ b, e.client = some b → b < s.born
  keyed : ∀ p c k, s.heap p = some c → s.pool.clientPoolKey p = some k → ¬ Retired c.id s.log
  log : ReuseDiscipline s.log

/-- The address and the records of its client read as before. -/
structure SameAt (s s' : State) (q : Ptr) : Prop where
  heap : s'.heap q = s.heap q
  history : ∀ c, s.heap q = some c → history c.id s'.log = history c.id s.log
  retired : ∀ c, s.heap q = some c → Retired c.id s'.log → Retired c.id s.log

theorem SameAt.of_log {s s' : State} {q : Ptr} (hh : s'.heap q = s.heap q)
    (hl : s'.log = s.log) : SameAt s s' q :=
  ⟨hh, fun _ _ => by rw [hl], fun _ _ => by rw [hl]; exact id⟩

theorem SameAt.of_event {s s' : State} (ho : Owned s) {p q : Ptr} {c : RemoteClient} {e : Event}
    (hc : s.heap p = some c) (he : e.client = some c.id) (hl : s'.log = e :: s.log)
    (hne : q ≠ p) (hh : s'.heap q = s.heap q) : SameAt s s' q := by
  have hid : ∀ d, s.heap q = some d → c.id ≠ d.id := by
    intro d hd hcd
    exact hne (ho.births.inj q p d c hd hc hcd.symm)
  refine ⟨hh, ?_, ?_⟩
  · intro d hd
    rw [hl, history_cons_ne (by simp [he, hid d hd])]
  · intro d hd hr
    rw [hl, retired_cons] at hr
    rcases hr with (⟨i, c', connected, pooled, now, rfl, hcd⟩ | ⟨⟨i, rfl⟩, -⟩) | hr
    · rw [Event.client, Option.some.injEq] at he
      exact absurd (he.symm.trans hcd) (hid d hd)
    · cases he
    · exact hr

theorem CallerStory.congr {s s' : State} {i : Nat} {C : Caller} (h : CallerStory s i C)
    (hsame : ∀ q ∈ C.held, SameAt s s' q) : CallerStory s' i C := by
  unfold CallerStory at h ⊢
  split at h
  · rename_i p
    obtain ⟨c, hc, hr⟩ := h
    have hq := hsame p (by simp [Caller.held])
    exact ⟨c, by rw [hq.heap, hc], by rw [hq.history c hc]; exact hr⟩
  · rename_i p
    obtain ⟨c, hc, hf, hr⟩ := h
    have hq := hsame p (by simp [Caller.held])
    exact ⟨c, by rw [hq.heap, hc], by rw [hq.history c hc]; exact hf, mt (hq.retired c hc) hr⟩
  · rename_i p
    obtain ⟨c, hc, hf, hr⟩ := h
    have hq := hsame p (by simp [Caller.held])
    exact ⟨c, by rw [hq.heap, hc], by rw [hq.history c hc]; exact hf, mt (hq.retired c hc) hr⟩
  · trivial

theorem Story.callers_set {s s' : State} (hv : Story s) {i : Nat} {C' : Caller}
    (hcallers : s'.callers = s.callers.set i C')
    (hsame : ∀ (j : Nat) (D : Caller), j ≠ i → s.callers[j]? = some D →
      ∀ q ∈ D.held, SameAt s s' q)
    (hnew : CallerStory s' i C') (j : Nat) (D : Caller) (hj : s'.callers[j]? = some D) :
    CallerStory s' j D := by
  rw [hcallers, List.getElem?_set] at hj
  split at hj
  · rename_i hij
    split at hj
    · rw [Option.some.injEq] at hj
      exact hj ▸ hij ▸ hnew
    · cases hj
  · rename_i hij
    exact (hv.callers j D hj).congr (hsame j D (Ne.symm hij) hj)

theorem Owned.other_ne {s : State} (ho : Owned s) {i j : Nat} {C D : Caller} {p q : Ptr}
    (hi : s.callers[i]? = some C) (hp : p ∈ C.held) (hij : j ≠ i)
    (hj : s.callers[j]? = some D) (hq : q ∈ D.held) : q ≠ p := by
  rintro rfl
  exact ho.held_disjoint hij hj hi hq hp

theorem Story.idle_congr {s s' : State} (hv : Story s)
    (hidle : ∀ q ∈ s'.pool.idlePtrs, q ∈ s.pool.idlePtrs)
    (hsince : ∀ q ∈ s'.pool.idlePtrs,
      s'.pool.clientPoolIdleSince q = s.pool.clientPoolIdleSince q)
    (hsame : ∀ q ∈ s'.pool.idlePtrs, SameAt s s' q) :
    ∀ q ∈ s'.pool.idlePtrs, ∃ c t, s'.heap q = some c ∧
      s'.pool.clientPoolIdleSince q = some t ∧ ReleasedInOrder c t (history c.id s'.log) := by
  intro q hq
  obtain ⟨c, t, hc, ht, hr⟩ := hv.idle q (hidle q hq)
  have hs := hsame q hq
  exact ⟨c, t, by rw [hs.heap, hc], by rw [hsince q hq, ht], by rw [hs.history c hc]; exact hr⟩

theorem Story.ids_cons {s : State} (hv : Story s) {e : Event} {born : Nat}
    (hle : s.born ≤ born) (he : ∀ b, e.client = some b → b < born) :
    ∀ f ∈ e :: s.log, ∀ b, f.client = some b → b < born := by
  intro f hf b hb
  rcases List.mem_cons.mp hf with rfl | hf
  · exact he b hb
  · exact Nat.lt_of_lt_of_le (hv.ids f hf b hb) hle

/-- A step that writes no record, and the heap at most in place at `p`. -/
theorem Story.silent {s s' : State} (hv : Story s) (ho : Owned s) {i : Nat} {C C' : Caller}
    (hi : s.callers[i]? = some C) (hcallers : s'.callers = s.callers.set i C')
    (hpool : s'.pool = s.pool) (hborn : s'.born = s.born) (hlog : s'.log = s.log)
    (hheap : ∀ q, q ∉ C.held → s'.heap q = s.heap q)
    (hid : ∀ q d, s'.heap q = some d → ∃ c, s.heap q = some c ∧ c.id = d.id ∧
      (d.cls ≠ .ftpClient → c.cls ≠ .ftpClient ∧ d.transfer = c.transfer))
    (hnew : CallerStory s' i C') : Story s' where
  idle := by
    refine hv.idle_congr (by simp [hpool]) (by simp [hpool]) ?_
    intro q hq
    rw [hpool] at hq
    exact .of_log (hheap q fun hp => ho.held_not_idle hi hp hq) hlog
  callers := by
    refine hv.callers_set hcallers ?_ hnew
    intro j D hij hj q hq
    exact .of_log (hheap q fun hp => ho.other_ne hi hp hij hj hq rfl) hlog
  plain := by
    intro q d hd hf
    obtain ⟨c, hc, -, hcls⟩ := hid q d hd
    rw [(hcls hf).2]
    exact hv.plain q c hc (hcls hf).1
  ids := by
    rw [hlog, hborn]
    exact hv.ids
  keyed := by
    intro q d k hd hk
    obtain ⟨c, hc, hcd, -⟩ := hid q d hd
    rw [hlog, ← hcd]
    exact hv.keyed q c k hc (by rw [← hpool]; exact hk)
  log := by
    rw [hlog]
    exact hv.log

theorem story_enterAcquire {s : State} (ho : Owned s) (hv : Story s) {i : Nat} {h : HostInfo}
    {t : Taken} (spec : AcquireSpec s.maxIdle (clientPoolKey h) s.pool t) :
    Story (s.taken i h t) := by
  have hsub : ∀ q ∈ t.pool.idlePtrs, q ∈ s.pool.idlePtrs ∧ q ∉ t.removed :=
    fun q hq => ho.idle_taken spec hq
  have hkeep : ∀ q k, t.pool.clientPoolKey q = some k → s.pool.clientPoolKey q = some k :=
    fun q k hk => spec.key_of_taken hk
  cases hc : t.client with
  | none =>
    have htaken : s.taken i h t = { s with
        pool := t.pool, callers := s.callers.set i (.draining h true t.expired none) } := by
      simp [State.taken, hc]
    rw [htaken]
    constructor
    · refine hv.idle_congr (fun q hq => (hsub q hq).1) ?_ (fun q _ => .of_log rfl rfl)
      intro q hq
      rw [spec.since q, if_neg (hsub q hq).2]
    · exact hv.callers_set rfl (fun j D _ _ q _ => .of_log rfl rfl) trivial
    · exact hv.plain
    · exact hv.ids
    · exact fun q c k hc hk => hv.keyed q c k hc (hkeep q k hk)
    · exact hv.log
  | some x =>
    obtain ⟨p, now⟩ := x
    have hp : p ∈ t.removed := by simp [Taken.removed, hc]
    obtain ⟨v, hlook, hm⟩ := spec.source p hp
    have hidle : p ∈ s.pool.idlePtrs := ClientPool.mem_idlePtrs.mpr ⟨_, v, hlook, hm⟩
    obtain ⟨c, since, hheap, hsince, hrel⟩ := hv.idle p hidle
    have htaken : s.taken i h t = { s with
        pool := t.pool
        callers := s.callers.set i (.draining h true t.expired (some p))
        log := .handedOut i c now :: s.log } := by
      simp [State.taken, hc, hheap]
    -- the age of an idle client is known, so it was judged by a clock reading
    obtain ⟨reading, rfl, hyoung⟩ : ∃ reading, now = some reading ∧
        reading - since ≤ c.cls.getMaxIdleTimeout := by
      cases now with
      | none =>
        rcases spec.unknown p hc with hn | hexp
        · rw [hsince] at hn
          cases hn
        · have hcount := spec.count p
          have hown := ho.owners p
          have hle := alive_le_one (s.heap p)
          have h1 : 0 < t.expired.count p := List.count_pos_iff.mpr hexp
          have h2 : t.removed.count p = t.expired.count p + 1 := by simp [Taken.removed, hc]
          omega
      | some reading =>
        obtain ⟨t', ht', hle⟩ := spec.young p reading hc
        rw [hsince, Option.some.injEq] at ht'
        simp only [State.maxIdle, hheap, Option.map_some, Option.getD_some] at hle
        exact ⟨reading, rfl, by omega⟩
    have hout : ∀ q, q ≠ p → SameAt s (s.taken i h t) q := by
      intro q hq
      rw [htaken]
      exact .of_event ho hheap rfl rfl hq rfl
    have hnot : ∀ q ∈ t.pool.idlePtrs, q ≠ p := by
      rintro q hq rfl
      exact (hsub q hq).2 hp
    have hnr : ¬ Retired c.id s.log := hv.keyed p c _ hheap (ho.key _ v hlook p hm)
    constructor
    · refine hv.idle_congr (fun q hq => (hsub q hq).1) ?_ (fun q hq => hout q (hnot q hq))
      intro q hq
      exact (spec.since q).trans (if_neg (hsub q hq).2)
    · refine hv.callers_set (by rw [htaken]) ?_ ?_
      · intro j D _ hj q hq
        refine hout q ?_
        rintro rfl
        exact ho.held_not_idle hj hq hidle
      · rw [htaken]
        refine ⟨c, hheap, reading, since, s.log, history_cons_self rfl _, hrel, hyoung⟩
    · exact hv.plain
    · rw [htaken]
      refine hv.ids_cons (Nat.le_refl _) ?_
      intro b hb
      rw [Event.client, Option.some.injEq] at hb
      exact hb ▸ (ho.births.live p c hheap).1
    · intro q d k hd hk
      have hq := hv.keyed q d k hd (hkeep q k hk)
      rwa [htaken, retired_cons_quiet rfl]
    · rw [htaken]
      refine hv.log.cons (by rintro _ _ ⟨⟩) ?_
      rintro _ _ _ ⟨⟩
      exact hnr

theorem story_destroy {s : State} (ho : Owned s) (hv : Story s) {i : Nat} {C C' : Caller}
    {p : Ptr} {c : RemoteClient} (hi : s.callers[i]? = some C) (d : Destroys C p C')
    (hc : s.heap p = some c) :
    Story { s with
      heap := Function.update s.heap p none
      callers := s.callers.set i C'
      destroyed := c.id :: s.destroyed
      log := .destroyed i c :: s.log } := by
  obtain ⟨hheld, -⟩ := d.held_eq
  have hp : p ∈ C.held := by simp [hheld]
  have hout : ∀ q, q ≠ p → SameAt s { s with
      heap := Function.update s.heap p none
      callers := s.callers.set i C'
      destroyed := c.id :: s.destroyed
      log := .destroyed i c :: s.log } q := fun q hq =>
    .of_event ho hc rfl rfl hq (Function.update_of_ne hq _ _)
  -- who is still there was there before
  have hback : ∀ q e, Function.update s.heap p none q = some e → s.heap q = some e := by
    intro q e he
    rw [Function.update_apply] at he
    split at he
    · cases he
    · exact he
  constructor
  · refine hv.idle_congr (fun q hq => hq) (fun q _ => rfl) (fun q hq => hout q ?_)
    rintro rfl
    exact ho.held_not_idle hi hp hq
  · refine hv.callers_set rfl (fun j D hij hj q hq => hout q (ho.other_ne hi hp hij hj hq)) ?_
    have hone : p ∉ C'.held := by
      have := ho.held_once hi (p := p)
      rw [hheld, List.count_cons_self] at this
      exact List.count_eq_zero.mp (by omega)
    have hrest : CallerStory s i C' := by
      have hC := hv.callers i C hi
      cases d with
      | expired h r p expired client => cases client <;> exact hC
      | dropped p => trivial
      | swept p clients => trivial
    exact hrest.congr fun q hq => hout q (by rintro rfl; exact hone hq)
  · exact fun q e he => hv.plain q e (hback q e he)
  · refine hv.ids_cons (Nat.le_refl _) ?_
    intro b hb
    rw [Event.client, Option.some.injEq] at hb
    exact hb ▸ (ho.births.live p c hc).1
  · intro q e k he hk
    dsimp only
    rw [retired_cons_quiet rfl]
    exact hv.keyed q e k (hback q e he) hk
  · exact hv.log.cons (by rintro _ _ ⟨⟩) (by rintro _ _ _ ⟨⟩)

/-- The end of a call: the client at `p` is returned to the caller. -/
theorem Story.return {s : State} (hv : Story s) (pool : ClientPool) (ho : Owned s) {i : Nat}
    {C : Caller} {p : Ptr} {c : RemoteClient} {h : HostInfo} (hi : s.callers[i]? = some C)
    (hp : p ∈ C.held) (hc : s.heap p = some c)
    (hwhy : Fresh i (history c.id s.log) ∨ Reused i c (history c.id s.log))
    (hidle : pool.idlePtrs = s.pool.idlePtrs)
    (hsince : pool.clientPoolIdleSince = s.pool.clientPoolIdleSince)
    (hkey : ∀ q k, pool.clientPoolKey q = some k →
      s.pool.clientPoolKey q = some k ∨ q = p ∧ ¬ Retired c.id s.log) :
    Story { s with
      pool := pool
      callers := s.callers.set i (.holding h p)
      log := .returned i c :: s.log } := by
  have hout : ∀ q, q ≠ p → SameAt s { s with
      pool := pool
      callers := s.callers.set i (.holding h p)
      log := .returned i c :: s.log } q := fun q hq => .of_event ho hc rfl rfl hq rfl
  constructor
  · refine hv.idle_congr (by simp [hidle]) (by simp [hsince]) (fun q hq => hout q ?_)
    rintro rfl
    exact ho.held_not_idle hi hp (hidle ▸ hq)
  · exact hv.callers_set rfl (fun j D hij hj q hq => hout q (ho.other_ne hi hp hij hj hq)) trivial
  · exact hv.plain
  · refine hv.ids_cons (Nat.le_refl _) ?_
    intro b hb
    rw [Event.client, Option.some.injEq] at hb
    exact hb ▸ (ho.births.live p c hc).1
  · intro q d k hd hk
    dsimp only at hd hk ⊢
    rw [retired_cons_quiet rfl]
    rcases hkey q k hk with hk | ⟨rfl, hr⟩
    · exact hv.keyed q d k hd hk
    · rw [hc, Option.some.injEq] at hd
      exact hd ▸ hr
  · refine hv.log.cons ?_ (by rintro _ _ _ ⟨⟩)
    rintro _ _ ⟨⟩
    exact hwhy

theorem story_create {s : State} (ho : Owned s) (hv : Story s) {i : Nat} {h : HostInfo}
    {r : Bool} {p : Ptr} {c : RemoteClient}
    (hp : s.heap p = none) (hid : c.id = s.born) (hplain : c.transfer = {}) :
    Story { s with
      heap := Function.update s.heap p (some c)
      callers := s.callers.set i (.connecting h r p)
      born := s.born + 1
      log := .created i c :: s.log } := by
  have hold : ∀ q d, s.heap q = some d → q ≠ p ∧ d.id ≠ c.id := by
    intro q d hd
    constructor
    · rintro rfl
      rw [hp] at hd
      cases hd
    · have := (ho.births.live q d hd).1
      omega
  have hout : ∀ q d, s.heap q = some d → SameAt s { s with
      heap := Function.update s.heap p (some c)
      callers := s.callers.set i (.connecting h r p)
      born := s.born + 1
      log := .created i c :: s.log } q := by
    intro q d hd
    obtain ⟨hq, -⟩ := hold q d hd
    refine ⟨Function.update_of_ne hq _ _, ?_, ?_⟩
    · intro e he
      exact history_cons_ne (by simpa [Event.client] using (hold q e he).2.symm) _
    · intro e _ hr
      exact (retired_cons_quiet rfl).mp hr
  -- no record is about the client that is being created
  have hnew : ¬ Retired c.id s.log := by
    rintro ⟨e, older, hs, hr⟩
    have hlt : ∀ f ∈ s.log, f.client ≠ some c.id := by
      intro f hf hcl
      have := hv.ids f hf _ hcl
      omega
    rcases hr with ⟨j, d, connected, pooled, now, rfl, hd⟩ | ⟨-, j, d, rest, hh⟩
    · exact hlt _ (hs.subset List.mem_cons_self) (by simp [Event.client, hd])
    · have hnone : history c.id older = [] := by
        rw [history, List.dropWhile_eq_nil_iff]
        intro f hf
        have := hlt f (hs.subset (List.mem_cons_of_mem _ hf))
        simpa using this
      rw [hnone] at hh
      rcases hh with ⟨now, hh⟩ | hh <;> cases hh
  constructor
  · refine hv.idle_congr (fun q hq => hq) (fun q _ => rfl) ?_
    intro q hq
    obtain ⟨d, hd⟩ := Option.isSome_iff_exists.mp (ho.idle_live hq)
    exact hout q d hd
  · refine hv.callers_set rfl ?_ ?_
    · intro j D _ hj q hq
      obtain ⟨d, hd⟩ := Option.isSome_iff_exists.mp (ho.held_live hj hq)
      exact hout q d hd
    · refine ⟨c, Function.update_self .., ⟨c, s.log, history_cons_self rfl _⟩, ?_⟩
      rwa [retired_cons_quiet rfl]
  · intro q d hd hf
    dsimp only at hd
    rw [Function.update_apply] at hd
    split at hd
    · rw [Option.some.injEq] at hd
      exact hd ▸ hplain
    · exact hv.plain q d hd hf
  · refine hv.ids_cons (Nat.le_succ _) ?_
    intro b hb
    rw [Event.client, Option.some.injEq] at hb
    exact hb ▸ hid ▸ Nat.lt_succ_self s.born
  · intro q d k hd hk
    dsimp only at hd hk ⊢
    rw [retired_cons_quiet rfl]
    rw [Function.update_apply] at hd
    split at hd
    · rename_i hq
      subst hq
      simpa [hp] using ho.keyLive q k hk
    · exact hv.keyed q d k hd hk
  · exact hv.log.cons (by rintro _ _ ⟨⟩) (by rintro _ _ _ ⟨⟩)

theorem resetTransferState_id (c : RemoteClient) : c.resetTransferState.id = c.id := by
  unfold RemoteClient.resetTransferState
  split <;> rfl

theorem resetTransferState_transfer {c : RemoteClient}
    (hc : c.cls ≠ .ftpClient → c.transfer = {}) : c.resetTransferState.transfer = {} := by
  unfold RemoteClient.resetTransferState
  split
  · rfl
  · exact hc ‹_›

theorem story_releasePooled {s : State} (ho : Owned s) (hv : Story s) {i : Nat} {p : Ptr}
    {c : RemoteClient} {key : Bytes} {now : Int} {success : Bool}
    (hi : s.callers[i]? = some (.releasing p success)) (hc : s.heap p = some c) :
    Story { s with
      pool := (s.pool.setIdle key
        (p :: (s.pool.clientPoolIdle.lookup key).getD [])).setIdleSince p (some now)
      heap := Function.update s.heap p (some c.resetTransferState)
      callers := s.callers.set i .outside
      log := .released i c.resetTransferState true true true now :: s.log } := by
  have hp : p ∈ (Caller.releasing p success).held := by simp [Caller.held]
  have hid := resetTransferState_id c
  -- nothing is said about any other client
  have hout : ∀ q, q ≠ p → SameAt s { s with
      pool := (s.pool.setIdle key
        (p :: (s.pool.clientPoolIdle.lookup key).getD [])).setIdleSince p (some now)
      heap := Function.update s.heap p (some c.resetTransferState)
      callers := s.callers.set i .outside
      log := .released i c.resetTransferState true true true now :: s.log } q := fun q hq =>
    .of_event ho hc (by simp [Event.client, hid]) rfl hq (Function.update_of_ne hq _ _)
  have hplain := resetTransferState_transfer (hv.plain p c hc)
  have hback : ∀ q d, Function.update s.heap p (some c.resetTransferState) q = some d →
      q = p ∧ d = c.resetTransferState ∨ s.heap q = some d := by
    intro q d hd
    rw [Function.update_apply] at hd
    split at hd
    · rw [Option.some.injEq] at hd
      exact .inl ⟨‹_›, hd.symm⟩
    · exact .inr hd
  constructor
  · intro q hq
    by_cases hqp : q = p
    · subst hqp
      refine ⟨_, now, Function.update_self .., ?_, hplain, i, s.log,
        history_cons_self rfl _⟩
      simp [ClientPool.setIdleSince_since]
    · have hcount := ClientPool.count_setIdle s.pool q key
        (p :: (s.pool.clientPoolIdle.lookup key).getD [])
      have hpos : 0 < (s.pool.setIdle key
          (p :: (s.pool.clientPoolIdle.lookup key).getD [])).idlePtrs.count q :=
        List.count_pos_iff.mpr hq
      have hne : (p == q) = false := by simp [Ne.symm hqp]
      rw [List.count_cons, hne, if_neg Bool.false_ne_true] at hcount
      obtain ⟨d, t, hd, ht, hr⟩ := hv.idle q (List.count_pos_iff.mp (by omega))
      have hs := hout q hqp
      refine ⟨d, t, by rw [hs.heap, hd], ?_, by rw [hs.history d hd]; exact hr⟩
      simp only [ClientPool.setIdleSince_since, hqp, if_false, ClientPool.setIdle_since, ht]
  · exact hv.callers_set rfl (fun j D hij hj q hq => hout q (ho.other_ne hi hp hij hj hq)) trivial
  · intro q d hd hf
    rcases hback q d hd with ⟨-, rfl⟩ | hd
    · exact hplain
    · exact hv.plain q d hd hf
  · refine hv.ids_cons (Nat.le_refl _) ?_
    intro b hb
    rw [Event.client, Option.some.injEq, hid] at hb
    exact hb ▸ (ho.births.live p c hc).1
  · intro q d k hd hk
    dsimp only at hd hk ⊢
    rw [retired_cons_quiet rfl]
    rcases hback q d hd with ⟨rfl, rfl⟩ | hd
    · rw [hid]
      exact hv.keyed q c k hc hk
    · exact hv.keyed q d k hd hk
  · exact hv.log.cons (by rintro _ _ ⟨⟩) (by rintro _ _ _ ⟨⟩)

theorem story_releaseDropped {s : State} (ho : Owned s) (hv : Story s) {i : Nat} {p : Ptr}
    {c : RemoteClient} {success connected : Bool} {now : Int}
    (hi : s.callers[i]? = some (.releasing p success)) (hc : s.heap p = some c) :
    Story { s with
      pool := s.pool.setKey p none
      callers := s.callers.set i (.dropping p)
      log := .released i c success connected false now :: s.log } := by
  have hp : p ∈ (Caller.releasing p success).held := by simp [Caller.held]
  have hout : ∀ q, q ≠ p → SameAt s { s with
      pool := s.pool.setKey p none
      callers := s.callers.set i (.dropping p)
      log := .released i c success connected false now :: s.log } q := fun q hq =>
    .of_event ho hc rfl rfl hq rfl
  constructor
  · refine hv.idle_congr (fun q hq => hq) (fun q _ => rfl) (fun q hq => hout q ?_)
    rintro rfl
    exact ho.held_not_idle hi hp hq
  · exact hv.callers_set rfl (fun j D hij hj q hq => hout q (ho.other_ne hi hp hij hj hq)) trivial
  · exact hv.plain
  · refine hv.ids_cons (Nat.le_refl _) ?_
    intro b hb
    rw [Event.client, Option.some.injEq] at hb
    exact hb ▸ (ho.births.live p c hc).1
  · intro q d k hd hk
    have hqp : q ≠ p := by
      rintro rfl
      simp [ClientPool.setKey_key] at hk
    rw [ClientPool.setKey_key, if_neg hqp] at hk
    exact mt ((hout q hqp).retired d hd) (hv.keyed q d k hd hk)
  · exact hv.log.cons (by rintro _ _ ⟨⟩) (by rintro _ _ _ ⟨⟩)

theorem story_enterClear {s : State} (hv : Story s) {i : Nat} :
    Story { s with
      pool := .empty
      callers := s.callers.set i (.sweeping s.pool.idlePtrs)
      log := .cleared i :: s.log } := by
  have hhist : ∀ b, history b (.cleared i :: s.log) = history b s.log :=
    fun b => history_cons_ne (by simp [Event.client]) _
  -- a client that is still being connected is not checked out
  have hfresh : ∀ j b, Fresh j (history b s.log) → ¬ Retired b s.log →
      ¬ Retired b (.cleared i :: s.log) := by
    rintro j b ⟨c, older, hf⟩ hr hret
    rcases retired_cons.mp hret with hret | hret
    · rcases hret with ⟨_, _, _, _, _, he, -⟩ | ⟨-, k, d, rest, hh⟩
      · cases he
      · rw [hf] at hh
        rcases hh with ⟨now, hh⟩ | hh <;> cases hh
    · exact hr hret
  constructor
  · intro q hq
    simp at hq
  · intro j D hj
    rw [List.getElem?_set] at hj
    have hD : D = .sweeping s.pool.idlePtrs ∨ s.callers[j]? = some D := by
      split at hj
      · split at hj
        · rw [Option.some.injEq] at hj
          exact .inl hj.symm
        · cases hj
      · exact .inr hj
    rcases hD with rfl | hj
    · trivial
    · have hC := hv.callers j D hj
      unfold CallerStory at hC ⊢
      dsimp only
      split at hC
      · simpa only [hhist] using hC
      · obtain ⟨c, hc, hf, hr⟩ := hC
        exact ⟨c, hc, by rwa [hhist], hfresh j c.id hf hr⟩
      · obtain ⟨c, hc, hf, hr⟩ := hC
        exact ⟨c, hc, by rwa [hhist], hfresh j c.id hf hr⟩
      · trivial
  · exact hv.plain
  · exact hv.ids_cons (Nat.le_refl _) (by simp [Event.client])
  · intro q d k hd hk
    cases hk
  · exact hv.log.cons (by rintro _ _ ⟨⟩) (by rintro _ _ _ ⟨⟩)

variable {E : Env}

theorem story_step {s s' : State} {i : Nat} {C : Caller} {a : Action} (ho : Owned s)
    (hv : Story s) (hi : s.callers[i]? = some C) (st : Step E s i C a s') : Story s' := by
  have hsame : ∀ (q : Ptr) (d : RemoteClient), s.heap q = some d → ∃ c, s.heap q = some c ∧
      c.id = d.id ∧ (d.cls ≠ .ftpClient → c.cls ≠ .ftpClient ∧ d.transfer = c.transfer) :=
    fun q d hd => ⟨d, hd, rfl, fun hf => ⟨hf, rfl⟩⟩
  -- a client changed in place by its holder stays the same client
  have hedit : ∀ (p : Ptr) (c d : RemoteClient), s.heap p = some c → c.id = d.id →
      (d.cls ≠ .ftpClient → c.cls ≠ .ftpClient ∧ d.transfer = c.transfer) →
      ∀ q e, Function.update s.heap p (some d) q = some e → ∃ c, s.heap q = some c ∧
        c.id = e.id ∧ (e.cls ≠ .ftpClient → c.cls ≠ .ftpClient ∧ e.transfer = c.transfer) := by
    intro p c d hc hid hcls q e he
    rw [Function.update_apply] at he
    split at he
    · rename_i hq
      rw [Option.some.injEq] at he
      exact ⟨c, hq ▸ hc, he ▸ hid, he ▸ hcls⟩
    · exact hsame q e he
  have hC := hv.callers i C hi
  cases st with
  | move m =>
    refine hv.silent ho hi rfl rfl rfl rfl (fun _ _ => rfl) hsame ?_
    cases m <;> trivial
  | enterAcquire h clock t spec => exact story_enterAcquire ho hv spec
  | destroy d hc => exact story_destroy ho hv hi d hc
  | finish h r p =>
    obtain ⟨c, hc, hr⟩ := hC
    simpa [State.note, State.setCaller, hc] using
      hv.return s.pool ho (h := h) hi (by simp [Caller.held]) hc (.inr hr) rfl rfl
        (fun q k hk => .inl hk)
  | create h r p cls hn hp => exact story_create ho hv hp rfl rfl
  | throw h r p ht =>
    exact hv.silent ho hi rfl rfl rfl rfl (fun _ _ => rfl) hsame trivial
  | connect h p c hc ht =>
    obtain ⟨d, hd, hf, hr⟩ := hC
    rw [hc, Option.some.injEq] at hd
    subst hd
    refine hv.silent ho hi rfl rfl rfl rfl ?_ (hedit p c _ hc rfl fun h => ⟨h, rfl⟩) ?_
    · intro q hq
      refine Function.update_of_ne ?_ _ _
      rintro rfl
      simp [Caller.held] at hq
    · exact ⟨_, Function.update_self .., hf, hr⟩
  | connectAlone h p c hc ht =>
    obtain ⟨d, hd, hf, hr⟩ := hC
    rw [hc, Option.some.injEq] at hd
    subst hd
    have hset : Story (s.setClient p { c with urlEncode := pathEncoding h }) := by
      refine hv.silent ho hi (callers_set_self hi).symm rfl rfl rfl ?_
        (hedit p c _ hc rfl fun h => ⟨h, rfl⟩) ⟨_, Function.update_self .., hf, hr⟩
      intro q hq
      refine Function.update_of_ne ?_ _ _
      rintro rfl
      simp [Caller.held] at hq
    simpa [State.note, State.setCaller, State.setClient] using
      hset.return s.pool (ho.replace hc rfl) (h := h) hi (by simp [Caller.held])
        (Function.update_self ..) (.inl hf) rfl rfl (fun q k hk => .inl hk)
  | register h p =>
    obtain ⟨c, hc, hf, hr⟩ := hC
    simpa [State.note, State.setCaller, hc] using
      hv.return (s.pool.setKey p (some (clientPoolKey h))) ho (h := h) hi
        (by simp [Caller.held]) hc (.inl hf) rfl rfl (by
          intro q k hk
          rw [ClientPool.setKey_key] at hk
          split at hk
          · exact .inr ⟨‹_›, hr⟩
          · exact .inl hk)
  | setCallback h p c t hc hf =>
    refine hv.silent ho hi (callers_set_self hi).symm rfl rfl rfl ?_
      (hedit p c _ hc rfl fun hn => absurd hf hn) trivial
    intro q hq
    refine Function.update_of_ne ?_ _ _
    rintro rfl
    simp [Caller.held] at hq
  | releasePooled p c key now hc hk hroom => exact story_releasePooled ho hv hi hc
  | releaseDropped p c success connected now hc => exact story_releaseDropped ho hv hi hc
  | enterClear => exact story_enterClear hv

theorem story_initial (n : Nat) : Story (initial n) := by
  constructor
  · intro p hp
    simp [initial] at hp
  · intro i C hi
    have hC : C = .outside := List.eq_of_mem_replicate (List.mem_of_getElem? hi)
    rw [hC]
    trivial
  · intro p c hc
    cases hc
  · intro e he
    cases he
  · intro p c k hc
    cases hc
  · constructor
    · intro i c older hs
      cases List.eq_nil_of_suffix_nil hs
    · intro i c now older hs
      cases List.eq_nil_of_suffix_nil hs

/-- Reuse discipline of the pool, in every run of any number of callers. -/
theorem reuse_discipline {s : State} (h : Reachable E Transition.anyStep s) :
    ReuseDiscipline s.log := by
  suffices hs : Owned s ∧ Story s from hs.2.log
  refine @Transition.Reachable.invariant _ _ _ _ _ (fun s => Owned s ∧ Story s) s h ?_ ?_
  · rintro _ ⟨n, rfl⟩
    exact ⟨owned_initial n, story_initial n⟩
  · intro s a t ⟨ho, hv⟩ _ hs
    obtain ⟨C, hC, st⟩ := step_caller hs
    exact ⟨owned_step ho hC st, story_step ho hv hC st⟩

/-- A client released at 100 and handed to the second caller at 160. -/
theorem reuse_discipline_handedOut : ∃ s, Reachable quietEnv Transition.anyStep s ∧
    s.log.take 2 = [.returned 1 { id := 0, cls := .smbClient, host := smbHost },
      .handedOut 1 { id := 0, cls := .smbClient, host := smbHost } (some 160)] ∧
    ReuseDiscipline s.log := by
  obtain ⟨s, hs, ho⟩ := exists_reachable quietEnv Transition.anyStep 2
    [(0, .acquire smbHost true), (0, .enterAcquire []), (0, .create 7), (0, .connect),
      (0, .register), (0, .release true), (0, .enterRelease true 100),
      (1, .acquire smbHost true), (1, .enterAcquire [160]), (1, .finish)]
    (fun s => s.log.take 2) _ rfl
  exact ⟨s, hs, ho, reuse_discipline hs⟩

end EzRemote.Pool

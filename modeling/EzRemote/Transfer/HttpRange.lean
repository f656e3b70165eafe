import EzRemote.Transfer.Http
import EzRemote.Transfer.Range

/-!
# BaseClient::GetRange

An HTTP range for `/bg_install`.  The content receiver hands every piece of the
body to the sink before anything is known of its length, and the status of the
response does not matter.
-/

namespace EzRemote.Transfer

/-- The request of `GetRange`. -/
def BaseClient.getRangeRequest (client : BaseClient) (path : Bytes) (size offset : UInt64) :
    HttpRequest :=
  { path := client.getFullPath path
    headers := client.setCookies [(bytes "Range", bytes "bytes=" ++ toDecimal offset.toNat ++
      bytes "-" ++ toDecimal (offset + size - 1).toNat)] }

/-- What the content receiver has seen: its count, the pieces that it passed to
the sink, and whether the sink took them all. -/
structure Received where
  bytesRead : UInt64
  passed : List Bytes
  accepted : Bool
  deriving DecidableEq, Repr

/-- The content receiver; `sink.write` number `k` accepts if `sink k`. -/
def receiveRange (sink : Nat → Bool) : Nat → UInt64 → List Bytes → Received
  | _, bytesRead, [] => ⟨bytesRead, [], true⟩
  | k, bytesRead, data :: body =>
    let bytesRead := bytesRead + UInt64.ofNat data.length
    if sink k then
      let rest := receiveRange sink (k + 1) bytesRead body
      { rest with passed := data :: rest.passed }
    else ⟨bytesRead, [data], false⟩

/-- `BaseClient::GetRange`: its result and what it passed to the sink.  A sink
that refuses cancels the request. -/
def BaseClient.getRange (client : BaseClient) (send : HttpRequest → HttpReply) (sink : Nat → Bool)
    (path : Bytes) (size offset : UInt64) : Int × List Bytes :=
  let reply := send (client.getRangeRequest path size offset)
  let received := receiveRange sink 0 0 reply.body
  (if reply.complete ∧ received.accepted ∧ received.bytesRead = size then 1 else 0, received.passed)

/-- All of these pieces are accepted, from write `k` on. -/
def Accepts (sink : Nat → Bool) (k : Nat) (pieces : List Bytes) : Prop :=
  ∀ i < pieces.length, sink (k + i) = true

theorem accepts_cons {sink : Nat → Bool} {k : Nat} {data : Bytes} {body : List Bytes} :
    Accepts sink k (data :: body) ↔ sink k = true ∧ Accepts sink (k + 1) body := by
  constructor
  · intro h
    refine ⟨h 0 (Nat.zero_lt_succ _), ?_⟩
    intro i hi
    rw [Nat.add_assoc, Nat.add_comm 1]
    exact h (i + 1) (Nat.succ_lt_succ hi)
  · rintro ⟨hk, h⟩ i hi
    cases i with
    | zero => exact hk
    | succ i =>
      rw [Nat.add_comm i 1, ← Nat.add_assoc]
      exact h i (Nat.lt_of_succ_lt_succ hi)

theorem receiveRange_accepted (sink : Nat → Bool) (k : Nat) (bytesRead : UInt64)
    (body : List Bytes) :
    (receiveRange sink k bytesRead body).accepted = true ↔ Accepts sink k body := by
  induction body generalizing k bytesRead with
  | nil => exact iff_of_true rfl fun i hi => absurd hi (Nat.not_lt_zero i)
  | cons data body ih =>
    rw [accepts_cons, receiveRange]
    by_cases hk : sink k = true
    · rw [if_pos hk]
      exact (ih _ _).trans (and_iff_right hk).symm
    · rw [if_neg hk]
      exact iff_of_false Bool.false_ne_true fun h => hk h.1

theorem receiveRange_passed {sink : Nat → Bool} {k : Nat} (bytesRead : UInt64) {body : List Bytes}
    (h : Accepts sink k body) : (receiveRange sink k bytesRead body).passed = body := by
  induction body generalizing k bytesRead with
  | nil => rfl
  | cons data body ih =>
    obtain ⟨hk, h⟩ := accepts_cons.mp h
    rw [receiveRange, if_pos hk]
    exact congrArg (data :: ·) (ih _ h)

theorem receiveRange_bytesRead (sink : Nat → Bool) (k : Nat) (bytesRead : UInt64)
    (body : List Bytes) :
    (receiveRange sink k bytesRead body).bytesRead =
      bytesRead + UInt64.ofNat (receiveRange sink k bytesRead body).passed.flatten.length := by
  induction body generalizing k bytesRead with
  | nil => exact (UInt64.add_zero _).symm
  | cons data body ih =>
    rw [receiveRange]
    by_cases hk : sink k = true
    · rw [if_pos hk]
      dsimp only
      rw [ih, List.flatten_cons, List.length_append, UInt64.ofNat_add, UInt64.add_assoc]
    · rw [if_neg hk]
      dsimp only
      rw [List.flatten_singleton]

/-- More than `size` bytes come before the sink refuses any. -/
def Overlong (sink : Nat → Bool) (k size : Nat) (body : List Bytes) : Prop :=
  ∃ before piece behind, body = before ++ piece :: behind ∧ Accepts sink k before ∧
    size < (before ++ [piece]).flatten.length

theorem not_overlong_nil (sink : Nat → Bool) (k size : Nat) : ¬ Overlong sink k size [] := by
  rintro ⟨before, piece, behind, heq, -⟩
  cases before <;> cases heq

theorem overlong_cons {sink : Nat → Bool} {k size : Nat} {data : Bytes} {body : List Bytes} :
    Overlong sink k size (data :: body) ↔ size < data.length ∨
      sink k = true ∧ Overlong sink (k + 1) (size - data.length) body := by
  constructor
  · rintro ⟨before, piece, behind, heq, haccepts, hlen⟩
    cases before with
    | nil =>
      cases heq
      rw [List.nil_append, List.flatten_singleton] at hlen
      exact .inl hlen
    | cons first before =>
      cases heq
      obtain ⟨hk, haccepts⟩ := accepts_cons.mp haccepts
      rw [List.cons_append, List.flatten_cons, List.length_append] at hlen
      by_cases hdata : size < data.length
      · exact .inl hdata
      · exact .inr ⟨hk, before, piece, behind, rfl, haccepts, by omega⟩
  · rintro (hlen | ⟨hk, before, piece, behind, rfl, haccepts, hlen⟩)
    · refine ⟨[], data, body, rfl, fun i hi => absurd hi (Nat.not_lt_zero i), ?_⟩
      rwa [List.nil_append, List.flatten_singleton]
    · refine ⟨data :: before, piece, behind, rfl, accepts_cons.mpr ⟨hk, haccepts⟩, ?_⟩
      rw [List.cons_append, List.flatten_cons, List.length_append]
      omega

theorem lt_passed_iff (sink : Nat → Bool) (k size : Nat) (bytesRead : UInt64) (body : List Bytes) :
    size < (receiveRange sink k bytesRead body).passed.flatten.length ↔
      Overlong sink k size body := by
  -- induction on the body
  induction body generalizing k size bytesRead with
  | nil => exact iff_of_false (Nat.not_lt_zero _) (not_overlong_nil sink k size)
  | cons data body ih =>
    rw [overlong_cons, receiveRange]
    by_cases hk : sink k = true
    · rw [if_pos hk, ← ih (k + 1) (size - data.length) (bytesRead + UInt64.ofNat data.length)]
      dsimp only
      rw [List.flatten_cons, List.length_append]
      simp only [hk, true_and]
      omega
    · rw [if_neg hk]
      dsimp only
      rw [List.flatten_singleton]
      exact (or_iff_left fun h => hk h.1).symm

/-- At most the range reaches the sink, and all of it where the result is 1. -/
structure RangeExact (R : Bytes) (size offset : Nat) (run : Int × List Bytes) : Prop where
  bounded : run.2.flatten.length ≤ size
  exact : run.1 = 1 → run.2.flatten = slice R offset size

/-- A body of the length of the range that is not the range. -/
structure WrongBody (R : Bytes) (sink : Nat → Bool) (size offset : Nat) (reply : HttpReply) :
    Prop where
  complete : reply.complete = true
  accepted : Accepts sink 0 reply.body
  length : reply.body.flatten.length = size
  wrong : reply.body.flatten ≠ slice R offset size

section GetRange

variable (client : BaseClient) (send : HttpRequest → HttpReply) (sink : Nat → Bool) (path : Bytes)
  (size offset : UInt64)

theorem getRange_overlong_iff :
    size.toNat < (client.getRange send sink path size offset).2.flatten.length ↔
      Overlong sink 0 size.toNat (send (client.getRangeRequest path size offset)).body :=
  lt_passed_iff sink 0 size.toNat 0 _

theorem getRange_one_iff : (client.getRange send sink path size offset).1 = 1 ↔
    (send (client.getRangeRequest path size offset)).complete = true ∧
      Accepts sink 0 (send (client.getRangeRequest path size offset)).body ∧
      UInt64.ofNat (send (client.getRangeRequest path size offset)).body.flatten.length = size := by
  have hret : (client.getRange send sink path size offset).1 = 1 ↔
      (send (client.getRangeRequest path size offset)).complete = true ∧
        (receiveRange sink 0 0 (send (client.getRangeRequest path size offset)).body).accepted = true ∧
        (receiveRange sink 0 0 (send (client.getRangeRequest path size offset)).body).bytesRead =
          size := by
    unfold BaseClient.getRange
    dsimp only
    split
    · rename_i hc
      exact iff_of_true rfl hc
    · rename_i hc
      exact iff_of_false (by decide) hc
  rw [hret, receiveRange_accepted, receiveRange_bytesRead, UInt64.zero_add]
  constructor
  · rintro ⟨hcomplete, haccepts, hlen⟩
    rw [receiveRange_passed 0 haccepts] at hlen
    exact ⟨hcomplete, haccepts, hlen⟩
  · rintro ⟨hcomplete, haccepts, hlen⟩
    rw [receiveRange_passed 0 haccepts]
    exact ⟨hcomplete, haccepts, hlen⟩

theorem rangeExact_of_fits {R : Bytes}
    (hlong : ¬ Overlong sink 0 size.toNat (send (client.getRangeRequest path size offset)).body)
    (hwrong : ¬ WrongBody R sink size.toNat offset.toNat
      (send (client.getRangeRequest path size offset))) :
    RangeExact R size.toNat offset.toNat (client.getRange send sink path size offset) := by
  have hpassed : ∀ {body : List Bytes}, Accepts sink 0 body →
      (receiveRange sink 0 0 body).passed = body := receiveRange_passed 0
  rw [← getRange_overlong_iff client send sink path size offset, Nat.not_lt] at hlong
  refine ⟨hlong, ?_⟩
  intro hone
  obtain ⟨hcomplete, haccepted, hlen⟩ :=
    (getRange_one_iff client send sink path size offset).mp hone
  have hbody : (client.getRange send sink path size offset).2.flatten =
      (send (client.getRangeRequest path size offset)).body.flatten :=
    congrArg List.flatten (hpassed haccepted)
  rw [hbody] at hlong ⊢
  by_contra hne
  have hcount := congrArg UInt64.toNat hlen
  rw [UInt64.toNat_ofNat_of_lt' (Nat.lt_of_le_of_lt hlong size.toNat_lt)] at hcount
  exact hwrong ⟨hcomplete, haccepted, hcount, hne⟩

/-- Whatever the status, a range is exact unless the body is too long, or is as
long as the range and something else. -/
theorem http_range_exact_iff (R : Bytes) :
    RangeExact R size.toNat offset.toNat (client.getRange send sink path size offset) ↔
      ¬ Overlong sink 0 size.toNat (send (client.getRangeRequest path size offset)).body ∧
      ¬ WrongBody R sink size.toNat offset.toNat
        (send (client.getRangeRequest path size offset)) := by
  have hpassed : ∀ {body : List Bytes}, Accepts sink 0 body →
      (receiveRange sink 0 0 body).passed = body := receiveRange_passed 0
  constructor
  · rintro ⟨hbounded, hexact⟩
    constructor
    · intro hlong
      exact absurd ((getRange_overlong_iff client send sink path size offset).mpr hlong) (by omega)
    · rintro ⟨hcomplete, haccepted, hlen, hwrong⟩
      apply hwrong
      have hone : (client.getRange send sink path size offset).1 = 1 :=
        (getRange_one_iff client send sink path size offset).mpr
          ⟨hcomplete, haccepted, by rw [hlen, UInt64.ofNat_toNat]⟩
      rw [← hexact hone]
      exact congrArg List.flatten (hpassed haccepted).symm
  · rintro ⟨hlong, hwrong⟩
    exact rangeExact_of_fits client send sink path size offset hlong hwrong

end GetRange

/-- A server that honours the range, also one that breaks off. -/
theorem getRange_exact_of_honoured (client : BaseClient) {send : HttpRequest → HttpReply}
    (sink : Nat → Bool) {path R : Bytes} {size offset : UInt64}
    (h : (send (client.getRangeRequest path size offset)).body.flatten <+:
      slice R offset.toNat size.toNat) :
    RangeExact R size.toNat offset.toNat (client.getRange send sink path size offset) := by
  have hslice : (slice R offset.toNat size.toNat).length ≤ size.toNat := List.length_take_le _ _
  apply rangeExact_of_fits
  · rintro ⟨before, piece, behind, heq, -, hlen⟩
    rw [heq, List.append_cons, List.flatten_append] at h
    have := h.length_le
    rw [List.length_append] at this
    omega
  · rintro ⟨-, -, hlen, hwrong⟩
    exact hwrong (h.eq_of_length_le (by omega))

/-- One byte of `abc`: the whole file of a server that ignores the range, and an
error page of one byte. -/
theorem getRange_inexact :
    ¬ RangeExact (bytes "abc") 1 1 (plainClient.getRange (fun _ => ⟨200, [bytes "abc"], true⟩)
      (fun _ => true) (bytes "x") 1 1) ∧
    ¬ RangeExact (bytes "abc") 1 1 (plainClient.getRange (fun _ => ⟨404, [bytes "?"], true⟩)
      (fun _ => true) (bytes "x") 1 1) := by
  constructor
  · rintro ⟨hbounded, -⟩
    exact absurd hbounded (by decide)
  · rintro ⟨-, hexact⟩
    exact absurd (hexact (by decide)) (by decide)

end EzRemote.Transfer

import EzRemote.Lib.Buffer
import EzRemote.Lib.Json
import EzRemote.Util

/-!
# Escaping a notification

`Util::append_json_escaped`: the loop over the message with its checks for room,
and which part of a message it writes.
-/

namespace EzRemote.Notify

/-- The `switch` of the loop: what is written for a byte. -/
def escape (b : UInt8) : Bytes :=
  if b = 92 then [92, 92]
  else if b = 34 then [92, 34]
  else if b = 10 then [92, 110]
  else if b = 13 then [92, 114]
  else if b = 9 then [92, 116]
  else [b]

/-- The loop over `src`, the memory behind the pointer; `none` is an access outside of
an array. -/
def escapeLoop (dst : Bytes) (used : Nat) : Bytes → Option Bytes
  | [] => none
  | b :: src =>
    if b ≠ 0 ∧ used + 1 < dst.length then
      if dst.length ≤ used + (escape b).length then some dst
      else
        (Buffer.write dst used (escape b)).bind fun dst =>
          (Buffer.write dst (used + (escape b).length) [0]).bind fun dst =>
            escapeLoop dst (used + (escape b).length) src
    else some dst

def appendJsonEscaped (dst src : Bytes) : Option Bytes :=
  if 0 ∈ dst then
    let used := (cStr dst).length
    if dst.length ≤ used then some dst else escapeLoop dst used src
  else none

/-- The escaped form of a message. -/
def escaped (message : Bytes) : Bytes := message.flatMap escape

/-- The part of the message whose escaped form is shorter than `room`. -/
def fitting (room : Nat) : Bytes → Bytes
  | [] => []
  | b :: message =>
    if (escape b).length < room then b :: fitting (room - (escape b).length) message else []

@[simp] theorem escaped_nil : escaped [] = [] := rfl

@[simp] theorem escaped_cons (b : UInt8) (message : Bytes) :
    escaped (b :: message) = escape b ++ escaped message := List.flatMap_cons

theorem escape_cases (b : UInt8) :
    (∃ c, (c, b) ∈ Json.escapes ∧ escape b = [92, c]) ∨
      escape b = [b] ∧ b ≠ 92 ∧ b ≠ 34 ∧ b ≠ 10 ∧ b ≠ 13 ∧ b ≠ 9 := by
  unfold escape
  by_cases hbackslash : b = 92
  · subst hbackslash
    exact .inl ⟨92, by decide, rfl⟩
  by_cases hquote : b = 34
  · subst hquote
    exact .inl ⟨34, by decide, rfl⟩
  by_cases hnewline : b = 10
  · subst hnewline
    exact .inl ⟨110, by decide, rfl⟩
  by_cases hreturn : b = 13
  · subst hreturn
    exact .inl ⟨114, by decide, rfl⟩
  by_cases htab : b = 9
  · subst htab
    exact .inl ⟨116, by decide, rfl⟩
  rw [if_neg hbackslash, if_neg hquote, if_neg hnewline, if_neg hreturn, if_neg htab]
  exact .inr ⟨rfl, hbackslash, hquote, hnewline, hreturn, htab⟩

theorem length_escape_pos (b : UInt8) : 0 < (escape b).length := by
  obtain ⟨c, -, h⟩ | ⟨h, -⟩ := escape_cases b
  · rw [h]
    exact Nat.zero_lt_two
  · rw [h]
    exact Nat.zero_lt_one

theorem zero_notMem_escape {b : UInt8} (hb : b ≠ 0) : 0 ∉ escape b := by
  obtain ⟨c, hc, h⟩ | ⟨h, -⟩ := escape_cases b
  · have hc0 : (0 : UInt8) ≠ c := by
      rintro rfl
      exact absurd (Json.escapes_ge hc) (by decide)
    rw [h]
    simp [hc0]
  · rw [h, List.mem_singleton]
    exact hb.symm

theorem fitting_isPrefixOf (room : Nat) (message : Bytes) : fitting room message <+: message := by
  induction message generalizing room with
  | nil => exact List.prefix_refl []
  | cons b message ih =>
    unfold fitting
    by_cases h : (escape b).length < room
    · rw [if_pos h, List.prefix_cons_inj]
      exact ih _
    · rw [if_neg h]
      exact List.nil_prefix

theorem fitting_eq_self {room : Nat} {message : Bytes} (h : (escaped message).length < room) :
    fitting room message = message := by
  induction message generalizing room with
  | nil => rfl
  | cons b message ih =>
    rw [escaped_cons, List.length_append] at h
    unfold fitting
    rw [if_pos (by omega), ih (by omega)]

theorem forall_mem_fitting {room : Nat} {message : Bytes} {P : UInt8 → Prop} :
    (∀ b ∈ fitting room message, P b) ↔
      ∀ (i : Nat) (h : i < message.length),
        (escaped (message.take (i + 1))).length < room → P message[i] := by
  induction message generalizing room with
  | nil => exact iff_of_true (List.forall_mem_nil _) fun i h => absurd h (Nat.not_lt_zero i)
  | cons b message ih =>
    unfold fitting
    by_cases hroom : (escape b).length < room
    · rw [if_pos hroom, List.forall_mem_cons, ih]
      constructor
      · rintro ⟨hb, hrest⟩ i hi hfits
        cases i with
        | zero => exact hb
        | succ i =>
          rw [List.take_succ_cons, escaped_cons, List.length_append] at hfits
          exact hrest i (Nat.lt_of_succ_lt_succ hi) (by omega)
      · intro h
        refine ⟨h 0 (Nat.zero_lt_succ _) (by simpa using hroom), fun i hi hfits => ?_⟩
        refine h (i + 1) (Nat.succ_lt_succ hi) ?_
        rw [List.take_succ_cons, escaped_cons, List.length_append]
        omega
    · rw [if_neg hroom]
      refine iff_of_true (List.forall_mem_nil _) fun i hi hfits => ?_
      rw [List.take_succ_cons, escaped_cons, List.length_append] at hfits
      omega

theorem cStr_of_prefix {text buf : Bytes} (h : text ++ [0] <+: buf) (htext : 0 ∉ text) :
    cStr buf = text := by
  obtain ⟨rest, rfl⟩ := h
  unfold cStr
  rw [List.append_assoc, List.takeWhile_append_of_pos fun b hb => by
    simpa using fun h : b = 0 => htext (h ▸ hb)]
  simp

theorem write_escape {dst text : Bytes} {b : UInt8} (hdst : text ++ [0] <+: dst)
    (hroom : text.length + (escape b).length < dst.length) :
    ∃ dst', (Buffer.write dst text.length (escape b)).bind
        (fun dst => Buffer.write dst (text.length + (escape b).length) [0]) = some dst' ∧
      dst'.length = dst.length ∧ text ++ escape b ++ [0] <+: dst' := by
  obtain ⟨rest, rfl⟩ := hdst
  rw [← Buffer.write_append]
  have hle : text.length + (escape b ++ [0]).length ≤ (text ++ [0] ++ rest).length := by
    rw [List.length_append, List.length_singleton]
    omega
  refine ⟨_, Buffer.write_of_le hle, Buffer.length_write (Buffer.write_of_le hle), ?_⟩
  rw [List.append_assoc text [0] rest, List.take_left, ← List.append_assoc text]
  exact List.prefix_append _ _

/-- The loop ends with the escaped form of what fits behind `text`. -/
theorem escapeLoop_spec {message dst text : Bytes} (hmessage : 0 ∉ message)
    (hdst : text ++ [0] <+: dst) :
    ∃ out, escapeLoop dst text.length (message ++ [0]) = some out ∧ out.length = dst.length ∧
      text ++ escaped (fitting (dst.length - text.length) message) ++ [0] <+: out := by
  induction message generalizing dst text with
  | nil =>
    refine ⟨dst, ?_, rfl, by simpa [fitting] using hdst⟩
    rw [List.nil_append, escapeLoop, if_neg fun h => h.1 rfl]
  | cons b message ih =>
    obtain ⟨hb, hrest⟩ := not_or.mp (mt List.mem_cons.mpr hmessage)
    have hpos := length_escape_pos b
    by_cases hroom : text.length + (escape b).length < dst.length
    · obtain ⟨dst', hwrite, hlen, hdst'⟩ := write_escape hdst hroom
      have hused : (text ++ escape b).length = text.length + (escape b).length :=
        List.length_append
      obtain ⟨out, hout, houtlen, hprefix⟩ := ih hrest hdst'
      refine ⟨out, ?_, houtlen.trans hlen, ?_⟩
      · rw [List.cons_append, escapeLoop, if_pos ⟨fun h => hb h.symm, by omega⟩,
          if_neg (by omega), ← Option.bind_assoc, hwrite, Option.bind_some, ← hused]
        exact hout
      · have hstep : escaped (fitting (dst.length - text.length) (b :: message)) =
            escape b ++ escaped (fitting (dst'.length - (text ++ escape b).length) message) := by
          rw [fitting, if_pos (by omega), escaped_cons, hlen, hused, Nat.sub_sub]
        rw [hstep, ← List.append_assoc text]
        exact hprefix
    · -- no room for the escape: the loop ends before or in this pass
      refine ⟨dst, ?_, rfl, ?_⟩
      · rw [List.cons_append, escapeLoop]
        by_cases hguard : b ≠ 0 ∧ text.length + 1 < dst.length
        · rw [if_pos hguard, if_pos (by omega)]
        · rw [if_neg hguard]
      · have hnone : fitting (dst.length - text.length) (b :: message) = [] := by
          rw [fitting, if_neg (by omega)]
        rw [hnone, escaped_nil, List.append_nil]
        exact hdst

theorem zero_notMem_escaped {message : Bytes} (h : 0 ∉ message) : 0 ∉ escaped message := by
  intro h0
  obtain ⟨b, hb, hin⟩ := List.mem_flatMap.mp h0
  exact zero_notMem_escape (fun hzero => h (hzero ▸ hb)) hin

/-- What the call leaves in an array that holds the empty string. -/
theorem appendJsonEscaped_spec {dst message : Bytes} (hdst : dst.head? = some 0)
    (hmessage : 0 ∉ message) :
    ∃ out, appendJsonEscaped dst (message ++ [0]) = some out ∧ out.length = dst.length ∧
      0 ∈ out ∧ cStr out = escaped (fitting dst.length message) := by
  obtain ⟨rest, rfl⟩ : ∃ rest, dst = 0 :: rest := by
    cases dst with
    | nil => cases hdst
    | cons b rest => exact ⟨rest, by rw [Option.some.inj hdst]⟩
  have hstart : [] ++ [0] <+: (0 : UInt8) :: rest := List.prefix_append [0] rest
  have hempty : cStr (0 :: rest) = [] := rfl
  obtain ⟨out, hout, hlen, hprefix⟩ := escapeLoop_spec hmessage hstart
  rw [List.length_nil, Nat.sub_zero, List.nil_append] at hprefix
  refine ⟨out, ?_, hlen, ?_, ?_⟩
  · unfold appendJsonEscaped
    rw [if_pos List.mem_cons_self, hempty]
    dsimp only
    rw [if_neg (by simp)]
    exact hout
  · exact hprefix.subset (by simp)
  · refine cStr_of_prefix hprefix (zero_notMem_escaped fun h => hmessage ?_)
    exact (fitting_isPrefixOf _ message).subset h

theorem unescapes_escaped {message : Bytes} (h : ∀ b ∈ message, Json.Printed b) :
    Json.Unescapes (escaped message) message := by
  induction message with
  | nil => exact .nil
  | cons b message ih =>
    obtain ⟨hb, hrest⟩ := List.forall_mem_cons.mp h
    rw [escaped_cons]
    obtain ⟨c, hc, hescape⟩ | ⟨hescape, hbackslash, hquote, hnewline, hreturn, htab⟩ :=
      escape_cases b
    · rw [hescape]
      exact .escape hc (ih hrest)
    · rw [hescape]
      have hge : 32 ≤ b := by
        rcases hb with hge | rfl | rfl | rfl
        · exact hge
        · exact absurd rfl htab
        · exact absurd rfl hnewline
        · exact absurd rfl hreturn
      exact .plain ⟨hge, hquote, hbackslash⟩ (ih hrest)

/-- A control byte without an escape stays as it is. -/
theorem printed_of_escaped {message : Bytes} (h : ∀ b ∈ escaped message, Json.Printed b) :
    ∀ b ∈ message, Json.Printed b := by
  intro b hb
  by_contra hnot
  have hescape : escape b = [b] := by
    obtain ⟨c, hc, -⟩ | ⟨hescape, -⟩ := escape_cases b
    · have hall : Json.escapes.all
          (fun e => decide (escape e.2 ≠ [e.2] → Json.Printed e.2)) = true := rfl
      have hprinted := of_decide_eq_true (List.all_eq_true.mp hall (c, b) hc)
      by_contra hne
      exact hnot (hprinted hne)
    · exact hescape
  have hin : b ∈ escaped message := by
    refine List.mem_flatMap.mpr ⟨b, hb, ?_⟩
    rw [hescape]
    exact List.mem_singleton_self b
  exact hnot (h b hin)

/-- An array of `size` bytes that holds the message, or its beginning, as the content of a
string literal. -/
structure EscapedInto (size : Nat) (message out : Bytes) : Prop where
  inside : out.length = size ∧ 0 ∈ out
  valid : Json.StringBody (cStr out)
  unescaped : ∃ front, front <+: message ∧ ∀ text, Json.Unescapes (cStr out) text ↔ text = front
  whole : (escaped message).length < size → Json.Unescapes (cStr out) message

/-- `append_json_escaped` makes the message the content of a string literal. -/
def JsonEscaped (dst message : Bytes) : Prop :=
  ∃ out, appendJsonEscaped dst (message ++ [0]) = some out ∧ EscapedInto dst.length message out

/-- Up to where the message fits, it has no control byte but those with an escape. -/
def NoRawControl (size : Nat) (message : Bytes) : Prop :=
  ∀ (i : Nat) (h : i < message.length),
    (escaped (message.take (i + 1))).length < size → Json.Printed message[i]

instance (size : Nat) (message : Bytes) : Decidable (NoRawControl size message) :=
  inferInstanceAs (Decidable (∀ (i : Nat) (h : i < message.length),
    (escaped (message.take (i + 1))).length < size → Json.Printed message[i]))

theorem noRawControl_iff {size : Nat} {message : Bytes} :
    NoRawControl size message ↔ ∀ b ∈ fitting size message, Json.Printed b :=
  forall_mem_fitting.symm

theorem escaped_iff {dst message : Bytes} (hdst : dst.head? = some 0) (hmessage : 0 ∉ message) :
    JsonEscaped dst message ↔ NoRawControl dst.length message := by
  obtain ⟨out, hout, hlen, hzero, hcontent⟩ := appendJsonEscaped_spec hdst hmessage
  rw [noRawControl_iff]
  constructor
  · rintro ⟨out', hout', -, hvalid, -⟩
    have hsame : out' = out := Option.some.inj (hout'.symm.trans hout)
    rw [hsame, hcontent] at hvalid
    exact printed_of_escaped fun b hb => .inl (hvalid.ge b hb)
  · intro hprinted
    have hunescapes := unescapes_escaped hprinted
    refine ⟨out, hout, ⟨hlen, hzero⟩, ?_, ⟨_, fitting_isPrefixOf dst.length message, ?_⟩, ?_⟩
    · rw [hcontent]
      exact hunescapes.stringBody
    · rw [hcontent]
      exact fun text => ⟨fun h => h.unique hunescapes, fun h => h ▸ hunescapes⟩
    · intro hfits
      rw [fitting_eq_self hfits] at hunescapes hcontent
      rw [hcontent]
      exact hunescapes

end EzRemote.Notify

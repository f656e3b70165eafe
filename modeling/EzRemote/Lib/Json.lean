import Mathlib.Data.List.Nodup

/-!
# JSON texts

The grammar of JSON over bytes, what the escapes of a string stand for, and a
layout with one member or element a line.  Bytes from 128 on are not looked at.
-/

namespace EzRemote.Json

abbrev Text := List UInt8

def quote : UInt8 := 34
def backslash : UInt8 := 92

/-- A byte that stands for itself in a string. -/
def Unescaped (b : UInt8) : Prop := 32 ≤ b ∧ b ≠ quote ∧ b ≠ backslash

instance (b : UInt8) : Decidable (Unescaped b) :=
  inferInstanceAs (Decidable (32 ≤ b ∧ b ≠ quote ∧ b ≠ backslash))

/-- The escapes of two characters, and the byte that each stands for. -/
def escapes : List (UInt8 × UInt8) :=
  [(34, 34), (92, 92), (47, 47), (98, 8), (102, 12), (110, 10), (114, 13), (116, 9)]

def IsHex (b : UInt8) : Prop := 48 ≤ b ∧ b ≤ 57 ∨ 65 ≤ b ∧ b ≤ 70 ∨ 97 ≤ b ∧ b ≤ 102

/-- What may stand between the quotes of a string. -/
inductive StringBody : Text → Prop
  | nil : StringBody []
  | plain {b : UInt8} {text : Text} : Unescaped b → StringBody text → StringBody (b :: text)
  | escape {c b : UInt8} {text : Text} :
      (c, b) ∈ escapes → StringBody text → StringBody (backslash :: c :: text)
  | unicode {a b c d : UInt8} {text : Text} : IsHex a → IsHex b → IsHex c → IsHex d →
      StringBody text → StringBody (backslash :: 117 :: a :: b :: c :: d :: text)

def hexValue (b : UInt8) : Nat :=
  if b ≤ 57 then b.toNat - 48 else if b ≤ 70 then b.toNat - 55 else b.toNat - 87

/-- The four digits of an escape, a unit of UTF-16. -/
structure Hex (a b c d : UInt8) (unit : Nat) : Prop where
  digits : IsHex a ∧ IsHex b ∧ IsHex c ∧ IsHex d
  value : unit = ((hexValue a * 16 + hexValue b) * 16 + hexValue c) * 16 + hexValue d

/-- The content of a string literal and the text that it stands for, in UTF-8. -/
inductive Unescapes : Text → Text → Prop
  | nil : Unescapes [] []
  | plain {b : UInt8} {body text : Text} : Unescaped b → Unescapes body text →
      Unescapes (b :: body) (b :: text)
  | escape {c b : UInt8} {body text : Text} : (c, b) ∈ escapes → Unescapes body text →
      Unescapes (backslash :: c :: body) (b :: text)
  | unicode {a b c d : UInt8} {body text : Text} {char : Char} : Hex a b c d char.toNat →
      Unescapes body text →
      Unescapes (backslash :: 117 :: a :: b :: c :: d :: body) (String.utf8EncodeChar char ++ text)
  | surrogates {a b c d a' b' c' d' : UInt8} {body text : Text} {high low : Nat} {char : Char} :
      Hex a b c d high → Hex a' b' c' d' low → 0xD800 ≤ high → high < 0xDC00 → 0xDC00 ≤ low →
      low < 0xE000 → char.toNat = 0x10000 + (high - 0xD800) * 0x400 + (low - 0xDC00) →
      Unescapes body text →
      Unescapes (backslash :: 117 :: a :: b :: c :: d :: backslash :: 117 :: a' :: b' :: c' :: d' ::
        body) (String.utf8EncodeChar char ++ text)

theorem not_unescaped_backslash : ¬Unescaped backslash := fun h => h.2.2 rfl

theorem escapes_ge {c b : UInt8} (h : (c, b) ∈ escapes) : 32 ≤ c := by
  have hall : escapes.all (fun e => decide (32 ≤ e.1)) = true := rfl
  exact of_decide_eq_true (List.all_eq_true.mp hall (c, b) h)

theorem escapes_unique {c b b' : UInt8} (h : (c, b) ∈ escapes) (h' : (c, b') ∈ escapes) :
    b = b' := by
  have hnodup : (escapes.map Prod.fst).Nodup := by decide
  have hsame := List.inj_on_of_nodup_map hnodup h h' rfl
  exact congrArg Prod.snd hsame

theorem unicode_notMem_escapes (b : UInt8) : (117, b) ∉ escapes := by
  intro h
  have hnot : 117 ∉ escapes.map Prod.fst := by decide
  exact hnot (List.mem_map.mpr ⟨(117, b), h, rfl⟩)

theorem Hex.unique {a b c d : UInt8} {unit unit' : Nat} (h : Hex a b c d unit)
    (h' : Hex a b c d unit') : unit = unit' := h.value.trans h'.value.symm

theorem not_surrogate {a b c d : UInt8} {high : Nat} {char : Char} (h : Hex a b c d high)
    (hchar : Hex a b c d char.toNat) (hle : 0xD800 ≤ high) (hlt : high < 0xDC00) : False := by
  have hvalid : char.toNat < 0xD800 ∨ 0xDFFF < char.toNat ∧ char.toNat < 0x110000 := char.valid
  have hunit := h.unique hchar
  omega

theorem Unescapes.unique {body text text' : Text} (h : Unescapes body text)
    (h' : Unescapes body text') : text = text' := by
  induction h generalizing text' with
  | nil =>
    cases h'
    rfl
  | plain hplain _ ih =>
    cases h' with
    | plain _ h' => rw [ih h']
    | escape => exact absurd hplain not_unescaped_backslash
    | unicode => exact absurd hplain not_unescaped_backslash
    | surrogates => exact absurd hplain not_unescaped_backslash
  | escape hmem _ ih =>
    cases h' with
    | plain hplain => exact absurd hplain not_unescaped_backslash
    | escape hmem' h' => rw [escapes_unique hmem hmem', ih h']
    | unicode => exact absurd hmem (unicode_notMem_escapes _)
    | surrogates => exact absurd hmem (unicode_notMem_escapes _)
  | unicode hhex _ ih =>
    cases h' with
    | plain hplain => exact absurd hplain not_unescaped_backslash
    | escape hmem => exact absurd hmem (unicode_notMem_escapes _)
    | unicode hhex' h' => rw [Char.toNat_inj.mp (hhex.unique hhex'), ih h']
    | surrogates hhigh _ hle hlt => exact (not_surrogate hhigh hhex hle hlt).elim
  | surrogates hhigh hlow hle hlt _ _ hchar _ ih =>
    cases h' with
    | plain hplain => exact absurd hplain not_unescaped_backslash
    | escape hmem => exact absurd hmem (unicode_notMem_escapes _)
    | unicode hhex => exact (not_surrogate hhigh hhex hle hlt).elim
    | surrogates hhigh' hlow' _ _ _ _ hchar' h' =>
      rw [hhigh.unique hhigh', hlow.unique hlow', ← hchar'] at hchar
      rw [Char.toNat_inj.mp hchar, ih h']

theorem Unescapes.stringBody {body text : Text} (h : Unescapes body text) : StringBody body := by
  induction h with
  | nil => exact .nil
  | plain hplain _ ih => exact .plain hplain ih
  | escape hmem _ ih => exact .escape hmem ih
  | unicode hhex _ ih =>
    obtain ⟨ha, hb, hc, hd⟩ := hhex.digits
    exact .unicode ha hb hc hd ih
  | surrogates hhigh hlow _ _ _ _ _ _ ih =>
    obtain ⟨ha, hb, hc, hd⟩ := hhigh.digits
    obtain ⟨ha', hb', hc', hd'⟩ := hlow.digits
    exact .unicode ha hb hc hd (.unicode ha' hb' hc' hd' ih)

def Space (b : UInt8) : Prop := b = 32 ∨ b = 9 ∨ b = 10 ∨ b = 13

def Ws (text : Text) : Prop := ∀ b ∈ text, Space b

def Digits (text : Text) : Prop := text ≠ [] ∧ ∀ b ∈ text, 48 ≤ b ∧ b ≤ 57

/-- An optional sign, an integer without leading zeros, a fraction and an exponent. -/
structure Number (sign int frac exp : Text) : Prop where
  sign : sign = [] ∨ sign = [45]
  int : Digits int ∧ (int.head? = some 48 → int.length = 1)
  frac : frac = [] ∨ ∃ digits, Digits digits ∧ frac = 46 :: digits
  exp : exp = [] ∨ ∃ e esign digits, (e = 69 ∨ e = 101) ∧
    (esign = [] ∨ esign = [43] ∨ esign = [45]) ∧ Digits digits ∧ exp = e :: (esign ++ digits)

/-- The parts of a text; an element is a value with the space around it. -/
inductive Part
  | value | element | elements | member | members
  deriving DecidableEq, Repr

inductive Derives : Part → Text → Prop
  | string {body : Text} : StringBody body → Derives .value (quote :: (body ++ [quote]))
  | number {sign int frac exp : Text} : Number sign int frac exp →
      Derives .value (sign ++ int ++ frac ++ exp)
  | true : Derives .value [116, 114, 117, 101]
  | false : Derives .value [102, 97, 108, 115, 101]
  | null : Derives .value [110, 117, 108, 108]
  | emptyArray {ws : Text} : Ws ws → Derives .value (91 :: (ws ++ [93]))
  | array {text : Text} : Derives .elements text → Derives .value (91 :: (text ++ [93]))
  | emptyObject {ws : Text} : Ws ws → Derives .value (123 :: (ws ++ [125]))
  | object {text : Text} : Derives .members text → Derives .value (123 :: (text ++ [125]))
  | element {before text behind : Text} : Ws before → Derives .value text → Ws behind →
      Derives .element (before ++ text ++ behind)
  | lastElement {text : Text} : Derives .element text → Derives .elements text
  | elements {text rest : Text} : Derives .element text → Derives .elements rest →
      Derives .elements (text ++ 44 :: rest)
  | member {before name behind text : Text} : Ws before → StringBody name → Ws behind →
      Derives .element text →
      Derives .member (before ++ quote :: (name ++ quote :: (behind ++ 58 :: text)))
  | lastMember {text : Text} : Derives .member text → Derives .members text
  | members {text rest : Text} : Derives .member text → Derives .members rest →
      Derives .members (text ++ 44 :: rest)

/-- A JSON text is one element. -/
def WellFormed (text : Text) : Prop := Derives .element text

/-- No control byte but those between the values of a text. -/
def Printed (b : UInt8) : Prop := 32 ≤ b ∨ b = 9 ∨ b = 10 ∨ b = 13

instance (b : UInt8) : Decidable (Printed b) :=
  inferInstanceAs (Decidable (32 ≤ b ∨ b = 9 ∨ b = 10 ∨ b = 13))

theorem IsHex.ge {b : UInt8} (h : IsHex b) : 32 ≤ b := by
  unfold IsHex at h
  grind

theorem StringBody.ge {body : Text} (h : StringBody body) : ∀ b ∈ body, 32 ≤ b := by
  induction h with
  | nil => exact List.forall_mem_nil _
  | plain hplain _ ih => exact List.forall_mem_cons.mpr ⟨hplain.1, ih⟩
  | escape hmem _ ih =>
    exact List.forall_mem_cons.mpr ⟨by decide, List.forall_mem_cons.mpr ⟨escapes_ge hmem, ih⟩⟩
  | unicode ha hb hc hd _ ih =>
    simp only [List.forall_mem_cons]
    exact ⟨by decide, by decide, ha.ge, hb.ge, hc.ge, hd.ge, ih⟩

theorem Digits.ge {text : Text} (h : Digits text) : ∀ b ∈ text, 32 ≤ b :=
  fun b hb => UInt8.le_trans (by decide) (h.2 b hb).1

theorem Number.ge {sign int frac exp : Text} (h : Number sign int frac exp) :
    ∀ b ∈ sign ++ int ++ frac ++ exp, 32 ≤ b := by
  obtain ⟨hsign, ⟨hint, -⟩, hfrac, hexp⟩ := h
  simp only [List.forall_mem_append]
  refine ⟨⟨⟨?_, hint.ge⟩, ?_⟩, ?_⟩
  · rcases hsign with rfl | rfl
    · exact List.forall_mem_nil _
    · exact List.forall_mem_singleton.mpr (by decide)
  · rcases hfrac with rfl | ⟨digits, hdigits, rfl⟩
    · exact List.forall_mem_nil _
    · exact List.forall_mem_cons.mpr ⟨by decide, hdigits.ge⟩
  · rcases hexp with rfl | ⟨e, esign, digits, he, hesign, hdigits, rfl⟩
    · exact List.forall_mem_nil _
    · refine List.forall_mem_cons.mpr ⟨?_, List.forall_mem_append.mpr ⟨?_, hdigits.ge⟩⟩
      · rcases he with rfl | rfl <;> decide
      · rcases hesign with rfl | rfl | rfl
        · exact List.forall_mem_nil _
        · exact List.forall_mem_singleton.mpr (by decide)
        · exact List.forall_mem_singleton.mpr (by decide)

theorem Ws.printed {text : Text} (h : Ws text) : ∀ b ∈ text, Printed b := by
  intro b hb
  rcases h b hb with rfl | rfl | rfl | rfl <;> decide

theorem printed_of_all {text : Text} (h : text.all (fun b => decide (Printed b)) = true) :
    ∀ b ∈ text, Printed b := fun b hb => of_decide_eq_true (List.all_eq_true.mp h b hb)

theorem printed_enclosed {before behind : UInt8} {text : Text} (hbefore : 32 ≤ before)
    (hbehind : 32 ≤ behind) (h : ∀ b ∈ text, Printed b) :
    ∀ b ∈ before :: (text ++ [behind]), Printed b := by
  rw [List.forall_mem_cons, List.forall_mem_append, List.forall_mem_singleton]
  exact ⟨.inl hbefore, h, .inl hbehind⟩

theorem printed_separated {between : UInt8} {text rest : Text} (hbetween : 32 ≤ between)
    (htext : ∀ b ∈ text, Printed b) (hrest : ∀ b ∈ rest, Printed b) :
    ∀ b ∈ text ++ between :: rest, Printed b := by
  rw [List.forall_mem_append, List.forall_mem_cons]
  exact ⟨htext, .inl hbetween, hrest⟩

theorem Derives.printed {part : Part} {text : Text} (h : Derives part text) :
    ∀ b ∈ text, Printed b := by
  induction h with
  | string hbody => exact printed_enclosed (by decide) (by decide) fun b hb => .inl (hbody.ge b hb)
  | number h => exact fun b hb => .inl (h.ge b hb)
  | true | false | null => exact printed_of_all rfl
  | emptyArray h => exact printed_enclosed (by decide) (by decide) h.printed
  | array _ ih => exact printed_enclosed (by decide) (by decide) ih
  | emptyObject h => exact printed_enclosed (by decide) (by decide) h.printed
  | object _ ih => exact printed_enclosed (by decide) (by decide) ih
  | element hbefore _ hbehind ih =>
    rw [List.forall_mem_append, List.forall_mem_append]
    exact ⟨⟨hbefore.printed, ih⟩, hbehind.printed⟩
  | lastElement _ ih => exact ih
  | elements _ _ ih ihrest => exact printed_separated (by decide) ih ihrest
  | member hbefore hname hbehind _ ih =>
    have hquote : 32 ≤ quote := by decide
    have hcolon : (32 : UInt8) ≤ 58 := by decide
    have hvalue := printed_separated hcolon hbehind.printed ih
    have hin := printed_separated hquote (fun b hb => .inl (hname.ge b hb)) hvalue
    exact printed_separated hquote hbefore.printed hin
  | lastMember _ ih => exact ih
  | members _ _ ih ihrest => exact printed_separated (by decide) ih ihrest

def string (body : Text) : Text := quote :: (body ++ [quote])

/-- A new line that is indented by `n` spaces. -/
def line (n : Nat) (text : Text) : Text := 10 :: (List.replicate n 32 ++ text)

/-- The texts with commas between them. -/
def join : List Text → Text
  | [] => []
  | [text] => text
  | text :: rest => text ++ 44 :: join rest

/-- An object that begins in a line indented by `n`. -/
def object (n : Nat) (members : List (Text × Text)) : Text :=
  123 :: (join (members.map fun m => line (n + 2) (string m.1 ++ 58 :: 32 :: m.2)) ++
    (line n [] ++ [125]))

/-- An array that begins in a line indented by `n`. -/
def array (n : Nat) (elements : List Text) : Text :=
  91 :: (join (elements.map (line (n + 2))) ++ (line n [] ++ [93]))

/-- The members of an object are names and values. -/
def Members (members : List (Text × Text)) : Prop :=
  members ≠ [] ∧ ∀ m ∈ members, StringBody m.1 ∧ Derives .value m.2

theorem ws_indent (n : Nat) : Ws (10 :: List.replicate n 32) := by
  intro b hb
  rcases List.mem_cons.mp hb with rfl | hb
  · exact .inr (.inr (.inl rfl))
  · rw [List.eq_of_mem_replicate hb]
    exact .inl rfl

theorem ws_line (n : Nat) : Ws (line n []) := by
  unfold line
  rw [List.append_nil]
  exact ws_indent n

theorem derives_join {one many : Part}
    (hlast : ∀ {text : Text}, Derives one text → Derives many text)
    (hmore : ∀ {text rest : Text}, Derives one text → Derives many rest →
      Derives many (text ++ 44 :: rest))
    {texts : List Text} (hne : texts ≠ [])
    (hall : ∀ text ∈ texts, ∀ ws, Ws ws → Derives one (text ++ ws)) {ws : Text} (hws : Ws ws) :
    Derives many (join texts ++ ws) := by
  induction texts with
  | nil => exact absurd rfl hne
  | cons text rest ih =>
    obtain ⟨hfirst, hrest⟩ := List.forall_mem_cons.mp hall
    cases rest with
    | nil => exact hlast (hfirst ws hws)
    | cons next rest =>
      have hone : Derives one text := by
        have h := hfirst [] fun _ h => absurd h List.not_mem_nil
        rwa [List.append_nil] at h
      have hmany := hmore hone (ih (List.cons_ne_nil next rest) hrest)
      rw [← List.cons_append, ← List.append_assoc] at hmany
      exact hmany

theorem derives_object {n : Nat} {members : List (Text × Text)} (h : Members members) :
    Derives .value (object n members) := by
  unfold object
  rw [← List.append_assoc]
  apply Derives.object
  refine derives_join .lastMember .members (by simpa using h.1) ?_ (ws_line n)
  intro text htext ws hws
  obtain ⟨m, hm, rfl⟩ := List.mem_map.mp htext
  obtain ⟨hname, hvalue⟩ := h.2 m hm
  have hspace : Ws [32] := fun b hb => .inl (List.mem_singleton.mp hb)
  have hnone : Ws [] := fun b hb => absurd hb List.not_mem_nil
  have hmember := Derives.member (ws_indent (n + 2)) hname hnone (.element hspace hvalue hws)
  simpa only [line, string, List.cons_append, List.append_assoc, List.nil_append] using hmember

theorem derives_array {n : Nat} {elements : List Text} (hne : elements ≠ [])
    (h : ∀ text ∈ elements, Derives .value text) : Derives .value (array n elements) := by
  unfold array
  rw [← List.append_assoc]
  apply Derives.array
  refine derives_join .lastElement .elements (by simpa using hne) ?_ (ws_line n)
  intro text htext ws hws
  obtain ⟨element, helement, rfl⟩ := List.mem_map.mp htext
  have hindented := Derives.element (ws_indent (n + 2)) (h element helement) hws
  simpa only [line, List.cons_append, List.append_assoc, List.nil_append] using hindented

def isPlain (body : Text) : Bool := body.all fun b => decide (Unescaped b)

theorem stringBody_of_isPlain {body : Text} (h : isPlain body = true) : StringBody body := by
  unfold isPlain at h
  rw [List.all_eq_true] at h
  induction body with
  | nil => exact .nil
  | cons b body ih =>
    obtain ⟨hb, hbody⟩ := List.forall_mem_cons.mp h
    exact .plain (by simpa using hb) (ih hbody)

theorem derives_string {body : Text} (h : isPlain body = true) : Derives .value (string body) :=
  .string (stringBody_of_isPlain h)

theorem members_singleton {name value : Text} (hname : isPlain name = true)
    (hvalue : Derives .value value) : Members [(name, value)] := by
  refine ⟨List.cons_ne_nil _ _, ?_⟩
  rw [List.forall_mem_singleton]
  exact ⟨stringBody_of_isPlain hname, hvalue⟩

theorem members_cons {name value : Text} {rest : List (Text × Text)} (hname : isPlain name = true)
    (hvalue : Derives .value value) (hrest : Members rest) : Members ((name, value) :: rest) := by
  refine ⟨List.cons_ne_nil _ _, ?_⟩
  rw [List.forall_mem_cons]
  exact ⟨⟨stringBody_of_isPlain hname, hvalue⟩, hrest.2⟩

end EzRemote.Json

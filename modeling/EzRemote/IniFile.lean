import EzRemote.Lib.Decimal
import EzRemote.Util

/-!
# The configuration file

`OpenIniFile`, `FindSection`, `FindpKey`, `ReadString` and `ReadInt` of
`inifile.c`, and `CONFIG::LoadConfig`, which reads the port with them.  `none` is
undefined behaviour of the source: a text that is longer than the array it is
copied to, or a number that is no `int`.
-/

namespace EzRemote.Ini

/-- `ENTRY::Type`; no entry of a file is left with `tpNULL`. -/
inductive EntryType
  | tpSection
  | tpKeyValue
  | tpComment
  deriving DecidableEq, Repr

structure Entry where
  type : EntryType
  text : Bytes
  deriving DecidableEq, Repr

def strupr (str : Bytes) : Bytes := str.map fun c => if 97 ≤ c ∧ c ≤ 122 then c - 32 else c

/-- The text in front of its comment. -/
def cutComment (str : Bytes) : Bytes := str.takeWhile (· ≠ 59)

/-- The type that `OpenIniFile` gives a line. -/
def entryType (text : Bytes) : EntryType :=
  let str := cutComment text
  if 91 ∈ str ∧ 93 ∈ str then .tpSection else if 61 ∈ str then .tpKeyValue else .tpComment

/-- `fgets(Str, 512, IniFile)` without the line end, and what it leaves. -/
def fgets (file : Bytes) : Bytes × Bytes :=
  let str := (file.take 511).takeWhile (· ≠ 10)
  (str, file.drop (if str.length < (file.take 511).length then str.length + 1 else 511))

theorem fgets_shorter {file : Bytes} (h : file ≠ []) : (fgets file).2.length < file.length := by
  have := List.length_pos_iff.mpr h
  unfold fgets
  rw [List.length_drop]
  split <;> omega

/-- The entries that `OpenIniFile` makes of a file. -/
def openIniFile (file : Bytes) : List Entry :=
  if _h : file = [] then []
  else
    let text := cStr (fgets file).1
    { type := entryType text, text := text } :: openIniFile (fgets file).2
termination_by file.length
decreasing_by exact fgets_shorter _h

/-- `strcpy` and `sprintf` of a text into an array. -/
def strcpy (size : Nat) (text : Bytes) : Option Bytes :=
  if text.length < size then some text else none

/-- The loop of `FindSection`; the entries from the section on. -/
def findSectionLoop (sec : Bytes) : List Entry → Option (List Entry)
  | [] => some []
  | e :: entries =>
    if e.type = .tpSection then do
      let iSec ← strcpy 130 e.text
      if sec = strupr iSec then some (e :: entries) else findSectionLoop sec entries
    else findSectionLoop sec entries

def findSection (section_ : Bytes) (entries : List Entry) : Option (List Entry) := do
  let sec ← strcpy 130 (91 :: section_ ++ [93])
  findSectionLoop (strupr sec) entries

/-- `EFIND`, with what `FindpKey` has copied to it. -/
structure EFind where
  keyText : Bytes
  valText : Bytes
  comment : Bytes
  deriving DecidableEq, Repr

/-- `List->Comment` after an entry: the whole text of one with a comment, which
stays where later entries have none. -/
def copyComment (list : EFind) (text : Bytes) : Option Bytes :=
  if 59 ∈ text then strcpy 32 text else some list.comment

/-- The loop of `FindpKey`. -/
def findKeyLoop (search : Bytes) : EFind → List Entry → Option (Option EFind)
  | _, [] => some none
  | list, e :: entries =>
    if e.type = .tpSection then some none
    else if e.type = .tpKeyValue then do
      let text ← strcpy 512 e.text
      let comment ← copyComment list text
      let text := cutComment text
      if 61 ∈ text then
        let keyText ← strcpy 128 (text.takeWhile (· ≠ 61))
        let found ← strcpy 130 keyText
        if strupr found = search then
          let valText ← strcpy 4096 ((text.dropWhile (· ≠ 61)).drop 1)
          some (some ⟨keyText, valText, comment⟩)
        else findKeyLoop search { list with keyText := keyText, comment := comment } entries
      else findKeyLoop search { list with comment := comment } entries
    else findKeyLoop search list entries

/-- `FindpKey`. -/
def findKey (section_ key : Bytes) (entries : List Entry) : Option (Option EFind) := do
  match ← findSection section_ entries with
  | [] => some none
  | _ :: entries =>
    if entries = [] then some none
    else
      let search ← strcpy 130 key
      findKeyLoop (strupr search) ⟨[], [], []⟩ entries

def readString (section_ key default : Bytes) (entries : List Entry) : Option Bytes := do
  match ← findKey section_ key entries with
  | some list => strcpy 520 list.valText
  | none => some default

def atoi (str : Bytes) : Option Int :=
  let str := str.dropWhile isSpace
  let negative := str.head? = some 45
  let digits := (if str.head? = some 45 ∨ str.head? = some 43 then str.drop 1 else str).takeWhile
    Decimal.isDigit
  let n : Int := Decimal.value digits
  let n := if negative then -n else n
  if -2147483648 ≤ n ∧ n ≤ 2147483647 then some n else none

def readInt (section_ key : Bytes) (default : Int) (entries : List Entry) : Option Int := do
  let val ← strcpy 12 (toDecimal default)
  atoi (← readString section_ key val entries)

def configHttpServer : Bytes := bytes "HttpServer"

def configEzremoteClientPort : Bytes := bytes "http_server_port"

/-- `LoadConfig`: the port that it sets, from the file if it is there. -/
def loadConfig (file : Option Bytes) : Option Int :=
  readInt configHttpServer configEzremoteClientPort 9090 (openIniFile (file.getD []))

/-- The first elements of a list up to the one that is looked for, with it. -/
def upTo (p : Entry → Bool) (l : List Entry) : List Entry :=
  l.takeWhile (fun e => !p e) ++ (l.dropWhile fun e => !p e).take 1

namespace Entry

/-- The whole line is the bracketed name, in any case. -/
def isSection (section_ : Bytes) (e : Entry) : Bool :=
  e.type = .tpSection && strupr (91 :: section_ ++ [93]) = strupr e.text

def key (e : Entry) : Bytes := (cutComment e.text).takeWhile (· ≠ 61)

def value (e : Entry) : Bytes := ((cutComment e.text).dropWhile (· ≠ 61)).drop 1

/-- The text up to the equals sign is the key, in any case. -/
def isKey (key : Bytes) (e : Entry) : Bool := e.type = .tpKeyValue && strupr e.key = strupr key

/-- The arrays of `FindpKey` hold the line. -/
structure Fits (e : Entry) : Prop where
  comment : 59 ∈ e.text → e.text.length < 32
  key : e.key.length < 128

end Entry

/-- The lines of the first section of a name. -/
def body (section_ : Bytes) (entries : List Entry) : List Entry :=
  ((entries.dropWhile fun e => !e.isSection section_).drop 1).takeWhile (·.type ≠ .tpSection)

/-- The value of the first line with a key in the first section of a name. -/
def lookup (section_ key : Bytes) (entries : List Entry) : Option Bytes :=
  ((body section_ entries).find? (·.isKey key)).map Entry.value

/-- The arrays hold all that is read: the section lines up to the one that is
looked for, and the lines of that section up to the key. -/
structure Fits (section_ key : Bytes) (entries : List Entry) : Prop where
  sections : ∀ e ∈ upTo (·.isSection section_) entries, e.type = .tpSection → e.text.length < 130
  keys : ∀ e ∈ upTo (·.isKey key) (body section_ entries), e.type = .tpKeyValue → e.Fits

/-- What `OpenIniFile` makes of a line. -/
structure Entry.WellFormed (e : Entry) : Prop where
  type : e.type = entryType e.text
  short : e.text.length < 512

theorem openIniFile_wellFormed (file : Bytes) : ∀ e ∈ openIniFile file, e.WellFormed := by
  induction file using openIniFile.induct with
  | case1 =>
    rw [openIniFile, dif_pos rfl]
    exact fun e he => nomatch he
  | case2 file h ih =>
    rw [openIniFile, dif_neg h]
    intro e he
    rcases List.mem_cons.mp he with rfl | he
    · refine ⟨rfl, Nat.lt_succ_of_le ?_⟩
      calc (cStr (fgets file).1).length
        _ ≤ (fgets file).1.length := (List.takeWhile_prefix _).length_le
        _ ≤ (file.take 511).length := (List.takeWhile_prefix _).length_le
        _ ≤ 511 := List.length_take_le _ _
    · exact ih e he

theorem openIniFile_lines {lines : List Bytes}
    (h : ∀ line ∈ lines, line.length < 511 ∧ 10 ∉ line ∧ 0 ∉ line) :
    openIniFile (lines.flatMap (· ++ [10])) = lines.map fun line => ⟨entryType line, line⟩ := by
  induction lines with
  | nil =>
    rw [List.flatMap_nil, openIniFile, dif_pos rfl]
    rfl
  | cons line lines ih =>
    obtain ⟨⟨hlen, hnl, hnul⟩, hrest⟩ := List.forall_mem_cons.mp h
    rw [List.flatMap_cons, List.append_assoc, List.singleton_append]
    obtain ⟨rest, hr⟩ : ∃ rest, lines.flatMap (· ++ [10]) = rest := ⟨_, rfl⟩
    rw [hr] at ih ⊢
    have htake : (line ++ 10 :: rest).take 511 = line ++ 10 :: rest.take (510 - line.length) := by
      have hsub : 511 - line.length = (510 - line.length) + 1 := by omega
      rw [List.take_append, List.take_of_length_le hlen.le, hsub, List.take_succ_cons]
    have hne : ∀ b ∈ line, decide (b ≠ 10) = true :=
      fun b hb => decide_eq_true fun h10 => hnl (h10 ▸ hb)
    have hbody : ((line ++ 10 :: rest).take 511).takeWhile (· ≠ 10) = line := by
      rw [htake, List.takeWhile_append_of_pos hne, List.takeWhile_cons_of_neg (by decide),
        List.append_nil]
    have hfgets : fgets (line ++ 10 :: rest) = (line, rest) := by
      unfold fgets
      dsimp only
      rw [hbody, htake, if_pos (by rw [List.length_append, List.length_cons]; omega)]
      rw [← List.drop_drop, List.drop_left, List.drop_succ_cons, List.drop_zero]
    rw [openIniFile, dif_neg (by simp), hfgets, cStr_of_notMem hnul, ih hrest]
    rfl

theorem Entry.length_value_le (e : Entry) : e.value.length ≤ e.text.length := by
  calc e.value.length
    _ ≤ ((cutComment e.text).dropWhile (· ≠ 61)).length := by
      rw [Entry.value, List.length_drop]
      exact Nat.sub_le _ _
    _ ≤ (cutComment e.text).length := (List.dropWhile_suffix _).length_le
    _ ≤ e.text.length := (List.takeWhile_prefix _).length_le

theorem Entry.WellFormed.equals {e : Entry} (h : e.WellFormed) (ht : e.type = .tpKeyValue) :
    61 ∈ cutComment e.text := by
  rw [h.type] at ht
  unfold entryType at ht
  dsimp only at ht
  split at ht
  · cases ht
  · split at ht
    · assumption
    · cases ht

theorem strcpy_bind {α : Type} {size : Nat} {text : Bytes} {f : Bytes → Option α} {r : α} :
    strcpy size text >>= f = some r ↔ text.length < size ∧ f text = some r := by
  show (strcpy size text).bind f = some r ↔ _
  rw [Option.bind_eq_some_iff, strcpy]
  simp only [Option.ite_none_right_eq_some, Option.some.injEq, and_assoc, exists_and_left,
    exists_eq_left']

theorem upTo_cons (p : Entry → Bool) (e : Entry) (l : List Entry) :
    upTo p (e :: l) = if p e then [e] else e :: upTo p l := by
  unfold upTo
  by_cases he : p e = true
  · rw [if_pos he, List.takeWhile_cons_of_neg (by simp [he]),
      List.dropWhile_cons_of_neg (by simp [he])]
    rfl
  · rw [if_neg he, List.takeWhile_cons_of_pos (by simp [he]),
      List.dropWhile_cons_of_pos (by simp [he])]
    rfl

theorem Entry.isSection_iff {section_ : Bytes} {e : Entry} : e.isSection section_ = true ↔
    e.type = .tpSection ∧ strupr (91 :: section_ ++ [93]) = strupr e.text := by
  rw [isSection, Bool.and_eq_true, decide_eq_true_iff, decide_eq_true_iff]

theorem Entry.isKey_iff {key : Bytes} {e : Entry} :
    e.isKey key = true ↔ e.type = .tpKeyValue ∧ strupr e.key = strupr key := by
  rw [isKey, Bool.and_eq_true, decide_eq_true_iff, decide_eq_true_iff]

theorem findSectionLoop_eq_some {section_ : Bytes} {entries r : List Entry} :
    findSectionLoop (strupr (91 :: section_ ++ [93])) entries = some r ↔
      (∀ e ∈ upTo (·.isSection section_) entries, e.type = .tpSection → e.text.length < 130) ∧
        (entries.dropWhile fun e => !e.isSection section_) = r := by
  induction entries with
  | nil => simp [findSectionLoop, upTo]
  | cons e entries ih =>
    unfold findSectionLoop
    rw [upTo_cons]
    by_cases ht : e.type = .tpSection
    · rw [if_pos ht, strcpy_bind]
      by_cases hsec : strupr (91 :: section_ ++ [93]) = strupr e.text
      · have his : e.isSection section_ = true := Entry.isSection_iff.mpr ⟨ht, hsec⟩
        rw [if_pos hsec, if_pos his, List.dropWhile_cons_of_neg (by simp [his])]
        simp [ht]
      · have his : ¬ e.isSection section_ = true := fun h => hsec (Entry.isSection_iff.mp h).2
        rw [if_neg hsec, if_neg his, List.dropWhile_cons_of_pos (by simp [his]), ih,
          List.forall_mem_cons, and_assoc]
        simp [ht]
    · have his : ¬ e.isSection section_ = true := fun h => ht (Entry.isSection_iff.mp h).1
      rw [if_neg ht, if_neg his, List.dropWhile_cons_of_pos (by simp [his]), ih,
        List.forall_mem_cons]
      simp [ht]

theorem copyComment_bind {α : Type} {list : EFind} {text : Bytes} {f : Bytes → Option α} {r : α} :
    copyComment list text >>= f = some r ↔
      (59 ∈ text → text.length < 32) ∧ f (if 59 ∈ text then text else list.comment) = some r := by
  unfold copyComment
  by_cases h : 59 ∈ text
  · rw [if_pos h, if_pos h, strcpy_bind]
    exact and_congr_left fun _ => ⟨fun hlen _ => hlen, fun hlen => hlen h⟩
  · rw [if_neg h, if_neg h]
    exact ⟨fun hf => ⟨fun h' => absurd h' h, hf⟩, fun hf => hf.2⟩

theorem findKeyLoop_eq_some {key : Bytes} {entries : List Entry}
    (hwf : ∀ e ∈ entries, e.WellFormed) (list : EFind) {r : Option Bytes} :
    (∃ found, findKeyLoop (strupr key) list entries = some found ∧
        found.map EFind.valText = r) ↔
      (∀ e ∈ upTo (·.isKey key) (entries.takeWhile (·.type ≠ .tpSection)),
        e.type = .tpKeyValue → e.Fits) ∧
      ((entries.takeWhile (·.type ≠ .tpSection)).find? (·.isKey key)).map Entry.value = r := by
  induction entries generalizing list with
  | nil => simp [findKeyLoop, upTo]
  | cons e entries ih =>
    obtain ⟨he, hrest⟩ := List.forall_mem_cons.mp hwf
    unfold findKeyLoop
    by_cases hsec : e.type = .tpSection
    · rw [if_pos hsec, List.takeWhile_cons_of_neg (by simp [hsec])]
      simp [upTo]
    rw [if_neg hsec, List.takeWhile_cons_of_pos (by simp [hsec]), upTo_cons, List.find?_cons]
    by_cases ht : e.type = .tpKeyValue
    case neg =>
      -- a comment line is passed over
      have his : ¬ e.isKey key = true := fun h => ht (Entry.isKey_iff.mp h).1
      rw [if_neg ht, if_neg his, ih hrest, List.forall_mem_cons]
      simp [ht, his]
    have hfits : e.Fits ↔ (59 ∈ e.text → e.text.length < 32) ∧ e.key.length < 128 :=
      ⟨fun h => ⟨h.comment, h.key⟩, fun h => ⟨h.1, h.2⟩⟩
    have hvalue : e.value.length < 4096 := by
      have := e.length_value_le
      have := he.short
      omega
    rw [if_pos ht]
    simp only [strcpy_bind, copyComment_bind, if_pos (he.equals ht)]
    -- what has to fit on the way to the comparison of the key
    show (∃ found, (e.text.length < 512 ∧ (59 ∈ e.text → e.text.length < 32) ∧
      e.key.length < 128 ∧ e.key.length < 130 ∧ (if strupr e.key = strupr key then
        strcpy 4096 e.value >>= _ else findKeyLoop _ _ _) = some found) ∧ _) ↔ _
    by_cases his : e.isKey key = true
    · have heq : strupr e.key = strupr key := (Entry.isKey_iff.mp his).2
      rw [if_pos his, his]
      constructor
      · rintro ⟨found, ⟨-, h59, hlen, -, hf⟩, hr⟩
        rw [if_pos heq, strcpy_bind] at hf
        obtain ⟨-, ⟨⟩⟩ := hf
        refine ⟨fun e' he' _ => ?_, hr⟩
        rw [List.mem_singleton.mp he']
        exact hfits.mpr ⟨h59, hlen⟩
      · rintro ⟨hall, hr⟩
        obtain ⟨h59, hlen⟩ := hfits.mp (hall e (List.mem_singleton_self e) ht)
        refine ⟨some ⟨e.key, e.value, if 59 ∈ e.text then e.text else list.comment⟩,
          ⟨he.short, h59, hlen, by omega, ?_⟩, hr⟩
        rw [if_pos heq, strcpy_bind]
        exact ⟨hvalue, rfl⟩
    · have hne : ¬ strupr e.key = strupr key := fun h => his (Entry.isKey_iff.mpr ⟨ht, h⟩)
      have hfalse : e.isKey key = false := Bool.eq_false_iff.mpr his
      rw [if_neg his, hfalse, List.forall_mem_cons]
      simp only [if_neg hne]
      constructor
      · rintro ⟨found, ⟨-, h59, hlen, -, hf⟩, hr⟩
        obtain ⟨hall, hlookup⟩ := (ih hrest _).mp ⟨found, hf, hr⟩
        exact ⟨⟨fun _ => hfits.mpr ⟨h59, hlen⟩, hall⟩, hlookup⟩
      · rintro ⟨⟨hfit, hall⟩, hlookup⟩
        obtain ⟨found, hf, hr⟩ := (ih hrest _).mpr ⟨hall, hlookup⟩
        obtain ⟨h59, hlen⟩ := hfits.mp (hfit ht)
        exact ⟨found, ⟨he.short, h59, hlen, by omega, hf⟩, hr⟩

/-- `FindpKey` finds the value that the file gives, as long as it fits. -/
theorem findKey_eq_some {section_ key : Bytes} (hsection : section_.length < 128)
    (hkey : key.length < 128) {entries : List Entry} (hwf : ∀ e ∈ entries, e.WellFormed)
    {r : Option Bytes} :
    (∃ found, findKey section_ key entries = some found ∧ found.map EFind.valText = r) ↔
      Fits section_ key entries ∧ lookup section_ key entries = r := by
  have hfits : Fits section_ key entries ↔
      (∀ e ∈ upTo (·.isSection section_) entries, e.type = .tpSection → e.text.length < 130) ∧
        ∀ e ∈ upTo (·.isKey key) (body section_ entries), e.type = .tpKeyValue → e.Fits :=
    ⟨fun h => ⟨h.sections, h.keys⟩, fun h => ⟨h.1, h.2⟩⟩
  have hfind : ∀ r, findSection section_ entries = some r ↔
      (∀ e ∈ upTo (·.isSection section_) entries, e.type = .tpSection → e.text.length < 130) ∧
        (entries.dropWhile fun e => !e.isSection section_) = r := by
    intro r
    have hlen : (91 :: section_ ++ [93]).length < 130 := by
      rw [List.length_append, List.length_cons, List.length_singleton]
      omega
    unfold findSection
    rw [strcpy_bind, findSectionLoop_eq_some, and_iff_right hlen]
  have hloop : ∀ found, findKey section_ key entries = some found ↔
      (∀ e ∈ upTo (·.isSection section_) entries, e.type = .tpSection → e.text.length < 130) ∧
        findKeyLoop (strupr key) ⟨[], [], []⟩
          ((entries.dropWhile fun e => !e.isSection section_).drop 1) = some found := by
    intro found
    unfold findKey
    rw [Option.bind_eq_bind, Option.bind_eq_some_iff]
    simp only [hfind, and_assoc, exists_and_left, exists_eq_left']
    refine and_congr_right fun _ => ?_
    -- behind the last line there is nothing to look for
    obtain ⟨r, hr⟩ : ∃ r, (entries.dropWhile fun e => !e.isSection section_) = r := ⟨_, rfl⟩
    rw [hr]
    cases r with
    | nil => rfl
    | cons e r =>
      cases r with
      | nil => rfl
      | cons e' r =>
        dsimp only
        rw [if_neg (List.cons_ne_nil e' r), strcpy_bind, and_iff_right (by omega)]
        rfl
  have hwf' : ∀ e ∈ (entries.dropWhile fun e => !e.isSection section_).drop 1, e.WellFormed :=
    fun e he => hwf e ((List.dropWhile_suffix _).mem (List.mem_of_mem_drop he))
  have hbody := @findKeyLoop_eq_some key _ hwf' ⟨[], [], []⟩ r
  rw [hfits, and_assoc]
  show _ ↔ _ ∧ _ ∧ ((body section_ entries).find? (·.isKey key)).map Entry.value = r
  unfold body
  rw [← hbody]
  simp only [hloop]
  exact ⟨fun ⟨found, ⟨hs, hf⟩, hr⟩ => ⟨hs, found, hf, hr⟩,
    fun ⟨hs, found, hf, hr⟩ => ⟨found, ⟨hs, hf⟩, hr⟩⟩

theorem lookup_length {section_ key : Bytes} {entries : List Entry}
    (hwf : ∀ e ∈ entries, e.WellFormed) {val : Bytes} (h : lookup section_ key entries = some val) :
    val.length < 512 := by
  obtain ⟨e, hfind, rfl⟩ := Option.map_eq_some_iff.mp h
  have hbody : e ∈ body section_ entries := List.mem_of_find?_eq_some hfind
  have hmem : e ∈ entries :=
    (List.dropWhile_suffix _).mem (List.mem_of_mem_drop ((List.takeWhile_prefix _).mem hbody))
  exact lt_of_le_of_lt e.length_value_le (hwf e hmem).short

/-- `ReadString` gives what the file says, and else the default. -/
theorem readString_eq_some {section_ key default : Bytes} (hsection : section_.length < 128)
    (hkey : key.length < 128) {entries : List Entry} (hwf : ∀ e ∈ entries, e.WellFormed)
    {val : Bytes} :
    readString section_ key default entries = some val ↔
      Fits section_ key entries ∧ (lookup section_ key entries).getD default = val := by
  have hfind := fun r => findKey_eq_some hsection hkey hwf (r := r)
  unfold readString
  rw [Option.bind_eq_bind, Option.bind_eq_some_iff]
  constructor
  · rintro ⟨found, hf, hval⟩
    obtain ⟨hfits, hlookup⟩ := (hfind _).mp ⟨found, hf, rfl⟩
    refine ⟨hfits, ?_⟩
    rw [hlookup]
    cases found with
    | none => exact Option.some.inj hval
    | some list => exact (Option.ite_none_right_eq_some.mp hval).2 |> Option.some.inj
  · rintro ⟨hfits, hval⟩
    obtain ⟨found, hf, hlookup⟩ := (hfind _).mpr ⟨hfits, rfl⟩
    refine ⟨found, hf, ?_⟩
    rw [← hlookup] at hval
    cases found with
    | none => exact congrArg some hval
    | some list =>
      have hlen := lookup_length hwf hlookup.symm
      dsimp only
      rw [strcpy, if_pos (by omega)]
      exact congrArg some hval

/-- The port is the number behind the first line with the key in the first section
of the name, and 9090 without one, as long as the lines up to there fit into the
arrays that they are copied to; a longer line is written past its array. -/
theorem load_config_iff (file : Option Bytes) (port : Int) :
    loadConfig file = some port ↔
      Fits configHttpServer configEzremoteClientPort (openIniFile (file.getD [])) ∧
      atoi ((lookup configHttpServer configEzremoteClientPort (openIniFile (file.getD []))).getD
        (bytes "9090")) = some port := by
  have hread : ∀ val, readString configHttpServer configEzremoteClientPort (toDecimal 9090)
      (openIniFile (file.getD [])) = some val ↔ _ :=
    fun _ => readString_eq_some (by decide) (by decide) (openIniFile_wellFormed (file.getD []))
  have hdefault : toDecimal 9090 = bytes "9090" := rfl
  unfold loadConfig readInt
  rw [strcpy_bind, and_iff_right (by decide), Option.bind_eq_bind, Option.bind_eq_some_iff]
  simp only [hread, and_assoc, exists_and_left, exists_eq_left']
  rw [hdefault]

end EzRemote.Ini

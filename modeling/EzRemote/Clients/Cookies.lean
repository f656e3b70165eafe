import EzRemote.Lib.SortedMap
import EzRemote.Lib.Tokens
import EzRemote.Transfer.Http

/-!
# Cookies of archive.org

`ArchiveOrgClient::Login` from the response on: every part of every `Set-Cookie`
header is stored as a cookie unless its name is on a list.
-/

namespace EzRemote.Clients

def semicolon : UInt8 := 59
def equals : UInt8 := 61

/-- `Util::Split` at a delimiter of one byte. -/
def split (text : Bytes) (delimiter : UInt8) : List Bytes :=
  if h : delimiter ∈ text then
    let pos := text.idxOf delimiter
    let tokens := split (text.drop (pos + 1)) delimiter
    if 0 < (text.take pos).length then text.take pos :: tokens else tokens
  else if 0 < text.length then [text]
  else []
termination_by text.length
decreasing_by
  have hpos := List.length_pos_of_mem h
  rw [List.length_drop]
  omega

/-- `tolower` in the C locale. -/
def toLower (b : UInt8) : UInt8 := if 65 ≤ b ∧ b ≤ 90 then b + 32 else b

/-- `strcasecmp(a.c_str(), b.c_str()) == 0`. -/
def sameIgnoringCase (a b : Bytes) : Bool := (cStr a).map toLower = (cStr b).map toLower

def ignoreCookieKeys : List Bytes :=
  [bytes "path", bytes "expires", bytes "max-age", bytes "domain", bytes "secure"]

/-- `ignore_cookie_keys.find(key) != ignore_cookie_keys.end()`. -/
def ignored (key : Bytes) : Bool := ignoreCookieKeys.any fun k => sameIgnoringCase k key

/-- `cookies` of `BaseClient`. -/
abbrev Cookies := SortedMap Bytes Bytes

/-- The body of the inner loop; `none` is `cookie[0]` of no tokens. -/
def storePart (cookies : Cookies) (part : Bytes) : Option Cookies :=
  match split part equals with
  | [] => none
  | name :: rest =>
    let key := trim name (bytes " ")
    if ignored key then some cookies
    else
      match rest with
      | value :: _ => some (cookies.insert key (trim value (bytes " ")))
      | [] => some (cookies.insert key [])

/-- The parts of one header. -/
def storeHeader (cookies : Cookies) (header : Bytes) : Option Cookies :=
  (split header semicolon).foldlM storePart cookies

/-- What the login reads of a response. -/
structure LoginResponse where
  status : Int
  setCookie : List Bytes
  deriving DecidableEq, Repr

def httpSuccess (status : Int) : Bool := 200 ≤ status && status < 300

/-- `ArchiveOrgClient::Login` behind its request: its result and the cookies. -/
def login (cookies : Cookies) : Option LoginResponse → Option (Int × Cookies)
  | none => some (0, cookies)
  | some res =>
    if httpSuccess res.status then
      if res.setCookie ≠ [] then (res.setCookie.foldlM storeHeader cookies).map fun c => (1, c)
      else some (0, cookies)
    else some (0, cookies)

/-- The loop of `SetCookies`. -/
def cookieText : List (Bytes × Bytes) → Bytes
  | [] => []
  | [it] => it.1 ++ bytes "=" ++ it.2
  | it :: next :: rest => it.1 ++ bytes "=" ++ it.2 ++ bytes "; " ++ cookieText (next :: rest)

/-- The name and the value of the first part of a header, cut at its first `=`;
spaces around them belong to neither. -/
def firstPair (header : Bytes) : Option (Bytes × Bytes) :=
  let part := header.takeWhile (· ≠ semicolon)
  let name := trim (part.takeWhile (· ≠ equals)) (bytes " ")
  if equals ∈ part ∧ name ≠ [] then
    some (name, trim ((part.dropWhile (· ≠ equals)).drop 1) (bytes " "))
  else none

/-- The cookies with the one of a header. -/
def updated (cookies : Cookies) (header : Bytes) : Cookies :=
  match firstPair header with
  | some cookie => cookies.insert cookie.1 cookie.2
  | none => cookies

theorem split_eq_tokens (text : Bytes) (d : UInt8) : split text d = tokens d text := by
  have hcut : ∀ text : Bytes, d ∈ text → tokens d text =
      tokens d (text.take (text.idxOf d)) ++ tokens d (text.drop (text.idxOf d + 1)) := by
    intro text h
    have hlt : text.idxOf d < text.length := List.idxOf_lt_length_of_mem h
    have hsplit : text = text.take (text.idxOf d) ++ d :: text.drop (text.idxOf d + 1) := by
      have hdrop := List.drop_eq_getElem_cons hlt
      rw [List.getElem_idxOf] at hdrop
      rw [← hdrop, List.take_append_drop]
    have happend := tokens_append_cons (d := d) (text.take (text.idxOf d))
      (text.drop (text.idxOf d + 1))
    rwa [← hsplit] at happend
  fun_induction split text d with
  | case1 text h pos parts hpos ih =>
    have hfree : d ∉ text.take pos := by
      rw [List.mem_take_iff_idxOf_lt h]
      exact Nat.lt_irrefl _
    rw [hcut text h, tokens_of_notMem (List.length_pos_iff.mp hpos) hfree, ← ih]
    rfl
  | case2 text h pos parts hpos ih =>
    have hnil : text.take pos = [] := List.length_eq_zero_iff.mp (by omega)
    rw [hcut text h, hnil, tokens_nil, ← ih]
    rfl
  | case3 text h hpos => rw [tokens_of_notMem (List.length_pos_iff.mp hpos) h]
  | case4 text h hpos =>
    have hnil : text = [] := List.length_eq_zero_iff.mp (by omega)
    rw [hnil, tokens_nil]

/-- The name and the value that the login reads off a part. -/
def partName (part : Bytes) : Bytes := trim (firstToken equals part) (bytes " ")

def partValue (part : Bytes) : Bytes :=
  trim (firstToken equals (behindFirst equals part)) (bytes " ")

theorem storePart_eq {part : Bytes} (h : ∃ b ∈ part, b ≠ equals) (cookies : Cookies) :
    storePart cookies part = some (if ignored (partName part) then cookies
      else cookies.insert (partName part) (partValue part)) := by
  unfold storePart
  rw [split_eq_tokens, tokens_eq_cons h]
  dsimp only
  by_cases hi : ignored (partName part) = true
  · rw [if_pos hi]
    exact if_pos hi
  · rw [if_neg hi]
    refine (if_neg hi).trans ?_
    cases hrest : tokens equals (behindFirst equals part) with
    | nil =>
      have hvalue : partValue part = [] := by
        unfold partValue
        rw [firstToken_of_tokens_nil hrest]
        rfl
      rw [hvalue]
      rfl
    | cons value rest =>
      have hfirst : ∃ b ∈ behindFirst equals part, b ≠ equals := by
        by_contra hno
        push Not at hno
        rw [tokens_eq_nil_iff.mpr hno] at hrest
        cases hrest
      have hvalue : value = firstToken equals (behindFirst equals part) := by
        rw [tokens_eq_cons hfirst] at hrest
        exact (List.cons.inj hrest).1.symm
      rw [hvalue]
      rfl

theorem storePart_none {part : Bytes} (h : ∀ b ∈ part, b = equals) (cookies : Cookies) :
    storePart cookies part = none := by
  unfold storePart
  rw [split_eq_tokens, tokens_eq_nil_iff.mpr h]

/-- The cookies that the login makes of the parts of a header. -/
def assignments (header : Bytes) : List (Bytes × Bytes) :=
  ((tokens semicolon header).filter fun part => !ignored (partName part)).map fun part =>
    (partName part, partValue part)

/-- A header of which the login takes the first pair and nothing else. -/
structure Plain (header : Bytes) : Prop where
  /-- No part consists of `=` only. -/
  named : ∀ part ∈ tokens semicolon header, ∃ b ∈ part, b ≠ equals
  /-- The first pair is not named like an attribute of the list, and its value has no
  `=`. -/
  first : ∀ name value, firstPair header = some (name, value) →
    ignored name = false ∧ equals ∉ value
  /-- Every other part is an attribute of the list, or has the name of the first. -/
  others : ∀ part ∈ tokens semicolon header, ignored (partName part) = true ∨
    ∃ value, firstPair header = some (partName part, value)
  /-- The last part with that name has its value. -/
  repeated : ∀ name value, firstPair header = some (name, value) → ∀ part,
    ((tokens semicolon header).reverse.find? fun part => partName part = name) = some part →
      partValue part = value

theorem foldlM_storePart_none {parts : List Bytes} {part : Bytes} (hmem : part ∈ parts)
    (h : ∀ b ∈ part, b = equals) (cookies : Cookies) : parts.foldlM storePart cookies = none := by
  induction parts generalizing cookies with
  | nil => cases hmem
  | cons first parts ih =>
    rw [List.foldlM_cons]
    rcases List.mem_cons.mp hmem with rfl | hmem
    · rw [storePart_none h]
      rfl
    · cases storePart cookies first with
      | none => rfl
      | some c => exact ih hmem c

theorem foldlM_storePart {parts : List Bytes} (h : ∀ part ∈ parts, ∃ b ∈ part, b ≠ equals)
    (cookies : Cookies) : parts.foldlM storePart cookies =
      some (((parts.filter fun part => !ignored (partName part)).map fun part =>
        (partName part, partValue part)).foldl (fun m e => m.insert e.1 e.2) cookies) := by
  induction parts generalizing cookies with
  | nil => rfl
  | cons part parts ih =>
    rw [List.foldlM_cons, storePart_eq (h part List.mem_cons_self)]
    simp only [Option.bind_eq_bind, Option.bind_some]
    rw [ih fun p hp => h p (List.mem_cons_of_mem _ hp)]
    cases hi : ignored (partName part) with
    | true => simp [hi]
    | false => simp [hi]

theorem lastValue_assignments {header name : Bytes} (h : ignored name = false) :
    SortedMap.lastValue (assignments header) name =
      ((tokens semicolon header).reverse.find? fun part => partName part = name).map partValue := by
  unfold SortedMap.lastValue assignments
  rw [← List.map_reverse, ← List.filter_reverse, List.find?_map, List.find?_filter, Option.map_map]
  have hsame : (fun part => decide ((!ignored (partName part)) = true ∧
      ((fun e : Bytes × Bytes => decide (e.1 = name)) ∘ fun part => (partName part, partValue part))
        part = true)) = fun part => decide (partName part = name) := by
    funext part
    by_cases hp : partName part = name
    · simp [hp, h]
    · simp [hp]
  rw [hsame]
  rfl

theorem mem_foldl_assignments (header : Bytes) (m : Cookies) (e : Bytes × Bytes) :
    e ∈ ((assignments header).foldl (fun m e => m.insert e.1 e.2) m).entries ↔
      SortedMap.lastValue (assignments header) e.1 = some e.2 ∨
        SortedMap.lastValue (assignments header) e.1 = none ∧ e ∈ m.entries :=
  SortedMap.mem_foldl_insert

theorem equals_notMem_partValue (part : Bytes) : equals ∉ partValue part := by
  intro h
  have htoken : equals ∈ firstToken equals (behindFirst equals part) := by
    unfold partValue trim ltrim rtrim at h
    have hrev := List.mem_reverse.mp ((List.dropWhile_sublist _).subset h)
    exact List.mem_reverse.mp ((List.dropWhile_sublist _).subset hrev)
  have hne := List.mem_takeWhile_imp htoken
  simp at hne

theorem exists_part {header name value : Bytes} (h : firstPair header = some (name, value)) :
    ∃ part ∈ tokens semicolon header, partName part = name := by
  unfold firstPair at h
  dsimp only at h
  split at h
  · rename_i hpair
    obtain ⟨hmem, hname⟩ := hpair
    cases h
    refine ⟨header.takeWhile (· ≠ semicolon), ?_, ?_⟩
    · cases header with
      | nil => cases hmem
      | cons a rest =>
        have ha : a ≠ semicolon := by
          rintro rfl
          rw [List.takeWhile_cons_of_neg (by simp)] at hmem
          cases hmem
        rw [tokens_of_ne ha]
        exact List.mem_cons_self
    · unfold partName firstToken
      -- a name in front of the first `=`
      generalize header.takeWhile (· ≠ semicolon) = part at hname ⊢
      cases part with
      | nil => exact absurd rfl hname
      | cons b rest =>
        have hb : b ≠ equals := by
          rintro rfl
          rw [List.takeWhile_cons_of_neg (by simp)] at hname
          exact hname rfl
        rw [List.dropWhile_cons_of_neg (by simpa using hb)]
  · cases h

theorem updated_of_some {header name value : Bytes} (h : firstPair header = some (name, value))
    (cookies : Cookies) : updated cookies header = cookies.insert name value := by
  unfold updated
  rw [h]

theorem updated_of_none {header : Bytes} (h : firstPair header = none) (cookies : Cookies) :
    updated cookies header = cookies := by
  unfold updated
  rw [h]

theorem mem_updated_empty {header : Bytes} {e : Bytes × Bytes} :
    e ∈ (updated SortedMap.empty header).entries ↔ firstPair header = some e := by
  cases h : firstPair header with
  | none =>
    rw [updated_of_none h]
    simp [SortedMap.empty]
  | some cookie =>
    rw [updated_of_some h, SortedMap.mem_insert]
    simp [SortedMap.empty, eq_comm]

theorem plain_of_exact {header : Bytes}
    (h : ∀ cookies, storeHeader cookies header = some (updated cookies header)) :
    Plain header := by
  have hnamed : ∀ part ∈ tokens semicolon header, ∃ b ∈ part, b ≠ equals := by
    intro part hpart
    by_contra hno
    push Not at hno
    have hfail := h SortedMap.empty
    unfold storeHeader at hfail
    rw [split_eq_tokens, foldlM_storePart_none hpart hno] at hfail
    cases hfail
  -- what is stored in an empty map is the first pair
  have hentries : ∀ e : Bytes × Bytes,
      SortedMap.lastValue (assignments header) e.1 = some e.2 ↔ firstPair header = some e := by
    intro e
    have hempty := h SortedMap.empty
    unfold storeHeader at hempty
    rw [split_eq_tokens, foldlM_storePart hnamed] at hempty
    rw [← mem_updated_empty, ← Option.some.inj hempty]
    refine Iff.trans ?_ (mem_foldl_assignments header SortedMap.empty e).symm
    simp [SortedMap.empty]
  have hkept : ∀ name value, firstPair header = some (name, value) → ∃ part,
      ignored (partName part) = false ∧ partName part = name ∧ partValue part = value := by
    intro name value hfirst
    have hmem := SortedMap.mem_of_lastValue ((hentries (name, value)).mpr hfirst)
    obtain ⟨part, hpart, heq⟩ := List.mem_map.mp hmem
    have hi := (List.mem_filter.mp hpart).2
    exact ⟨part, by simpa using hi, congrArg Prod.fst heq, congrArg Prod.snd heq⟩
  refine ⟨hnamed, ?_, ?_, ?_⟩
  · intro name value hfirst
    obtain ⟨part, hi, rfl, rfl⟩ := hkept name value hfirst
    exact ⟨hi, equals_notMem_partValue part⟩
  · intro part hpart
    cases hi : ignored (partName part) with
    | true => exact .inl rfl
    | false =>
      have hmem : (partName part, partValue part) ∈ assignments header :=
        List.mem_map_of_mem (f := fun part => (partName part, partValue part))
          (List.mem_filter.mpr ⟨hpart, by simp [hi]⟩)
      obtain ⟨value, hlast⟩ := SortedMap.lastValue_of_mem hmem
      exact .inr ⟨value, (hentries (partName part, value)).mp hlast⟩
  · intro name value hfirst part hpart
    obtain ⟨part', hi, rfl, -⟩ := hkept name value hfirst
    have hlast := (hentries (partName part', value)).mpr hfirst
    rw [lastValue_assignments hi, hpart] at hlast
    exact Option.some.inj hlast

theorem exact_of_plain {header : Bytes} (h : Plain header) (cookies : Cookies) :
    storeHeader cookies header = some (updated cookies header) := by
  unfold storeHeader
  rw [split_eq_tokens, foldlM_storePart h.named]
  refine congrArg some (SortedMap.ext_mem fun e => ?_)
  refine (mem_foldl_assignments header cookies e).trans ?_
  have hlast : ∀ name value, SortedMap.lastValue (assignments header) name = some value →
      ∃ value, firstPair header = some (name, value) := by
    intro name value hlast
    obtain ⟨part, hpart, heq⟩ := List.mem_map.mp (SortedMap.mem_of_lastValue hlast)
    obtain ⟨hmem, hi⟩ := List.mem_filter.mp hpart
    have hname : partName part = name := congrArg Prod.fst heq
    rw [← hname]
    exact (h.others part hmem).resolve_left (by simpa using hi)
  cases hfirst : firstPair header with
  | none =>
    rw [updated_of_none hfirst]
    have hnone : ∀ name, SortedMap.lastValue (assignments header) name = none := by
      intro name
      by_contra hsome
      obtain ⟨value, hvalue⟩ := Option.ne_none_iff_exists'.mp hsome
      obtain ⟨value', hpair⟩ := hlast name value hvalue
      rw [hfirst] at hpair
      cases hpair
    simp [hnone]
  | some cookie =>
    obtain ⟨name, value⟩ := cookie
    rw [updated_of_some hfirst, SortedMap.mem_insert]
    have hname : SortedMap.lastValue (assignments header) name = some value := by
      rw [lastValue_assignments (h.first name value hfirst).1]
      obtain ⟨part, hpart, heq⟩ := exists_part hfirst
      have hfind : ((tokens semicolon header).reverse.find? fun p => partName p = name).isSome =
          true := List.find?_isSome.mpr ⟨part, List.mem_reverse.mpr hpart, by simp [heq]⟩
      obtain ⟨last, hlastPart⟩ := Option.isSome_iff_exists.mp hfind
      rw [hlastPart, Option.map_some, h.repeated name value hfirst last hlastPart]
    by_cases he : e.1 = name
    · obtain ⟨k, x⟩ := e
      change k = name at he
      subst he
      simp [hname, eq_comm]
    · have hnone : SortedMap.lastValue (assignments header) e.1 = none := by
        by_contra hsome
        obtain ⟨value', hvalue⟩ := Option.ne_none_iff_exists'.mp hsome
        obtain ⟨value'', hpair⟩ := hlast e.1 value' hvalue
        rw [hfirst] at hpair
        exact he (Prod.mk.inj (Option.some.inj hpair)).1.symm
      have hne : e ≠ (name, value) := fun h => he (congrArg Prod.fst h)
      simp [hnone, hne, he]

theorem cookieText_eq (cookies : List (Bytes × Bytes)) :
    cookieText cookies =
      (bytes "; ").intercalate (cookies.map fun c => c.1 ++ bytes "=" ++ c.2) := by
  fun_induction cookieText cookies with
  | case1 => rfl
  | case2 it => simp
  | case3 it next rest ih =>
    rw [ih, List.map_cons (l := next :: rest), List.intercalate_cons_of_ne_nil (by simp)]

/-- The login stores the first pair of every header, header by header, and nothing
else, and `SetCookies` sends what is stored. -/
structure LoginExact (headers : List Bytes) : Prop where
  each : ∀ header ∈ headers, ∀ cookies,
    storeHeader cookies header = some (updated cookies header)
  all : ∀ cookies status, login cookies (some ⟨status, headers⟩) =
    some (if httpSuccess status = true ∧ headers ≠ [] then (1, headers.foldl updated cookies)
      else (0, cookies))
  sent : ∀ cookies client sending,
    client.cookies = (headers.foldl updated cookies).entries →
      Transfer.BaseClient.setCookies client sending =
        if (headers.foldl updated cookies).entries = [] then sending
        else sending ++ [(bytes "Cookie", cookieText (headers.foldl updated cookies).entries)]

theorem foldlM_storeHeader {headers : List Bytes} (h : ∀ header ∈ headers, ∀ cookies,
    storeHeader cookies header = some (updated cookies header)) (cookies : Cookies) :
    headers.foldlM storeHeader cookies = some (headers.foldl updated cookies) := by
  induction headers generalizing cookies with
  | nil => rfl
  | cons header headers ih =>
    rw [List.foldlM_cons, h header List.mem_cons_self, List.foldl_cons]
    exact ih (fun p hp => h p (List.mem_cons_of_mem _ hp)) _

theorem login_exact_iff (headers : List Bytes) :
    LoginExact headers ↔ ∀ header ∈ headers, Plain header := by
  constructor
  · exact fun h header hmem => plain_of_exact (h.each header hmem)
  · intro h
    have heach : ∀ header ∈ headers, ∀ cookies,
        storeHeader cookies header = some (updated cookies header) :=
      fun header hmem => exact_of_plain (h header hmem)
    refine ⟨heach, ?_, ?_⟩
    · intro cookies status
      unfold login
      dsimp only
      rw [foldlM_storeHeader heach]
      by_cases hstatus : httpSuccess status = true
      · by_cases hne : headers ≠ []
        · rw [if_pos hstatus, if_pos hne, if_pos ⟨hstatus, hne⟩]
          rfl
        · rw [if_pos hstatus, if_neg hne, if_neg fun h => hne h.2]
      · rw [if_neg hstatus, if_neg fun h => hstatus h.1]
    · intro cookies client sending hclient
      unfold Transfer.BaseClient.setCookies
      rw [hclient, cookieText_eq]

/-- An attribute that is not on the list, a value that ends in `=`, and a part
without a name. -/
theorem login_exact_iff_attribute : ¬ LoginExact [bytes "id=1; Path=/; HttpOnly"] ∧
    ¬ LoginExact [bytes "id=MQ=="] ∧ ¬ LoginExact [bytes "id=1;="] := by
  refine ⟨?_, ?_, ?_⟩
  · intro h
    have hplain := (login_exact_iff _).mp h _ (List.mem_singleton_self _)
    rcases hplain.others (bytes " HttpOnly") (by decide) with hi | ⟨value, hpair⟩
    · exact absurd hi (by decide)
    · have hname : (firstPair (bytes "id=1; Path=/; HttpOnly")).map Prod.fst = some (bytes "id") := by
        decide
      rw [hpair] at hname
      have heq : partName (bytes " HttpOnly") = bytes "id" := Option.some.inj hname
      exact absurd heq (by decide)
  · intro h
    have hplain := (login_exact_iff _).mp h _ (List.mem_singleton_self _)
    exact absurd (hplain.first (bytes "id") (bytes "MQ==") (by decide)).2 (by decide)
  · intro h
    have hplain := (login_exact_iff _).mp h _ (List.mem_singleton_self _)
    obtain ⟨b, hb, hne⟩ := hplain.named (bytes "=") (by decide)
    exact hne (List.mem_singleton.mp hb)

end EzRemote.Clients

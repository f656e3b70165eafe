import EzRemote.Lib.Tokens
import EzRemote.Transfer.Http

/-!
# Request paths

`BaseClient::GetFullPath`: what the single pass of `ReplaceAll` leaves of runs of
slashes.
-/

namespace EzRemote.Clients

open Transfer (BaseClient)

theorem head_replaceDoubleSlash (s : Bytes) : (replaceDoubleSlash s).head? = s.head? := by
  fun_induction replaceDoubleSlash s with
  | case1 => rfl
  | case2 b => rfl
  | case3 a b data h ih => rw [h.1]; rfl
  | case4 a b data h ih => rfl

theorem pair_prefix_iff {a b c : UInt8} {s : Bytes} :
    [a, b] <+: c :: s ↔ a = c ∧ s.head? = some b := by
  cases s with
  | nil => simp [List.cons_prefix_cons]
  | cons d s => simp [List.cons_prefix_cons, eq_comm]

theorem triple_prefix_iff {a b c d : UInt8} {s : Bytes} :
    [a, b, c] <+: d :: s ↔ a = d ∧ [b, c] <+: s := List.cons_prefix_cons

/-- Two slashes are left where there were three. -/
theorem double_slash_iff (s : Bytes) :
    [slash, slash] <:+: replaceDoubleSlash s ↔ [slash, slash, slash] <:+: s := by
  fun_induction replaceDoubleSlash s with
  | case1 => simp
  | case2 b => simp [List.infix_cons_iff, List.cons_prefix_cons]
  | case3 a b data h ih =>
    obtain ⟨rfl, rfl⟩ := h
    rw [List.infix_cons_iff, pair_prefix_iff, head_replaceDoubleSlash, ih, List.infix_cons_iff,
      List.infix_cons_iff, triple_prefix_iff, triple_prefix_iff, pair_prefix_iff]
    constructor
    · rintro (⟨-, hhead⟩ | hinfix)
      · exact .inl ⟨rfl, rfl, hhead⟩
      · exact .inr (.inr hinfix)
    · rintro (⟨-, -, hhead⟩ | ⟨-, hpair⟩ | hinfix)
      · exact .inl ⟨rfl, hhead⟩
      · obtain ⟨rest, rfl⟩ := hpair
        exact .inl ⟨rfl, rfl⟩
      · exact .inr hinfix
  | case4 a b data h ih =>
    -- the first two bytes are not both slashes, so neither run begins here
    have hleft : ¬[slash, slash] <+: a :: replaceDoubleSlash (b :: data) := by
      rw [pair_prefix_iff, head_replaceDoubleSlash]
      rintro ⟨rfl, hb⟩
      exact h ⟨rfl, by simpa using hb⟩
    have hright : ¬[slash, slash, slash] <+: a :: b :: data := by
      rw [triple_prefix_iff, pair_prefix_iff]
      rintro ⟨rfl, rfl, -⟩
      exact h ⟨rfl, rfl⟩
    rw [List.infix_cons_iff, List.infix_cons_iff, ih, or_iff_right hleft, or_iff_right hright]

theorem pair_prefix_join (base : Bytes) {path : Bytes} (hpath : path.head? ≠ some slash) :
    [slash, slash] <+: base ++ slash :: path ↔ [slash, slash] <+: base ∨ base = [slash] := by
  match base with
  | [] =>
    have hnot : ¬[slash, slash] <+: slash :: path := fun h => hpath (pair_prefix_iff.mp h).2
    simp [hnot]
  | [a] => simp [eq_comm]
  | a :: b :: base => simp

/-- Three slashes in a row across a join where what follows does not begin with one. -/
theorem triple_slash_join (base : Bytes) {path : Bytes} (hpath : path.head? ≠ some slash) :
    [slash, slash, slash] <:+: base ++ slash :: path ↔
      [slash, slash, slash] <:+: base ∨ [slash, slash] <:+ base ∨
        [slash, slash, slash] <:+: path := by
  induction base with
  | nil =>
    have hhead : ¬[slash, slash] <+: path := by
      rintro ⟨rest, rfl⟩
      exact hpath rfl
    rw [List.nil_append, List.infix_cons_iff, triple_prefix_iff]
    simp [hhead]
  | cons a base ih =>
    have hpair := pair_prefix_join base hpath
    have hsuffix : [slash, slash] = a :: base ↔ slash = a ∧ base = [slash] := by
      rw [List.cons_eq_cons, eq_comm (a := [slash])]
    rw [List.cons_append, List.infix_cons_iff, List.infix_cons_iff, List.suffix_cons_iff,
      triple_prefix_iff, triple_prefix_iff, hpair, hsuffix]
    rw [ih, and_or_left]
    -- a run that begins at `a` lies in `base` or reaches the join
    constructor
    · rintro ((hfirst | hjoin) | hbase | hend | hbehind)
      · exact .inl (.inl hfirst)
      · exact .inr (.inl (.inl hjoin))
      · exact .inl (.inr hbase)
      · exact .inr (.inl (.inr hend))
      · exact .inr (.inr hbehind)
    · rintro ((hfirst | hbase) | (hjoin | hend) | hbehind)
      · exact .inl (.inl hfirst)
      · exact .inr (.inl hbase)
      · exact .inl (.inr hjoin)
      · exact .inr (.inr (.inl hend))
      · exact .inr (.inr (.inr hbehind))

theorem tokens_replaceDoubleSlash (x s : Bytes) :
    tokens slash (x ++ replaceDoubleSlash s) = tokens slash (x ++ s) := by
  fun_induction replaceDoubleSlash s generalizing x with
  | case1 => rfl
  | case2 b => rfl
  | case3 a b data h ih =>
    obtain ⟨rfl, rfl⟩ := h
    have hrest : tokens slash (replaceDoubleSlash data) = tokens slash data := ih []
    rw [tokens_append_cons, tokens_append_cons, tokens_cons_self, hrest]
  | case4 a b data h ih =>
    have hnext := ih (x ++ [a])
    rwa [List.append_assoc, List.append_assoc, List.singleton_append,
      List.singleton_append] at hnext

/-- The path a caller names, without the spaces and then the slashes around it. -/
def trimmedPath (path : Bytes) : Bytes := trim (trim path (bytes " ")) (bytes "/")

/-- A request path as a server expects it. -/
structure Canonical (client : BaseClient) (path : Bytes) : Prop where
  /-- It starts with a slash. -/
  rooted : (client.getFullPath path).head? = some slash
  /-- No two of its slashes are next to each other. -/
  single : ¬[slash, slash] <:+: client.getFullPath path
  /-- Its segments are those of the base path and those of the path. -/
  segments : tokens slash (client.getFullPath path) =
    tokens slash client.basePath ++ tokens slash (trimmedPath path)

theorem head_trimmedPath (path : Bytes) : (trimmedPath path).head? ≠ some slash := by
  intro h
  let before := rtrim (trim path (bytes " ")) (bytes "/")
  have hhead : (before.dropWhile (· ∈ bytes "/")).head? = some slash := h
  have hnot := List.head?_dropWhile_not (fun b => b ∈ bytes "/") before
  rw [hhead] at hnot
  simp [bytes, slash] at hnot

theorem head_getFullPath (client : BaseClient) (path : Bytes)
    (hbase : client.basePath = [] ∨ client.basePath.head? = some slash) :
    (client.getFullPath path).head? = some slash := by
  unfold BaseClient.getFullPath
  rw [head_replaceDoubleSlash]
  rcases hbase with hbase | hbase
  · rw [hbase]
    rfl
  · rw [List.head?_append, hbase]
    rfl

theorem tokens_getFullPath (client : BaseClient) (path : Bytes) :
    tokens slash (client.getFullPath path) =
      tokens slash client.basePath ++ tokens slash (trimmedPath path) := by
  have hkeep := tokens_replaceDoubleSlash [] (client.basePath ++ slash :: trimmedPath path)
  rw [List.nil_append, List.nil_append, tokens_append_cons] at hkeep
  exact hkeep

/-- A request path is canonical exactly when no run of three slashes goes into
`ReplaceAll`: in the base path, at its end, or in the path. -/
theorem canonical_iff (client : BaseClient) (path : Bytes)
    (hbase : client.basePath = [] ∨ client.basePath.head? = some slash) :
    Canonical client path ↔
      ¬[slash, slash, slash] <:+: client.basePath ∧ ¬[slash, slash] <:+ client.basePath ∧
        ¬[slash, slash, slash] <:+: trimmedPath path := by
  have hsingle : [slash, slash] <:+: client.getFullPath path ↔
      [slash, slash, slash] <:+: client.basePath ∨ [slash, slash] <:+ client.basePath ∨
        [slash, slash, slash] <:+: trimmedPath path :=
    (double_slash_iff _).trans (triple_slash_join client.basePath (head_trimmedPath path))
  constructor
  · intro h
    have hnone := h.single
    rw [hsingle, not_or, not_or] at hnone
    exact hnone
  · intro h
    refine ⟨head_getFullPath client path hbase, ?_, tokens_getFullPath client path⟩
    rw [hsingle, not_or, not_or]
    exact h

/-- A client of a share with a base path, and a path with spaces and slashes around it. -/
theorem canonical_dav :
    Canonical { basePath := bytes "/dav", cookies := [] } (bytes " /a//b/ ") :=
  (canonical_iff { basePath := bytes "/dav", cookies := [] } (bytes " /a//b/ ") (.inr rfl)).mpr
    (by decide +kernel)

/-- Three slashes in a row become two. -/
theorem not_canonical_three_slashes :
    ¬∀ (client : BaseClient) (path : Bytes),
      client.basePath = [] ∨ client.basePath.head? = some slash → Canonical client path := by
  intro h
  have hsingle := (h { basePath := [], cookies := [] } (bytes "a///b") (.inl rfl)).single
  exact hsingle (by decide)

end EzRemote.Clients

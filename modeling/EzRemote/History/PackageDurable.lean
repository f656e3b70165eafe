import EzRemote.Lib.Durable
import EzRemote.History.Server

/-!
# The package map and its file

The package store is one whose file follows its memory: a record leaves both
only when a later record of its hash replaces it or when it is old.
-/

namespace EzRemote.History

open Download

variable {c : Cipher}

/-- A key without NUL and a timestamp that the clock has reached. -/
def Sound (clock : UInt64) (it : Bytes × PackageInstallData) : Prop :=
  0 ∉ it.1 ∧ it.2.timestamp.toNat ≤ clock.toNat

structure PackagesSound (c : Cipher) (clock : UInt64) (s : PackageStore) : Prop where
  entries : ∀ it ∈ s.pkgInstallHistory.entries, Sound clock it
  adds : ∀ it ∈ s.adds, Sound clock it
  adding : ∀ (k : Nat) it, s.handlers[k]? = some (.adding it) → Sound clock it
  file : s.file = none ∨ ∃ now m, (∀ it ∈ SortedMap.entries m, Sound clock it) ∧
    s.file = some (savePackageInstallHostData c now m).2

theorem Sound.mono {clock clock' : UInt64} {it : Bytes × PackageInstallData}
    (h : Sound clock it) (hle : clock.toNat ≤ clock'.toNat) : Sound clock' it :=
  ⟨h.1, Nat.le_trans h.2 hle⟩

theorem PackagesSound.mono {clock clock' : UInt64} {s : PackageStore}
    (h : PackagesSound c clock s) (hle : clock.toNat ≤ clock'.toNat) :
    PackagesSound c clock' s := by
  refine ⟨fun it hit => (h.entries it hit).mono hle, fun it hit => (h.adds it hit).mono hle,
    fun k it hk => (h.adding k it hk).mono hle, ?_⟩
  rcases h.file with hf | ⟨now, m, hm, hf⟩
  · exact .inl hf
  · exact .inr ⟨now, m, fun it hit => (hm it hit).mono hle, hf⟩

theorem adding_setHandler {s : PackageStore} {k j : Nat} {h : StoreHandler}
    {it : Bytes × PackageInstallData} (hj : (s.setHandler k h).handlers[j]? = some (.adding it)) :
    s.handlers[j]? = some (.adding it) ∨ h = .adding it := by
  change (s.handlers.set k h)[j]? = some (.adding it) at hj
  rw [List.getElem?_set] at hj
  split at hj
  · split at hj
    · exact .inr (Option.some.inj hj)
    · cases hj
  · exact .inl hj

theorem packagesSound_step {clock clock' : UInt64} {s s' : PackageStore} {k : Nat} {a : StoreAction}
    (h : PackagesSound c clock s) (hle : clock.toNat ≤ clock'.toNat)
    (hnow : ∀ now, a.clock = some now → now = clock') (st : StoreStep c s k a s') :
    PackagesSound c clock' s' := by
  have h' := h.mono hle
  cases st with
  | refuse => exact h'
  | accept req now pkgData hd =>
    refine ⟨h'.entries, h'.adds, ?_, h'.file⟩
    intro j it hj
    rcases adding_setHandler hj with hj | heq
    · exact h'.adding j it hj
    · cases heq
      unfold StoreRequest.pkgData at hd
      split at hd
      · cases hd
      · cases hd
        rw [← hnow now rfl]
        exact ⟨req.plain, Nat.le_refl _⟩
  | add it hk =>
    have hit : Sound clock' it := h'.adding k it hk
    refine ⟨?_, ?_, ?_, h'.file⟩
    · intro e he
      rcases SortedMap.mem_insert.mp he with rfl | ⟨he, -⟩
      · exact hit
      · exact h'.entries e he
    · intro e he
      rcases List.mem_append.mp he with he | he
      · exact h'.adds e he
      · exact List.mem_singleton.mp he ▸ hit
    · intro j e hj
      rcases adding_setHandler hj with hj | heq
      · exact h'.adding j e hj
      · cases heq
  | save now =>
    refine ⟨fun it hit => h'.entries it (List.mem_of_mem_filter hit), h'.adds, ?_,
      .inr ⟨now, s.pkgInstallHistory, h'.entries, rfl⟩⟩
    intro j e hj
    rcases adding_setHandler hj with hj | heq
    · exact h'.adding j e hj
    · cases heq

theorem boot_cases {clock : UInt64} {s s' : PackageStore} (h : PackagesSound c clock s)
    (hb : s.boot c = some s') :
    ∃ m', s' = { s with
        pkgInstallHistory := m'
        handlers := s.handlers.map fun _ => .idle
        adders := fun _ => none } ∧
      (∀ e ∈ m'.entries, Sound clock e) ∧
      ∀ o ∈ s.file.getD [], ∃ e ∈ m'.entries, loadPackageItem c o = some e := by
  obtain ⟨m', hm', rfl⟩ := Option.map_eq_some_iff.mp hb
  refine ⟨m', rfl, ?_⟩
  rcases h.file with hf | ⟨now, m, hm, hf⟩
  · rw [hf] at hm' ⊢
    cases hm'
    exact ⟨fun e he => (by cases he), fun o ho => (by cases ho)⟩
  · obtain ⟨m₁, hload, hentries⟩ := loadPackage_savePackage c now m fun it hit => (hm it hit).1
    rw [hf, Option.map_some, Option.getD_some, hload] at hm'
    cases hm'
    rw [hf, hentries]
    constructor
    · intro e he
      obtain ⟨e₀, he₀, rfl⟩ := List.mem_map.mp he
      exact ⟨zero_notMem_cStr _, (hm e₀ (List.mem_of_mem_filter he₀)).2⟩
    · intro o ho
      obtain ⟨e₀, he₀, rfl⟩ := List.mem_map.mp ho
      exact ⟨_, List.mem_map_of_mem he₀, loadPackageItem_savePackageItem c e₀⟩

theorem packagesSound_boot {clock : UInt64} {s s' : PackageStore} (h : PackagesSound c clock s)
    (hb : s.boot c = some s') : PackagesSound c clock s' := by
  obtain ⟨m', rfl, hm', -⟩ := boot_cases h hb
  refine ⟨hm', h.adds, ?_, h.file⟩
  intro k it hk
  obtain ⟨_, -, hidle⟩ := List.mem_map.mp (List.mem_of_getElem? hk)
  cases hidle

/-- The package store by the numbers of its records: those that the map holds
and those that the file does, and those that a later record of the same hash
replaced or that are old. -/
def PackageStore.durable (c : Cipher) (clock : UInt64) (s : PackageStore) : Durable Nat where
  memory := {i | ∃ it, s.adds[i]? = some it ∧
    ∃ e ∈ s.pkgInstallHistory.entries, reloadedPackage c e = reloadedPackage c it}
  file := {i | ∃ it, s.adds[i]? = some it ∧
    ∃ o ∈ s.file.getD [], loadPackageItem c o = some (reloadedPackage c it)}
  released := {i | ∃ it, s.adds[i]? = some it ∧
    (Old clock it.2.timestamp ∨ ∃ j it', i < j ∧ s.adds[j]? = some it' ∧ it'.1 = it.1)}
  returned := {i | i ∈ s.returned}
  pending := s.adders

theorem packages_released {clock clock' : UInt64} {s s' : PackageStore}
    (hle : clock.toNat ≤ clock'.toNat)
    (hadds : ∀ (i : Nat) it, s.adds[i]? = some it → s'.adds[i]? = some it) :
    (s.durable c clock).released ⊆ (s'.durable c clock').released := by
  rintro i ⟨it, hit, hold | ⟨j, it', hij, hj, hsame⟩⟩
  · exact ⟨it, hadds i it hit, .inl (hold.mono hle)⟩
  · exact ⟨it, hadds i it hit, .inr ⟨j, it', hij, hadds j it' hj, hsame⟩⟩

/-- Time alone releases records but moves none. -/
theorem packages_tick {clock clock' : UInt64} (s : PackageStore)
    (hle : clock.toNat ≤ clock'.toNat) :
    Durable.Step (s.durable c clock) (s.durable c clock') :=
  .keep (fun _ hi => .inl hi) (fun _ hi => .inl hi) (packages_released hle fun _ _ h => h) rfl rfl

theorem packages_step {clock clock' : UInt64} {s s' : PackageStore} {k : Nat} {a : StoreAction}
    (h : PackagesSound c clock s) (hle : clock.toNat ≤ clock'.toNat)
    (hnow : ∀ now, a.clock = some now → now = clock') (st : StoreStep c s k a s') :
    Durable.Step (s.durable c clock) (s'.durable c clock') := by
  cases st with
  | refuse => exact packages_tick s hle
  | accept => exact packages_tick s hle
  | add it hk =>
    have hadds : ∀ (i : Nat) e, s.adds[i]? = some e → (s.adds ++ [it])[i]? = some e := by
      intro i e he
      rw [List.getElem?_append_left (List.getElem?_eq_some_iff.mp he).1, he]
    have hnew : (s.adds ++ [it])[s.adds.length]? = some it := List.getElem?_concat_length
    refine .add k s.adds.length ?_ ?_ (packages_released hle hadds) rfl rfl
    · intro i hi
      rcases hi with rfl | ⟨it₀, hit₀, e, he, heq⟩
      · exact .inl ⟨it, hnew, it, SortedMap.mem_insert.mpr (.inl rfl), rfl⟩
      · by_cases hk : e.1 = it.1
        · -- the new record replaces this one
          have hsame : it.1 = it₀.1 := by
            have hkeys : cStr e.1 = cStr it₀.1 := congrArg Prod.fst heq
            rw [cStr_of_notMem (h.entries e he).1,
              cStr_of_notMem (h.adds it₀ (List.mem_of_getElem? hit₀)).1] at hkeys
            exact hk.symm.trans hkeys
          have hlt : i < s.adds.length := (List.getElem?_eq_some_iff.mp hit₀).1
          exact .inr ⟨it₀, hadds i it₀ hit₀, .inr ⟨s.adds.length, it, hlt, hnew, hsame⟩⟩
        · exact .inl ⟨it₀, hadds i it₀ hit₀, e, SortedMap.mem_insert.mpr (.inr ⟨he, hk⟩), heq⟩
    · rintro i ⟨it₀, hit₀, o, ho, hload⟩
      exact .inl ⟨it₀, hadds i it₀ hit₀, o, ho, hload⟩
  | save now =>
    have hclock : now = clock' := hnow now rfl
    -- a record of the map is written, or it is old
    have hkept : ∀ it e, e ∈ s.pkgInstallHistory.entries →
        reloadedPackage c e = reloadedPackage c it →
        e ∈ (s.pkgInstallHistory.filter (retainedPackage now)).entries ∨
          Old clock' it.2.timestamp := by
      intro it e he heq
      by_cases hr : retainedPackage now e = true
      · exact .inl (List.mem_filter.mpr ⟨he, hr⟩)
      · have htime : e.2.timestamp = it.2.timestamp := by
          have hdata : (reloadedPackage c e).2.timestamp = (reloadedPackage c it).2.timestamp := by
            rw [heq]
          exact hdata
        rw [← htime, ← hclock]
        refine .inr (old_of_dropped ?_ (of_decide_eq_false (Bool.eq_false_iff.mpr hr)))
        rw [hclock]
        exact Nat.le_trans (h.entries e he).2 hle
    refine .saveReturn k ?_ ?_ (packages_released hle fun _ _ h => h) ?_ rfl
    · rintro i ⟨it, hit, e, he, heq⟩
      rcases hkept it e he heq with hin | hold
      · exact .inl ⟨it, hit, e, hin, heq⟩
      · exact .inr ⟨it, hit, .inl hold⟩
    · rintro i ⟨it, hit, e, he, heq⟩
      rcases hkept it e he heq with hin | hold
      · refine .inl ⟨it, hit, savePackageItem c e, List.mem_map_of_mem hin, ?_⟩
        rw [loadPackageItem_savePackageItem, heq]
      · exact .inr ⟨it, hit, .inl hold⟩
    · ext i
      show i ∈ (s.adders k).toList ++ s.returned ↔ s.adders k = some i ∨ i ∈ s.returned
      rw [List.mem_append, Option.mem_toList]

/-- A record that was loaded is loaded again as it is. -/
def ReloadsPackages (c : Cipher) : Prop :=
  ∀ it, reloadedPackage c (reloadedPackage c it) = reloadedPackage c it

theorem packages_boot (hc : ReloadsPackages c) {clock : UInt64} {s s' : PackageStore}
    (h : PackagesSound c clock s) (hb : s.boot c = some s') :
    Durable.Step (s.durable c clock) (s'.durable c clock) := by
  obtain ⟨m', rfl, -, hloaded⟩ := boot_cases h hb
  refine .restart ?_ (fun _ hi => .inl hi) (packages_released (Nat.le_refl _) fun _ _ h => h) rfl rfl
  rintro i ⟨it, hit, o, hin, hload⟩
  obtain ⟨e, he, heq⟩ := hloaded o hin
  rw [hload] at heq
  cases heq
  exact .inl ⟨it, hit, _, he, hc it⟩

end EzRemote.History

import EzRemote.History.Package
import EzRemote.History.Password

/-!
# History files round-trip

Loading what a save wrote restores every record that the save retains, field by
field, except what the file does not hold: `http_server_type` of a host that is
no HTTP server and `remove_requested`.
-/

namespace EzRemote.History

open Download

/-- The values of an `int`. -/
def CInt (n : Int) : Prop := -2147483648 ≤ n ∧ n ≤ 2147483647

instance (n : Int) : Decidable (CInt n) := inferInstanceAs (Decidable (_ ∧ _))

/-- Not later than the clock and less than the retention period before it. -/
def Recent (now timestamp : UInt64) : Prop :=
  timestamp.toNat ≤ now.toNat ∧ now.toNat - timestamp.toNat < maxPkgHistoryRetention.toNat

/-- A host whose strings end nowhere early. -/
structure HostStorable (h : HostInfo) : Prop where
  type : CInt h.type
  url : 0 ∉ h.url
  httpServerType : 0 ∉ h.httpServerType
  username : 0 ∉ h.username
  password : 0 ∉ h.password

structure PackageStorable (it : Bytes × PackageInstallData) : Prop where
  hash : 0 ∉ it.1
  hostInfo : HostStorable it.2.hostInfo
  path : 0 ∉ it.2.path

structure DownloadStorable (r : BgDownloadData) : Prop where
  hostInfo : HostStorable r.hostInfo
  srcPath : 0 ∉ r.srcPath
  destPath : 0 ∉ r.destPath
  failedAttempts : CInt r.failedAttempts

/-- The same host, `http_server_type` only where it is saved. -/
def HostRestored (h h' : HostInfo) : Prop :=
  h'.account = h.account ∧
    (h.type = ClientType.httpServer.toInt → h'.httpServerType = h.httpServerType)

/-- The same key and, but for the host, the same record. -/
def PackageRestored (it it' : Bytes × PackageInstallData) : Prop :=
  HostRestored it.2.hostInfo it'.2.hostInfo ∧
    it' = (it.1, { it.2 with hostInfo := it'.2.hostInfo })

/-- But for the host and the flag, the same row. -/
def DownloadRestored (r r' : BgDownloadData) : Prop :=
  HostRestored r.hostInfo r'.hostInfo ∧
    r' = { r with hostInfo := r'.hostInfo, removeRequested := r'.removeRequested }

theorem clampInt32_eq {n : Int} (h : CInt n) : clampInt32 n = n := by
  unfold CInt at h
  unfold clampInt32
  omega

theorem retained_of_recent {now timestamp : UInt64} (h : Recent now timestamp) :
    now - timestamp < maxPkgHistoryRetention := by
  obtain ⟨hle, hlt⟩ := h
  rw [UInt64.lt_iff_toNat_lt, UInt64.toNat_sub_of_le _ _ (UInt64.le_iff_toNat_le.mpr hle)]
  exact hlt

variable {aes : Aes} {outside : Nat → UInt8}

theorem reloadedHost_restored (ha : aes.Lawful) (ho : ∀ k, outside k ≠ Base64.padding)
    {h : HostInfo} (hs : HostStorable h) :
    HostRestored h (reloadedHost (aes.cipher outside) h) := by
  have hpass := Aes.restored_password ha ho h.password
  dsimp only at hpass
  constructor
  · unfold HostInfo.account reloadedHost
    dsimp only
    rw [hpass, clampInt32_eq hs.type, cStr_of_notMem hs.url, cStr_of_notMem hs.username]
  · intro ht
    unfold reloadedHost
    dsimp only
    rw [if_pos ht, cStr_of_notMem hs.httpServerType]

theorem reloadedPackage_restored (ha : aes.Lawful) (ho : ∀ k, outside k ≠ Base64.padding)
    {it : Bytes × PackageInstallData} (hs : PackageStorable it) :
    PackageRestored it (reloadedPackage (aes.cipher outside) it) := by
  refine ⟨reloadedHost_restored ha ho hs.hostInfo, ?_⟩
  unfold reloadedPackage
  rw [cStr_of_notMem hs.hash, cStr_of_notMem hs.path]

theorem reloaded_restored (ha : aes.Lawful) (ho : ∀ k, outside k ≠ Base64.padding)
    {r : BgDownloadData} (hs : DownloadStorable r) :
    DownloadRestored r (reloaded (aes.cipher outside) r) := by
  refine ⟨reloadedHost_restored ha ho hs.hostInfo, ?_⟩
  unfold reloaded
  rw [cStr_of_notMem hs.srcPath, cStr_of_notMem hs.destPath, clampInt32_eq hs.failedAttempts]

theorem clampInt32_clampInt32 (n : Int) : clampInt32 (clampInt32 n) = clampInt32 n := by
  unfold clampInt32
  omega

theorem clampInt32_eq_httpServer (n : Int) :
    clampInt32 n = ClientType.httpServer.toInt ↔ n = ClientType.httpServer.toInt := by
  have hv : ClientType.httpServer.toInt = 4 := rfl
  rw [hv]
  unfold clampInt32
  omega

/-- What a load makes of a host it keeps in the next round. -/
theorem reloadedHost_reloadedHost (ha : aes.Lawful) (ho : ∀ k, outside k ≠ Base64.padding)
    (h : HostInfo) :
    reloadedHost (aes.cipher outside) (reloadedHost (aes.cipher outside) h) =
      reloadedHost (aes.cipher outside) h := by
  have hpass := Aes.restored_password ha ho h.password
  dsimp only at hpass
  unfold reloadedHost
  dsimp only
  rw [hpass, hpass, clampInt32_clampInt32, cStr_cStr, cStr_cStr]
  by_cases ht : h.type = ClientType.httpServer.toInt
  · rw [if_pos ht, if_pos ((clampInt32_eq_httpServer _).mpr ht), cStr_cStr]
  · rw [if_neg ht, if_neg (fun h' => ht ((clampInt32_eq_httpServer _).mp h'))]

theorem reloadedPackage_reloadedPackage (ha : aes.Lawful) (ho : ∀ k, outside k ≠ Base64.padding)
    (it : Bytes × PackageInstallData) :
    reloadedPackage (aes.cipher outside) (reloadedPackage (aes.cipher outside) it) =
      reloadedPackage (aes.cipher outside) it := by
  unfold reloadedPackage
  dsimp only
  rw [reloadedHost_reloadedHost ha ho, cStr_cStr, cStr_cStr]

/-- The keys come back in the order in which they were saved. -/
theorem loadPackage_savePackage (c : Cipher) (now : UInt64) (m : PkgInstallHistory)
    (hkeys : ∀ it ∈ m.entries, 0 ∉ it.1) :
    ∃ m', loadPackageInstallHostData c (savePackageInstallHostData c now m).2 = some m' ∧
      m'.entries = (m.entries.filter (retainedPackage now)).map (reloadedPackage c) := by
  let kept := m.entries.filter (retainedPackage now)
  have hload : (kept.map (savePackageItem c)).mapM (loadPackageItem c) =
      some (kept.map (reloadedPackage c)) := by
    induction kept with
    | nil => rfl
    | cons it kept ih =>
      rw [List.map_cons, List.mapM_cons, loadPackageItem_savePackageItem, ih]
      rfl
  have hsorted : (kept.map (reloadedPackage c)).Pairwise fun a b => a.1 < b.1 := by
    rw [List.pairwise_map]
    refine (m.sorted.filter _).imp_of_mem ?_
    intro a b ha hb hab
    show cStr a.1 < cStr b.1
    rwa [cStr_of_notMem (hkeys a (List.mem_of_mem_filter ha)),
      cStr_of_notMem (hkeys b (List.mem_of_mem_filter hb))]
  refine ⟨(kept.map (reloadedPackage c)).foldl
    (fun m it => addPackageInstallHostData m it.1 it.2) .empty, ?_, ?_⟩
  · unfold loadPackageInstallHostData
    show ((kept.map (savePackageItem c)).mapM (loadPackageItem c)).map _ = _
    rw [hload, Option.map_some]
  · exact SortedMap.foldl_insert _ .empty hsorted

/-- Both history files round-trip. -/
theorem history_round_trip (ha : aes.Lawful) (ho : ∀ k, outside k ≠ Base64.padding)
    (now : UInt64) :
    (∀ m : PkgInstallHistory,
      (∀ it ∈ m.entries, PackageStorable it ∧ Recent now it.2.timestamp) →
      ∃ m', loadPackageInstallHostData (aes.cipher outside)
          (savePackageInstallHostData (aes.cipher outside) now m).2 = some m' ∧
        List.Forall₂ PackageRestored m.entries m'.entries) ∧
    ∀ rows : List BgDownloadData,
      (∀ r ∈ rows, DownloadStorable r ∧ Recent now r.timestamp) →
      ∃ rows', loadBgDownloadData (aes.cipher outside)
          (saveBgDownloadData (aes.cipher outside) now rows) = some rows' ∧
        List.Forall₂ DownloadRestored rows rows' := by
  constructor
  · intro m hm
    obtain ⟨m', hload, hentries⟩ := loadPackage_savePackage (aes.cipher outside) now m
      fun it hit => (hm it hit).1.hash
    refine ⟨m', hload, ?_⟩
    have hall : m.entries.filter (retainedPackage now) = m.entries :=
      List.filter_eq_self.mpr fun it hit => decide_eq_true (retained_of_recent (hm it hit).2)
    rw [hentries, hall, List.forall₂_map_right_iff, List.forall₂_same]
    intro it hit
    exact reloadedPackage_restored ha ho (hm it hit).1
  · intro rows hrows
    have hall : rows.filter (retained now) = rows :=
      List.filter_eq_self.mpr fun r hr => decide_eq_true (retained_of_recent (hrows r hr).2)
    refine ⟨_, load_save _ now rows, ?_⟩
    rw [hall, List.forall₂_map_right_iff, List.forall₂_same]
    intro r hr
    exact reloaded_restored ha ho (hrows r hr).1

/-- Block padding as AES in CBC mode does it, around blocks that stay as they
are. -/
def paddedAes : Aes where
  encrypt text :=
    some (text ++ List.replicate (16 - text.length % 16) (UInt8.ofNat (16 - text.length % 16)))
  decrypt t :=
    if t = [] ∨ t.length % 16 ≠ 0 then none
    else some (t.take (t.length - (t.getLastD 0).toNat))

theorem paddedAes_lawful : paddedAes.Lawful where
  inverts text _ := by
    let pad := 16 - text.length % 16
    have hpad : 0 < pad ∧ pad ≤ 16 := by omega
    have hlast : (text ++ List.replicate pad (UInt8.ofNat pad)).getLastD 0 = UInt8.ofNat pad := by
      obtain ⟨n, hn⟩ := Nat.exists_eq_succ_of_ne_zero (Nat.ne_of_gt hpad.1)
      rw [hn, List.replicate_succ', ← List.append_assoc, List.getLastD_concat]
    have hnat : (UInt8.ofNat pad).toNat = pad :=
      UInt8.toNat_ofNat_of_lt' (Nat.lt_of_le_of_lt hpad.2 (by decide))
    refine ⟨_, rfl, ?_⟩
    show (if text ++ List.replicate pad (UInt8.ofNat pad) = [] ∨ _ then none else _) = _
    rw [if_neg, hlast, hnat, List.length_append, List.length_replicate, Nat.add_sub_cancel,
      List.take_left]
    rw [List.append_eq_nil_iff, List.replicate_eq_nil_iff, List.length_append,
      List.length_replicate]
    omega
  blocks text t h := by
    cases h
    rw [List.length_append, List.length_replicate, ne_eq, List.append_eq_nil_iff,
      List.replicate_eq_nil_iff]
    omega
  rejects := rfl

def savedPackage : Bytes × PackageInstallData :=
  (bytes "k.pkg",
    { hostInfo :=
        { type := 4, url := bytes "http://h", httpServerType := bytes "Nginx", username := [],
          password := bytes "secret" }
      path := bytes "/p", size := 9, timestamp := 5 })

def savedDownload : BgDownloadData :=
  { hostInfo := { type := 2, url := bytes "smb://h/s", httpServerType := [], username := [],
                  password := [] }
    srcPath := bytes "/a", destPath := bytes "/b", bytesTransfered := 1, fileSize := 3
    state := .downloading, id := 1, timestamp := 1000, failedAttempts := 0 }

/-- A package with a password and a row without one. -/
theorem history_round_trip_both :
    (∃ m', loadPackageInstallHostData (paddedAes.cipher fun _ => 0)
        (savePackageInstallHostData (paddedAes.cipher fun _ => 0) 2000
          ⟨[savedPackage], List.pairwise_singleton _ _⟩).2 = some m' ∧
      List.Forall₂ PackageRestored [savedPackage] m'.entries) ∧
    ∃ rows', loadBgDownloadData (paddedAes.cipher fun _ => 0)
        (saveBgDownloadData (paddedAes.cipher fun _ => 0) 2000 [savedDownload]) = some rows' ∧
      List.Forall₂ DownloadRestored [savedDownload] rows' := by
  have hzero : (0 : UInt8) ≠ Base64.padding := by decide
  have houtside : ∀ k, (fun _ : Nat => (0 : UInt8)) k ≠ Base64.padding := fun _ => hzero
  have hround := history_round_trip paddedAes_lawful houtside 2000
  constructor
  · apply hround.1 ⟨[savedPackage], List.pairwise_singleton _ _⟩
    intro it hit
    cases List.mem_singleton.mp hit
    exact ⟨⟨by decide, ⟨by decide, by decide, by decide, by decide, by decide⟩, by decide⟩,
      by unfold Recent; decide⟩
  · apply hround.2 [savedDownload]
    intro r hr
    cases List.mem_singleton.mp hr
    exact ⟨⟨⟨by decide, by decide, by decide, by decide, by decide⟩, by decide, by decide,
      by decide⟩, by unfold Recent; decide⟩

end EzRemote.History

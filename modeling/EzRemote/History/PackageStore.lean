import EzRemote.History.Package

/-!
# Requests that store packages

`/store_bg_install_data` adds its record to the package map and saves the map,
in two critical sections of `pkg_mutex_`.  Each added record has a number and
the numbers of the requests that have returned are recorded; nothing reads
either.
-/

namespace EzRemote.History

open Download

/-- What `/store_bg_install_data` reads from its JSON body; `JsonGetString`
returns the text up to a NUL. -/
structure StoreRequest where
  hash : Bytes
  hostInfo : HostInfo
  path : Bytes
  size : UInt64
  plain : 0 ∉ hash

/-- The record that the request adds; `none` is the answer that a parameter is
missing. -/
def StoreRequest.pkgData (req : StoreRequest) (now : UInt64) : Option PackageInstallData :=
  if req.hostInfo.url = [] ∨ req.hash = [] then none
  else some { hostInfo := req.hostInfo, path := req.path, size := req.size, timestamp := now }

/-- Where a handler of `/store_bg_install_data` is. -/
inductive StoreHandler
  | idle
  | adding (it : Bytes × PackageInstallData)
  | saving
  deriving DecidableEq, Repr

structure PackageStore where
  pkgInstallHistory : PkgInstallHistory
  file : Option (List JsonObject)
  handlers : List StoreHandler
  adds : List (Bytes × PackageInstallData)
  adders : Nat → Option Nat
  returned : List Nat

inductive StoreAction
  | storeBgInstallData (req : StoreRequest) (now : UInt64)
  | add
  | save (now : UInt64)

variable (c : Cipher)

namespace PackageStore

variable (s : PackageStore)

def setHandler (k : Nat) (h : StoreHandler) : PackageStore :=
  { s with handlers := s.handlers.set k h }

def add (k : Nat) (it : Bytes × PackageInstallData) : PackageStore :=
  { s with
    pkgInstallHistory := addPackageInstallHostData s.pkgInstallHistory it.1 it.2
    adds := s.adds ++ [it]
    adders := Function.update s.adders k (some s.adds.length) }

def save (k : Nat) (now : UInt64) : PackageStore :=
  let saved := savePackageInstallHostData c now s.pkgInstallHistory
  { s with
    pkgInstallHistory := saved.1
    file := some saved.2
    adders := Function.update s.adders k none
    returned := (s.adders k).toList ++ s.returned }

/-- One step of request handler `k`. -/
def stepHandler (k : Nat) : StoreHandler → StoreAction → Option PackageStore
  | .idle, .storeBgInstallData req now =>
    match req.pkgData now with
    | none => some s
    | some pkgData => some (s.setHandler k (.adding (req.hash, pkgData)))
  | .adding it, .add => some ((s.add k it).setHandler k .saving)
  | .saving, .save now => some ((s.save c k now).setHandler k .idle)
  | _, _ => none

def step (k : Nat) (a : StoreAction) : Option PackageStore :=
  (s.handlers[k]?).bind fun h => s.stepHandler c k h a

/-- A process that has just called `LoadPackageInstallHostData`. -/
def boot : Option PackageStore :=
  ((s.file.map (loadPackageInstallHostData c)).getD (some .empty)).map fun m =>
    { s with
      pkgInstallHistory := m
      handlers := s.handlers.map fun _ => .idle
      adders := fun _ => none }

/-- The store before the first process, with `n` handlers. -/
def initial (n : Nat) : PackageStore :=
  { pkgInstallHistory := .empty, file := none, handlers := List.replicate n .idle, adds := []
    adders := fun _ => none, returned := [] }

end PackageStore

/-- The steps of handler `k`; only the last two touch the map or the file. -/
inductive StoreStep (s : PackageStore) (k : Nat) : StoreAction → PackageStore → Prop
  | refuse (req : StoreRequest) (now : UInt64) : StoreStep s k (.storeBgInstallData req now) s
  | accept (req : StoreRequest) (now : UInt64) (pkgData : PackageInstallData)
      (hd : req.pkgData now = some pkgData) :
      StoreStep s k (.storeBgInstallData req now) (s.setHandler k (.adding (req.hash, pkgData)))
  | add (it : Bytes × PackageInstallData) (hk : s.handlers[k]? = some (.adding it)) :
      StoreStep s k .add ((s.add k it).setHandler k .saving)
  | save (now : UInt64) : StoreStep s k (.save now) ((s.save c k now).setHandler k .idle)

variable {c : Cipher}

theorem store_cases {s s' : PackageStore} {k : Nat} {a : StoreAction}
    (h : s.step c k a = some s') : StoreStep c s k a s' := by
  obtain ⟨hd, hk, hst⟩ := Option.bind_eq_some_iff.mp h
  cases hd with
  | idle =>
    cases a with
    | storeBgInstallData req now =>
      unfold PackageStore.stepHandler at hst
      dsimp only at hst
      split at hst
      · cases hst
        exact .refuse req now
      · cases hst
        exact .accept req now _ ‹_›
    | _ => cases hst
  | adding it =>
    cases a with
    | add =>
      cases hst
      exact .add it hk
    | _ => cases hst
  | saving =>
    cases a with
    | save now =>
      cases hst
      exact .save now
    | _ => cases hst

end EzRemote.History

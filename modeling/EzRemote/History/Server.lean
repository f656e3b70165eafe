import EzRemote.Download.Rows
import EzRemote.History.PackageStore
import EzRemote.History.Retention

/-!
# The server with both stores

The download system and the package store side by side, with the clock that all
their steps read.  It never goes back; a restart ends both at once.
-/

namespace EzRemote.History

open Download

structure Server where
  clock : UInt64
  downloads : Tracked
  packages : PackageStore

inductive ServerAction
  | download (a : TrackedAction)
  | package (k : Nat) (a : StoreAction)
  | restart

/-- The reading of the clock by a step of the download system. -/
def clockOf : TrackedAction → Option UInt64
  | .run (.thread (.save now)) | .run (.handler _ (.save now))
  | .run (.handler _ (.downloadUrl _ now)) => some now
  | _ => none

def StoreAction.clock : StoreAction → Option UInt64
  | .storeBgInstallData _ now | .save now => some now
  | .add => none

def tick (clock : UInt64) : Option UInt64 → Option UInt64
  | none => some clock
  | some now => if clock ≤ now then some now else none

variable (c : Cipher)

def serverStep (s : Server) : ServerAction → Option Server
  | .download a =>
    if a = .run .restart then none
    else (tick s.clock (clockOf a)).bind fun clock =>
      (trackedStep c s.downloads a).map fun t => { s with clock := clock, downloads := t }
  | .package k a =>
    (tick s.clock a.clock).bind fun clock =>
      (s.packages.step c k a).map fun p => { s with clock := clock, packages := p }
  | .restart =>
    (trackedStep c s.downloads (.run .restart)).bind fun t =>
      (s.packages.boot c).map fun p => { s with downloads := t, packages := p }

/-- Runs that begin with empty stores, with any number of handlers of each
kind. -/
def ServerReachable (ok : Server → ServerAction → Prop) : Server → Prop :=
  Transition.Reachable
    (fun s => ∃ clock n m l base, boot c none n = some base ∧
      s = ⟨clock, Tracked.start base m, .initial l⟩)
    (serverStep c) ok

def noRestart (_ : Server) : ServerAction → Prop
  | .restart => False
  | _ => True

theorem exists_serverReachable (clock : UInt64) (n m l : Nat) (as : List ServerAction)
    {β : Type} (f : Server → β) (b : β)
    (hr : ((boot c none n).bind fun base =>
      (Transition.run (serverStep c) Transition.anyStep ⟨clock, Tracked.start base m, .initial l⟩
        as).map f) = some b) :
    ∃ s, ServerReachable c Transition.anyStep s ∧ f s = b := by
  obtain ⟨base, hb, hrun⟩ := Option.bind_eq_some_iff.mp hr
  exact Transition.exists_reachable_of_run ⟨clock, n, m, l, base, hb, rfl⟩ as f b hrun

theorem tick_cases {clock clock' : UInt64} {r : Option UInt64} (h : tick clock r = some clock') :
    clock.toNat ≤ clock'.toNat ∧ ∀ now, r = some now → now = clock' := by
  cases r with
  | none =>
    cases h
    exact ⟨Nat.le_refl _, fun _ hn => by cases hn⟩
  | some now =>
    unfold tick at h
    dsimp only at h
    split at h
    · rename_i hle
      cases h
      refine ⟨UInt64.le_iff_toNat_le.mp hle, ?_⟩
      intro now hn
      cases hn
      rfl
    · cases h

theorem Old.mono {clock clock' timestamp : UInt64} (h : Old clock timestamp)
    (hle : clock.toNat ≤ clock'.toNat) : Old clock' timestamp :=
  Nat.le_trans h hle

/-- A save drops a record of the past only when it is old. -/
theorem old_of_dropped {now timestamp : UInt64} (hpast : timestamp.toNat ≤ now.toNat)
    (h : ¬ now - timestamp < maxPkgHistoryRetention) : Old now timestamp := by
  rw [age_lt_iff] at h
  by_contra hold
  exact h ⟨.inl hpast, hold⟩

end EzRemote.History

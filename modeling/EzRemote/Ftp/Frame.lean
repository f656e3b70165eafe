import EzRemote.Lib.Lockstep
import EzRemote.Ftp.Client

/-!
# What commands and replies leave alone

An invariant that the reader of lines, the events of the connections and the
error texts keep is kept by every function of `FtpClient` up to `FtpAccess`.
-/

namespace EzRemote.Ftp

/-- The handle without its buffer and its response. -/
def FtpHandle.kept (h : FtpHandle) : FtpHandle :=
  { h with buf := [], cget := 0, cavail := 0, cleft := 0, response := [] }

/-- The handle that a pass leaves. -/
def Pass.handle : Pass → FtpHandle
  | .done _ h => h
  | .more _ _ _ h => h

theorem readlineRest_kept (max bp retval : Nat) (h : FtpHandle) :
    (readlineRest max bp retval h).handle.kept = h.kept := by
  unfold readlineRest FtpHandle.rewind
  split
  · rfl
  · show FtpHandle.kept (if _ then _ else h) = h.kept
    split
    · rfl
    · rfl

theorem readlinePass_kept {max bp retval : Nat} {h : FtpHandle} {p : Pass}
    (hp : readlinePass max bp retval h = some p) : p.handle.kept = h.kept := by
  unfold readlinePass at hp
  by_cases hav : 0 < h.cavail
  · rw [if_pos hav] at hp
    generalize h.unread.take (if h.cavail ≤ max then h.cavail else max - 1) = src at hp
    dsimp only at hp
    split at hp
    · cases hp
    · split at hp
      · split at hp
        · cases hp
        · split at hp
          · cases hp
            rfl
          · cases hp
            rfl
      · cases hp
        exact readlineRest_kept _ _ _ _
  · rw [if_neg hav] at hp
    cases hp
    exact readlineRest_kept _ _ _ _

theorem readlineEof_kept {max bp retval : Nat} {h h' : FtpHandle} {wire wire' : List Recv}
    {result : Int} (heq : readlineEof max bp retval h wire = some (result, h', wire')) :
    h'.kept = h.kept := by
  unfold readlineEof at heq
  split at heq
  · cases heq
  · rename_i hpass
    cases heq
    exact readlinePass_kept hpass
  · rename_i hpass
    cases heq
    exact readlinePass_kept hpass

theorem readlineLoop_kept (wire : List Recv) {max bp retval : Nat} {h h' : FtpHandle}
    {wire' : List Recv} {result : Int}
    (heq : readlineLoop wire max bp retval h = some (result, h', wire')) : h'.kept = h.kept := by
  induction wire generalizing max bp retval h with
  | nil =>
    unfold readlineLoop at heq
    split at heq
    · cases heq
    · rename_i hpass
      cases heq
      exact readlinePass_kept hpass
    · rename_i hpass
      exact (readlineEof_kept heq).trans (readlinePass_kept hpass)
  | cons r wire ih =>
    unfold readlineLoop at heq
    split at heq
    · cases heq
    · rename_i hpass
      cases heq
      exact readlinePass_kept hpass
    · rename_i hpass
      have hmore := readlinePass_kept hpass
      split at heq
      · cases heq
        exact hmore
      · exact (readlineEof_kept heq).trans hmore
      · split at heq
        · cases heq
        · exact (ih heq).trans hmore

theorem readline_kept {P : FtpHandle → Prop} (hP : ∀ h g : FtpHandle, h.kept = g.kept → P h → P g) :
    Keeps (fun s => P s.h) readline := by
  intro s a s' h hr
  unfold readline at hr
  split at hr
  · cases hr
  · rename_i heq
    cases hr
    exact hP _ _ (readlineLoop_kept _ heq).symm h

section Reads

variable {I : Session → Prop} (hread : Keeps I readline)
include hread

theorem readUntil_keeps (matching : Bytes) (fuel : Nat) : Keeps I (readUntil matching fuel) := by
  induction fuel with
  | zero => exact Keeps.failure
  | succ fuel ih =>
    apply hread.bind
    intro x
    refine Keeps.ite (Keeps.pure _) ?_
    apply Keeps.get_bind
    intro s
    exact Keeps.ite (Keeps.pure _) ih

omit hread in
theorem expects_keeps (c : Bytes) : Keeps I (expects c) := by
  apply Keeps.get_bind
  intro s
  exact Keeps.ite (Keeps.pure _) (Keeps.pure _)

theorem readResponse_keeps (c : Bytes) : Keeps I (readResponse c) := by
  apply hread.bind
  intro x
  refine Keeps.ite (Keeps.pure _) ?_
  apply Keeps.get_bind
  intro s
  refine Keeps.ite ?_ (expects_keeps c)
  apply (readUntil_keeps hread _ _).bind
  intro found
  exact Keeps.ite (expects_keeps c) (Keeps.pure _)

end Reads

/-- An invariant that sending a line, waiting for the answer and reading it
keep. -/
structure Spoken (I : Session → Prop) : Prop where
  readline : Keeps I readline
  command : ∀ line sent, Keeps I (emit (.command line sent))
  arrive : ∀ answer s, I s → I { s with wire := s.wire ++ answer }

/-- One that the data connection and the error texts keep as well. -/
structure Framed (I : Session → Prop) : Prop extends Spoken I where
  closeControl : Keeps I (emit .closeControl)
  dial : ∀ address connected, Keeps I (emit (.dial address connected))
  response : ∀ text s, I s → I { s with h := { s.h with response := text } }

namespace Spoken

variable {I : Session → Prop} (hI : Spoken I)
include hI

theorem send_keeps (srv : Server) (line : Bytes) : Keeps I (send srv line) := by
  apply Keeps.get_bind
  intro s
  cases srv s.trace line with
  | none => exact (hI.command line false).bind fun _ => Keeps.pure _
  | some answer =>
    refine Keeps.bind (Keeps.modify fun s h => hI.arrive answer s h) fun _ => ?_
    exact (hI.command line true).bind fun _ => Keeps.pure _

theorem ftpSendCmd_keeps (srv : Server) (cmd expected : Bytes) :
    Keeps I (ftpSendCmd srv cmd expected) := by
  apply Keeps.get_bind
  intro s
  refine Keeps.ite (Keeps.pure _) (Keeps.ite (Keeps.pure _) (Keeps.ite Keeps.failure ?_))
  apply (hI.send_keeps srv _).bind
  intro sent
  exact Keeps.ite (readResponse_keeps hI.readline expected) (Keeps.pure _)

theorem ftpRest_keeps (srv : Server) : Keeps I (ftpRest srv) := by
  apply Keeps.get_bind
  intro s
  exact Keeps.ite (hI.ftpSendCmd_keeps srv _ _) (Keeps.pure _)

end Spoken

namespace Framed

variable {I : Session → Prop} (hI : Framed I)
include hI

theorem pasvAddress_keeps (w : World) : Keeps I (pasvAddress w) := by
  apply Keeps.get_bind
  intro s
  cases (cStr s.h.response).dropWhile (· ≠ 40) with
  | nil => exact Keeps.pure _
  | cons _ cp =>
    dsimp only
    cases scanNumbers 6 cp with
    | none => exact Keeps.failure
    | some v =>
      refine Keeps.ite ?_ (Keeps.pure _)
      unfold correctPasvResponse
      cases w.peer with
      | none => exact hI.closeControl.bind fun _ => Keeps.pure _
      | some address => exact Keeps.pure _

theorem ftpDial_keeps (w : World) (address : Bytes) : Keeps I (ftpDial w address) := by
  apply (hI.dial address w.connects).bind
  intro _
  refine Keeps.ite (Keeps.pure _) ?_
  apply (readResponse_keeps hI.readline _).bind
  intro ok
  refine Keeps.ite (Keeps.pure _) (Keeps.ite (Keeps.pure _) ?_)
  apply Keeps.get_bind
  intro s
  exact Keeps.pure _

theorem ftpOpenData_keeps (w : World) (srv : Server) (cmd address : Bytes) :
    Keeps I (ftpOpenData w srv cmd address) := by
  refine Keeps.ite (Keeps.pure _) (Keeps.ite (Keeps.pure _) ?_)
  apply Keeps.get_bind
  intro s
  refine Keeps.ite (Keeps.pure _) ?_
  apply (hI.send_keeps srv _).bind
  intro sent
  exact Keeps.ite (hI.ftpDial_keeps w address) (Keeps.pure _)

theorem ftpOpenPasv_keeps (w : World) (srv : Server) (cmd : Bytes) :
    Keeps I (ftpOpenPasv w srv cmd) := by
  apply Keeps.get_bind
  intro s
  refine Keeps.ite (Keeps.pure _) ?_
  apply (hI.ftpSendCmd_keeps srv _ _).bind
  intro ok
  refine Keeps.ite (Keeps.pure _) ?_
  apply (hI.pasvAddress_keeps w).bind
  intro address
  cases address with
  | none => exact Keeps.pure _
  | some address =>
    apply (hI.ftpRest_keeps srv).bind
    intro rest
    exact Keeps.ite (Keeps.pure _) (hI.ftpOpenData_keeps w srv cmd address)

theorem ftpAccess_keeps (w : World) (srv : Server) (path : Bytes) :
    Keeps I (ftpAccess w srv path) := by
  refine Keeps.ite ?_ ?_
  · exact (Keeps.modify fun s h => hI.response _ s h).bind fun _ => Keeps.pure _
  apply (hI.ftpSendCmd_keeps srv _ _).bind
  intro ok
  refine Keeps.ite (Keeps.pure _) (Keeps.ite (Keeps.pure _) ?_)
  apply (hI.ftpOpenPasv_keeps w srv _).bind
  intro r
  exact Keeps.ite (Keeps.pure _) (Keeps.pure _)

end Framed

theorem framed_of_kept {P : FtpHandle → Prop}
    (hP : ∀ h g : FtpHandle, h.kept = g.kept → P h → P g) : Framed fun s => P s.h where
  readline := readline_kept hP
  command _ _ := Keeps.modify fun _ h => h
  arrive _ _ h := h
  closeControl := Keeps.modify fun _ h => h
  dial _ _ := Keeps.modify fun _ h => h
  response _ s h := hP s.h _ rfl h

end EzRemote.Ftp

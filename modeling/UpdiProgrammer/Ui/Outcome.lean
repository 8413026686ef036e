import UpdiProgrammer.Ui.Scenes
import UpdiProgrammer.Ui.Release
import UpdiProgrammer.HostTest.RejectedFile

namespace UpdiProgrammer.Ui

open Updi UpdiSession Library.Program Prog Release HostTest

/-- The status that a finished operation leaves in the app, if it finishes. -/
def statusOf : Except Halt Unit → Option UpdiStatus
  | .ok _ => some (.ok ())
  | .error (.status e) => some (.error e)
  | .error _ => none

def outcomeScreen (op : UpdiOp) (r : UpdiStatus) (app : UpdiApp) : Screen :=
  if r = .ok () ∧ op = .connect then deviceInfoScreen app.session
  else if r = .ok () ∧ op = .readFuses then fusesScreen app
  else resultScreen (some op) r app.verifyMismatch (app.session.device.elim "" UpdiProgApp.dumpPath)

theorem statusOf_ok {r : Except Halt Unit} (h : statusOf r = some (.ok ())) : r = .ok () := by
  cases r with
  | ok u => rfl
  | error e => cases e <;> cases h

theorem statusOf_ne_none {r : Except Halt Unit} (htransport : r ≠ .error .nullTransport)
    (hdevice : r ≠ .error .nullDevice) : statusOf r ≠ none := by
  cases r with
  | ok u => exact nofun
  | error e =>
    cases e with
    | status e => exact nofun
    | nullDevice => exact absurd rfl hdevice
    | nullTransport => exact absurd rfl htransport

theorem resultScreen_congr {op : Option UpdiOp} {r : UpdiStatus} {m : Option UpdiVerifyMismatch}
    {path path' : String} (h : op = some .dump → r = .ok () → path = path') :
    resultScreen op r m path = resultScreen op r m path' := by
  cases r with
  | error e => rfl
  | ok u =>
    cases op with
    | none => rfl
    | some op =>
      cases op with
      | dump => rw [h rfl rfl]
      | connect | chipErase | flash | verify | readFuses => rfl

namespace Worker

variable {σ α β : Type} {t : UpdiTransport σ} {env : Env} {s : WorkerState σ}

/-- The device that the session has identified, and the one its controller addresses. -/
def identified (s : WorkerState σ) : Option UpdiDevice × Option UpdiDevice :=
  (s.app.session.device, s.app.session.nvmDevice)

/-- The session has identified a part of the table. -/
def Known (s : WorkerState σ) : Prop := ∃ d ∈ deviceTable, identified s = (some d, some d)

theorem identified_onSession {m : SessionM σ α} (h : Fixes found m) :
    Fixes identified (onSession m) := by
  intro s
  unfold onSession
  split_ifs
  · have hfound := h ⟨s.app.session, s.ctx⟩
    simp only [found, Prod.mk.injEq] at hfound
    exact Prod.ext hfound.1 hfound.2.1
  · rfl

theorem identified_updateApp {f : UpdiApp → UpdiApp} (hf : ∀ a, (f a).session = a.session) :
    Fixes identified (updateApp f : WorkerM σ Unit) := by
  refine .modify fun s ↦ ?_
  simp only [identified, hf]

theorem identified_sessionDevice : Fixes identified (sessionDevice : WorkerM σ UpdiDevice) := by
  intro s
  unfold sessionDevice
  cases s.app.session.device <;> rfl

theorem identified_readImage (d : UpdiDevice) :
    Fixes identified (readImage env d : WorkerM σ (List UInt8)) := by
  refine .ite (fun _ ↦ .fail) fun _ ↦ ?_
  split
  · exact .fail
  · exact .pure

theorem found_of_drop {m : SessionM σ α} (h : Fixes found (do let _ ← m : SessionM σ Unit)) :
    Fixes found m := by
  intro s
  rw [← drop_run]
  exact h s

theorem identified_verifyImage (image : List UInt8) : Fixes identified (verifyImage t image) := by
  have hverify : Fixes found (UpdiSession.verifyFlash t image) :=
    found_of_drop (@found_run _ t (.verifyFlash image) nofun)
  refine (identified_onSession hverify).bind fun r ↦ ?_
  cases r with
  | none => exact .pure
  | some m => exact Fixes.bind (identified_updateApp fun _ ↦ rfl) fun _ ↦ .fail

theorem identified_afterConnect (op : UpdiOp) : Fixes identified (afterConnect t env op) := by
  have herase : Fixes identified (onSession (UpdiSession.chipErase t)) :=
    identified_onSession (@found_run _ t .chipErase nofun)
  cases op with
  | connect => exact .pure
  | chipErase => exact herase.attempt
  | flash =>
    refine identified_sessionDevice.bind fun dev ↦ (identified_readImage dev).bind fun image ↦
      herase.bind fun _ ↦ ?_
    refine (identified_onSession (@found_run _ t (.writeFlash image) nofun)).bind fun _ ↦ ?_
    exact (identified_verifyImage image).attempt
  | verify =>
    refine identified_sessionDevice.bind fun dev ↦ (identified_readImage dev).bind fun image ↦ ?_
    exact (identified_verifyImage image).attempt
  | dump =>
    refine identified_sessionDevice.bind fun dev ↦ .ite (fun _ ↦ .fail) fun _ ↦ ?_
    have hread : Fixes found (UpdiSession.readFlash t dev.flashSize) :=
      found_of_drop (@found_run _ t (.readFlash dev.flashSize) nofun)
    refine (identified_onSession hread).bind fun buf ↦ .ite (fun _ ↦ .fail) fun _ ↦ ?_
    exact Fixes.bind (identified_updateApp fun _ ↦ rfl) fun _ ↦ .pure
  | readFuses =>
    refine identified_sessionDevice.bind fun dev ↦ ?_
    have hread (count : ℕ) : Fixes found (UpdiSession.readFuses t count) :=
      found_of_drop (@found_run _ t (.readFuses count) nofun)
    refine (identified_onSession (hread _)).attempt.bind fun st ↦ ?_
    exact Fixes.bind (identified_updateApp fun _ ↦ rfl) fun _ ↦ .pure

theorem known_connect :
    Triple (fun _ ↦ True) (onSession (connect t)) (fun _ ↦ Known) fun _ _ ↦ True := by
  intro s _
  by_cases hlink : s.app.linkTransport = true
  · rw [onSession_run hlink]
    rcases hrun : connect t ⟨s.app.session, s.ctx⟩ with ⟨e | u, s'⟩
    · trivial
    · obtain ⟨l₁, i, l₂, l₃, sig, l₄, d, -, -, -, -, hd, rfl⟩ := Connect.connect_eq_ok.mp hrun
      exact ⟨d, UpdiDevice.findById_mem hd, rfl⟩
  · have hrun : onSession (connect t) s = (.error .nullTransport, s) := if_neg hlink
    rw [hrun]
    trivial

theorem known_doConnect {allowErase : Bool} {s₁ : WorkerState σ}
    (h : doConnect t env allowErase s = (.ok (), s₁)) :
    Known s₁ := by
  obtain ⟨-, s₂, -, h⟩ := bind_eq_ok.mp h
  obtain ⟨_, s₃, hconn, h⟩ := bind_eq_ok.mp h
  cases h
  suffices hknown : Known s₃ from hknown
  unfold connectSession at hconn
  rw [attempt_bind_run] at hconn
  rcases hfirst : onSession (connect t) s₂ with ⟨r, s₄⟩
  rw [hfirst] at hconn
  have hkept (h : (ofStatus r : WorkerM σ Unit) s₄ = (.ok (), s₃)) : Known s₃ := by
    cases h
    exact known_connect.ok trivial hfirst
  cases r with
  | ok u => exact hkept hconn
  | error e =>
    cases e with
    | nullDevice | nullTransport => exact hkept hconn
    | status e =>
      cases e with
      | locked =>
        cases allowErase with
        | false => cases hconn
        | true =>
          obtain ⟨-, s₅, -, hconn⟩ := bind_eq_ok.mp hconn
          exact known_connect.ok trivial hconn
      | timeout | nack | protocol | param | verify | nvm | unsupported | transport =>
        exact hkept hconn

theorem doConnect_of_ok {op : UpdiOp} (h : (runOp t env op s).1 = .ok ()) :
    ∃ s₁, doConnect t env (allowsErase op) s = (.ok (), s₁) ∧
      identified (runOp t env op s).2 = identified s₁ ∧
      (runOp t env op s).2.app.linkTransport = true := by
  have hrun : runOp t env op s = (.ok (), (runOp t env op s).2) := Prod.ext h rfl
  generalize (runOp t env op s).2 = s' at hrun ⊢
  rw [runOp_eq] at hrun
  obtain ⟨st, s₂, huntil, hrun⟩ := bind_eq_ok.mp hrun
  obtain ⟨_, s₃, hdisc, hrun⟩ := bind_eq_ok.mp hrun
  obtain ⟨_, s₁, hconn, hafter⟩ := bind_eq_ok.mp huntil
  cases hrun
  have hkept := @identified_afterConnect _ t env op s₁
  have hkept' := identified_onSession (@found_disconnect _ t) s₂
  rw [hafter] at hkept
  rw [hdisc] at hkept'
  have hlink := (keeps_afterConnect op).ok (doConnect_live hconn).link hafter
  exact ⟨s₁, hconn, hkept'.trans hkept, (keeps_onSession _).ok hlink hdisc⟩

theorem known_of_ok {op : UpdiOp} (h : (runOp t env op s).1 = .ok ()) :
    Known (runOp t env op s).2 := by
  obtain ⟨s₁, hconn, hkept, -⟩ := doConnect_of_ok h
  unfold Known
  rw [hkept]
  exact known_doConnect hconn

theorem sessionDevice_run {d : UpdiDevice} (h : identified s = (some d, some d)) :
    sessionDevice s = (.ok d, s) := by
  have hdevice : s.app.session.device = some d := congrArg Prod.fst h
  simp only [sessionDevice, hdevice]

theorem dumpedDevice_of_ok (h : (runOp t env .dump s).1 = .ok ()) :
    UpdiProgApp.dumpedDevice t env s = (identified (runOp t env .dump s).2).1 := by
  obtain ⟨s₁, hrun₁, hkept, -⟩ := doConnect_of_ok h
  have hconn : doConnect t env false s = (.ok (), s₁) := hrun₁
  obtain ⟨d, -, hd⟩ := known_doConnect hconn
  have hdev := sessionDevice_run hd
  have hrun : opDump t env s = (.ok (), (runOp t env .dump s).2) := Prod.ext h rfl
  unfold opDump at hrun
  rw [bind_ok hconn, bind_ok hdev] at hrun
  rw [hkept, hd]
  unfold UpdiProgApp.dumpedDevice
  rw [bind_ok hconn, bind_ok hdev]
  cases hmalloc : env.malloc with
  | false =>
    rw [hmalloc] at hrun
    cases hrun
  | true =>
    rw [hmalloc] at hrun
    obtain ⟨buf, s₂, hread, -⟩ := bind_eq_ok.mp hrun
    exact congrArg (fun r ↦ r.1.toOption) (bind_ok hread fun _ ↦ pure d)

section Status

theorem guards_device : Guards (fun s : SessionState σ ↦ s.session.nvmDevice ≠ none) .nullDevice :=
  ⟨fun _ _ h ↦ h, fun _ h ↦ h, fun _ ↦ Halt.noConfusion, fun _ h hnone ↦ absurd hnone h⟩

/-- A part of an operation that goes through no null device once the part is known. -/
def Steered (m : WorkerM σ α) : Prop :=
  Triple Known m (fun _ ↦ Known) fun e s ↦ Known s ∧ e ≠ .nullDevice

theorem Steered.bind {m : WorkerM σ α} {k : α → WorkerM σ β} (hm : Steered m)
    (hk : ∀ a, Steered (k a)) :
    Steered (m >>= k) := Triple.bind hm hk

theorem steered_fail (e : UpdiErr) : Steered (fail (.status e) : WorkerM σ α) :=
  .fail fun _ hs ↦ ⟨hs, Halt.noConfusion⟩

theorem steered_onSession {m : SessionM σ α}
    (hm : NeverFrom (fun s ↦ s.session.nvmDevice ≠ none) .nullDevice m) (hfix : Fixes found m) :
    Steered (onSession m) := by
  intro s hs
  have hkept := identified_onSession hfix s
  obtain ⟨d, hmem, hd⟩ := hs
  have hdevice : s.app.session.nvmDevice = some d := congrArg Prod.snd hd
  have hnvm : s.app.session.nvmDevice ≠ none := by
    rw [hdevice]
    exact Option.some_ne_none d
  have hknown : Known (onSession m s).2 := ⟨d, hmem, hkept.trans hd⟩
  have hrun := hm ⟨s.app.session, s.ctx⟩ hnvm
  by_cases hlink : s.app.linkTransport = true
  · rw [onSession_run hlink] at hknown ⊢
    rcases hm : m ⟨s.app.session, s.ctx⟩ with ⟨e | a, u⟩ <;> rw [hm] at hrun hknown
    · exact ⟨hknown, hrun⟩
    · exact hknown
  · have hnone : onSession m s = (.error .nullTransport, s) := if_neg hlink
    rw [hnone] at hknown ⊢
    exact ⟨hknown, Halt.noConfusion⟩

theorem steered_updateApp {f : UpdiApp → UpdiApp} (hf : ∀ a, (f a).session = a.session) :
    Steered (updateApp f : WorkerM σ Unit) := by
  intro s hs
  obtain ⟨d, hmem, hd⟩ := hs
  exact ⟨d, hmem, (identified_updateApp hf s).trans hd⟩

theorem steered_sessionDevice : Steered (sessionDevice : WorkerM σ UpdiDevice) := by
  intro s hs
  obtain ⟨d, hmem, hd⟩ := hs
  rw [sessionDevice_run hd]
  exact ⟨d, hmem, hd⟩

theorem steered_readImage (d : UpdiDevice) :
    Steered (readImage env d : WorkerM σ (List UInt8)) := by
  refine Triple.ite (fun _ ↦ steered_fail _) fun _ ↦ ?_
  split
  · exact steered_fail _
  · exact .pure fun _ hs ↦ hs

theorem steered_verifyImage (image : List UInt8) : Steered (verifyImage t image) := by
  have hverify := found_of_drop (@found_run _ t (.verifyFlash image) nofun)
  refine (steered_onSession (guards_device.neverFrom_verifyFlash image) hverify).bind fun r ↦ ?_
  cases r with
  | none => exact .pure fun _ hs ↦ hs
  | some m => exact Steered.bind (steered_updateApp fun _ ↦ rfl) fun _ ↦ steered_fail _

theorem steered_attempt {m : WorkerM σ α} (hm : Steered m) : Triple Known (attempt m)
    (fun r s ↦ Known s ∧ r ≠ .error .nullDevice) fun e s ↦ Known s ∧ e ≠ .nullDevice := by
  refine .attempt (hm.conseq (fun _ hs ↦ hs) (fun _ _ hs ↦ ⟨hs, nofun⟩) fun e s hs ↦
    ⟨hs.1, fun he ↦ ?_⟩)
  exact hs.2 (Except.error.inj he)

theorem steered_afterConnect (op : UpdiOp) : Triple Known (afterConnect t env op)
    (fun r s ↦ Known s ∧ r ≠ .error .nullDevice) fun e s ↦ Known s ∧ e ≠ .nullDevice := by
  have herase : Steered (onSession (UpdiSession.chipErase t)) :=
    steered_onSession guards_device.neverFrom_chipErase (@found_run _ t .chipErase nofun)
  cases op with
  | connect => exact .pure fun _ hs ↦ ⟨hs, nofun⟩
  | chipErase => exact steered_attempt herase
  | flash =>
    refine Triple.bind steered_sessionDevice fun dev ↦ Triple.bind (steered_readImage dev)
      fun image ↦ Triple.bind herase fun _ ↦ ?_
    refine Triple.bind (steered_onSession (guards_device.neverFrom_writeFlash image)
      (@found_run _ t (.writeFlash image) nofun)) fun _ ↦ ?_
    exact steered_attempt (steered_verifyImage image)
  | verify =>
    refine Triple.bind steered_sessionDevice fun dev ↦ Triple.bind (steered_readImage dev)
      fun image ↦ ?_
    exact steered_attempt (steered_verifyImage image)
  | dump =>
    refine Triple.bind steered_sessionDevice fun dev ↦ ?_
    refine Triple.ite (fun _ ↦ .fail fun _ hs ↦ ⟨hs, Halt.noConfusion⟩) fun _ ↦ ?_
    have hread := found_of_drop (@found_run _ t (.readFlash dev.flashSize) nofun)
    refine Triple.bind (steered_onSession (guards_device.neverFrom_readFlash dev.flashSize) hread)
      fun buf ↦ ?_
    refine Triple.ite (fun _ ↦ .fail fun _ hs ↦ ⟨hs, Halt.noConfusion⟩) fun _ ↦ ?_
    rcases Hex.write buf 0 32 (hexFileSink env.storageWrite) ⟨[], 0, true⟩ with ⟨status, sink⟩
    refine Triple.bind (steered_updateApp fun _ ↦ rfl) fun _ ↦ .pure fun s hs ↦ ⟨hs, ?_⟩
    split_ifs <;> simp
  | readFuses =>
    refine Triple.bind steered_sessionDevice fun dev ↦ ?_
    have hread (count : ℕ) := found_of_drop (@found_run _ t (.readFuses count) nofun)
    refine Triple.bind
      (steered_attempt (steered_onSession (guards_device.neverFrom_readFuses _) (hread _)))
        fun st s hs ↦ ?_
    obtain ⟨hknown, hst⟩ := hs
    refine ⟨hknown, ?_⟩
    cases st with
    | ok l => exact nofun
    | error e => exact fun he ↦ hst (congrArg Except.error (Except.error.inj he))

theorem runOp_ne_nullDevice (op : UpdiOp) : (runOp t env op s).1 ≠ .error .nullDevice := by
  have hafter :
      Triple Known (afterConnect t env op >>= fun st ↦
        onSession (UpdiSession.disconnect t) >>= fun _ ↦
      ofStatus st) (fun _ _ ↦ True) fun e _ ↦ e ≠ .nullDevice := by
    refine Triple.bind ((steered_afterConnect op).conseq (fun _ h ↦ h) (fun _ _ h ↦ h) fun _ _ h ↦
      h.2) fun st s hs ↦ ?_
    obtain ⟨hknown, hst⟩ := hs
    have hdisc :=
      steered_onSession (guards_device.neverFrom_disconnect (t := t)) found_disconnect s hknown
    rw [bind_run]
    rcases hr : onSession (UpdiSession.disconnect t) s with ⟨e | u, s'⟩ <;> rw [hr] at hdisc
    · exact hdisc.2
    · cases st with
      | ok u => trivial
      | error e => exact fun he ↦ hst (congrArg Except.error he)
  intro hnull
  rw [runOp_eq, untilDisconnect, Prog.bind_assoc, bind_run] at hnull
  rcases hconn : doConnect t env (allowsErase op) s with ⟨e | u, s₁⟩
  · rw [hconn] at hnull
    exact (never_nullDevice_doConnect _).run_ne s ((congrArg Prod.fst hconn).trans hnull)
  · rw [hconn] at hnull
    exact hafter.error (known_doConnect hconn) (Prod.ext hnull rfl) rfl

end Status

end Worker

end UpdiProgrammer.Ui

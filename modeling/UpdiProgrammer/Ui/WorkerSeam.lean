import UpdiProgrammer.Updi.Seam
import UpdiProgrammer.Ui.Programmer

namespace UpdiProgrammer.Ui

open Updi Library.Program

namespace Worker

variable {σ τ α : Type} {R : σ → τ → Prop} {t : UpdiTransport σ} {t' : UpdiTransport τ} {env : Env}

/-- Two workers with the same app, over related contexts. -/
def OverWorker (R : σ → τ → Prop) (s : WorkerState σ) (u : WorkerState τ) : Prop :=
  s.app = u.app ∧ R s.ctx u.ctx

theorem agrees_onSession {m : SessionM σ α} {p : SessionM τ α}
    (hm : Agrees (OverSession (OverLine R)) m p) :
    Agrees (OverWorker R) (onSession m) (onSession p) := by
  have hzoom : Agrees (OverWorker R)
      (Prog.zoom (fun s : WorkerState σ ↦ ⟨s.app.session, s.ctx⟩)
        (fun u s ↦ { s with app := { s.app with session := u.session }, ctx := u.ctx }) id m)
      (Prog.zoom (fun s : WorkerState τ ↦ ⟨s.app.session, s.ctx⟩)
        (fun u s ↦ { s with app := { s.app with session := u.session }, ctx := u.ctx }) id p) := by
    apply hm.zoom
    · intro s u hR
      exact ⟨congrArg UpdiApp.session hR.1, congrArg (·.session.link) hR.1, hR.2⟩
    · intro s u v w hR hv
      exact ⟨by rw [hR.1, hv.session], hv.line.2⟩
  intro s u hR
  unfold onSession
  rw [← hR.1]
  split_ifs
  · exact hzoom s u hR
  · exact ⟨rfl, hR⟩

theorem agrees_updateApp (f : UpdiApp → UpdiApp) :
    Agrees (OverWorker R) (updateApp f) (updateApp f) := by
  apply Agrees.modify
  intro s u hR
  exact ⟨congrArg f hR.1, hR.2⟩

theorem agrees_ensureTransport :
    Agrees (OverWorker R) (ensureTransport env) (ensureTransport env) := by
  apply Agrees.bind
  · apply Agrees.read
    intro s u hR
    rw [hR.1]
  · intro transport
    refine .ite (fun _ ↦ ?_) fun _ ↦ .pure
    exact (agrees_updateApp _).bind fun _ ↦ .ite (fun _ ↦ .fail) fun _ ↦ agrees_updateApp _

/-- A change of the app that leaves the way to the part alone. -/
structure ShowsOnly (f : UpdiApp → UpdiApp) : Prop where
  transport : ∀ a, (f a).transport = a.transport
  linkTransport : ∀ a, (f a).linkTransport = a.linkTransport
  session : ∀ a, (f a).session = a.session

/-- Workers related by `R`, of which `t` and `t'` answer alike every call that the
worker makes: it keeps to the flash of a device that a connect finds. -/
structure AlikeCalls (R : WorkerState σ → WorkerState τ → Prop) (found : UpdiDevice → Prop)
    (t : UpdiTransport σ) (t' : UpdiTransport τ) : Prop where
  app : ∀ s u, R s u → s.app = u.app
  device : ∀ s u d, R s u → s.app.session.device = some d → found d
  updateApp : ∀ f, ShowsOnly f → Agrees R (updateApp f) (updateApp f)
  ensureTransport : ∀ env, Agrees R (ensureTransport env) (ensureTransport env)
  connect : Agrees R (onSession (UpdiSession.connect t)) (onSession (UpdiSession.connect t'))
  unlock : Agrees R (onSession (UpdiSession.unlock t)) (onSession (UpdiSession.unlock t'))
  disconnect :
    Agrees R (onSession (UpdiSession.disconnect t)) (onSession (UpdiSession.disconnect t'))
  chipErase : Agrees R (onSession (UpdiSession.chipErase t)) (onSession (UpdiSession.chipErase t'))
  writeFlash : ∀ d image, found d → image.length ≤ d.flashSize →
    Agrees R (onSession (UpdiSession.writeFlash t image))
      (onSession (UpdiSession.writeFlash t' image))
  verifyFlash : ∀ d image, found d → image.length ≤ d.flashSize →
    Agrees R (onSession (UpdiSession.verifyFlash t image))
      (onSession (UpdiSession.verifyFlash t' image))
  readFlash : ∀ d, found d →
    Agrees R (onSession (UpdiSession.readFlash t d.flashSize))
      (onSession (UpdiSession.readFlash t' d.flashSize))
  readFuses : ∀ count, Agrees R (onSession (UpdiSession.readFuses t count))
    (onSession (UpdiSession.readFuses t' count))

theorem alikeCalls_of_alike (h : t.Alike R t') : AlikeCalls (OverWorker R) (fun _ ↦ True) t t' where
  app _ _ hR := hR.1
  device _ _ _ _ _ := trivial
  updateApp f _ := agrees_updateApp f
  ensureTransport _ := agrees_ensureTransport
  connect := agrees_onSession (compares_connect h.compared)
  unlock := agrees_onSession (compares_unlockSession h.compared)
  disconnect := agrees_onSession (agrees_disconnect h.link)
  chipErase := agrees_onSession (compares_eraseChip h.compared)
  writeFlash _ image _ _ := agrees_onSession (compares_writeFlash h.compared image)
  verifyFlash _ image _ _ := agrees_onSession (agrees_verifyFlash h.link image)
  readFlash d _ := agrees_onSession (agrees_readFlash h.link d.flashSize)
  readFuses count := agrees_onSession (agrees_readFuses h.link count)

section Operations

variable {RW : WorkerState σ → WorkerState τ → Prop} {found : UpdiDevice → Prop}

theorem agrees_readImage {d : UpdiDevice} {k : List UInt8 → WorkerM σ α}
    {j : List UInt8 → WorkerM τ α}
    (h : ∀ image, image.length ≤ d.flashSize → Agrees RW (k image) (j image)) :
    Agrees RW (readImage env d >>= k) (readImage env d >>= j) := by
  intro s u hR
  rw [Prog.bind_run, Prog.bind_run, readImage_run, readImage_run]
  cases himage : env.image d.flashSize with
  | none => exact ⟨rfl, hR⟩
  | some image => exact h image (image_le himage) s u hR

variable (h : AlikeCalls RW found t t')
include h

theorem agrees_sessionDevice {k : UpdiDevice → WorkerM σ α} {j : UpdiDevice → WorkerM τ α}
    (hk : ∀ d, found d → Agrees RW (k d) (j d)) :
    Agrees RW (sessionDevice >>= k) (sessionDevice >>= j) := by
  intro s u hR
  have happ := h.app s u hR
  rw [Prog.bind_run, Prog.bind_run]
  unfold sessionDevice
  rw [← happ]
  cases hdevice : s.app.session.device with
  | none => exact ⟨rfl, hR⟩
  | some d => exact hk d (h.device s u d hR hdevice) s u hR

theorem agrees_update_bind {f : UpdiApp → UpdiApp} {k : Unit → WorkerM σ α} {j : Unit → WorkerM τ α}
    (hf : ShowsOnly f) (hk : Agrees RW (k ()) (j ())) :
    Agrees RW (updateApp f >>= k) (updateApp f >>= j) :=
  (h.updateApp f hf).bind fun _ ↦ hk

theorem agrees_connectSession (allowErase : Bool) :
    Agrees RW (connectSession t allowErase) (connectSession t' allowErase) := by
  apply h.connect.attempt.bind
  intro r
  split
  · exact .ite (fun _ ↦ h.unlock.bind fun _ ↦ h.connect) fun _ ↦ .fail
  · exact .ofStatus

theorem agrees_doConnect (allowErase : Bool) :
    Agrees RW (doConnect t env allowErase) (doConnect t' env allowErase) := by
  refine (h.ensureTransport env).bind fun _ ↦ (agrees_connectSession h allowErase).bind fun _ ↦ ?_
  exact h.updateApp _ ⟨fun _ ↦ rfl, fun _ ↦ rfl, fun _ ↦ rfl⟩

theorem agrees_verifyImage {d : UpdiDevice} {image : List UInt8} (hd : found d)
    (hlen : image.length ≤ d.flashSize) :
    Agrees RW (verifyImage t image) (verifyImage t' image) := by
  apply (h.verifyFlash d image hd hlen).bind
  intro r
  cases r with
  | none => exact .pure
  | some m => exact agrees_update_bind h ⟨fun _ ↦ rfl, fun _ ↦ rfl, fun _ ↦ rfl⟩ .fail

theorem agrees_release {m : WorkerM σ α} {p : WorkerM τ α} (hm : Agrees RW m p) :
    Agrees RW (onSession (UpdiSession.disconnect t) >>= fun _ ↦ m)
      (onSession (UpdiSession.disconnect t') >>= fun _ ↦ p) := h.disconnect.bind fun _ ↦ hm

theorem agrees_runOp (op : UpdiOp) : Agrees RW (runOp t env op) (runOp t' env op) := by
  cases op with
  | connect => exact (agrees_doConnect h false).bind fun _ ↦ h.disconnect
  | chipErase =>
    exact (agrees_doConnect h true).bind fun _ ↦ h.chipErase.attempt.bind fun _ ↦
      agrees_release h .ofStatus
  | flash =>
    refine (agrees_doConnect h true).bind fun _ ↦ agrees_sessionDevice h fun d hd ↦ ?_
    refine agrees_readImage fun image hlen ↦ h.chipErase.bind fun _ ↦
      (h.writeFlash d image hd hlen).bind fun _ ↦ ?_
    exact (agrees_verifyImage h hd hlen).attempt.bind fun _ ↦ agrees_release h .ofStatus
  | verify =>
    refine (agrees_doConnect h false).bind fun _ ↦ agrees_sessionDevice h fun d hd ↦ ?_
    refine agrees_readImage fun image hlen ↦ ?_
    exact (agrees_verifyImage h hd hlen).attempt.bind fun _ ↦ agrees_release h .ofStatus
  | dump =>
    refine (agrees_doConnect h false).bind fun _ ↦ agrees_sessionDevice h fun d hd ↦ ?_
    refine .ite (fun _ ↦ .fail) fun _ ↦ (h.readFlash d hd).bind fun buf ↦
      .ite (fun _ ↦ .fail) fun _ ↦ ?_
    rcases Hex.write buf 0 32 (hexFileSink env.storageWrite) ⟨[], 0, true⟩ with ⟨hs, sink⟩
    refine agrees_update_bind h ⟨fun _ ↦ rfl, fun _ ↦ rfl, fun _ ↦ rfl⟩ (agrees_release h ?_)
    exact .ite (fun _ ↦ .pure) fun _ ↦ .fail
  | readFuses =>
    refine (agrees_doConnect h false).bind fun _ ↦ agrees_sessionDevice h fun d hd ↦ ?_
    refine (h.readFuses _).attempt.bind fun _ ↦ ?_
    exact agrees_update_bind h ⟨fun _ ↦ rfl, fun _ ↦ rfl, fun _ ↦ rfl⟩ (agrees_release h .ofStatus)

end Operations

end Worker

end UpdiProgrammer.Ui

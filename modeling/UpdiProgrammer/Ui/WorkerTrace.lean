import UpdiProgrammer.Updi.Connect
import UpdiProgrammer.Ui.Worker

namespace UpdiProgrammer.Ui

open Updi Library.Program Prog
open UpdiTransport (Event)
open UpdiSession (connect)

namespace Worker

variable {σ α : Type} {t : UpdiTransport σ} {env : Env} {F : List UInt8 → Prop}

/-- The app after a call into its session that ended in `u`. -/
def afterCall (s : WorkerState σ) (u : SessionState σ) : WorkerState σ :=
  ⟨{ s.app with session := u.session }, u.ctx⟩

theorem onSession_run {s : WorkerState σ} (h : s.app.linkTransport = true) (m : SessionM σ α) :
    onSession m s = ((m ⟨s.app.session, s.ctx⟩).1, afterCall s (m ⟨s.app.session, s.ctx⟩).2) := by
  refine (if_pos h).trans (Prod.ext ?_ rfl)
  rw [zoom_run]
  cases (m ⟨s.app.session, s.ctx⟩).1 <;> rfl

theorem linkTransport_of_ok {m : SessionM σ α} {s : WorkerState σ} {a : α}
    (h : (onSession m s).1 = .ok a) : s.app.linkTransport = true := by
  by_contra hlink
  have hrun : onSession m s = (.error .nullTransport, s) := if_neg hlink
  rw [hrun] at h
  cases h

/-- A session that is connected over a transport, to a part of the table. -/
structure Live (s : WorkerState σ) : Prop where
  link : s.app.linkTransport = true
  connected : s.app.session.connected = true
  device : ∃ d ∈ deviceTable, s.app.session.device = some d

theorem onSession_connect_live :
    Triple (fun _ ↦ True) (onSession (connect t)) (fun _ ↦ Live) (fun _ _ ↦ True) := by
  intro s _
  by_cases hlink : s.app.linkTransport = true
  · rw [onSession_run hlink]
    rcases hrun : connect t ⟨s.app.session, s.ctx⟩ with ⟨e | u, s'⟩
    · trivial
    · obtain ⟨l₁, i, l₂, l₃, sig, l₄, d, -, -, -, -, hd, rfl⟩ := Connect.connect_eq_ok.mp hrun
      exact ⟨hlink, rfl, d, UpdiDevice.findById_mem hd, rfl⟩
  · have hrun : onSession (connect t) s = (.error .nullTransport, s) := if_neg hlink
    rw [hrun]
    trivial

theorem connectSession_live (allowErase : Bool) :
    Triple (fun _ ↦ True) (connectSession t allowErase) (fun _ ↦ Live) (fun _ _ ↦ True) := by
  have hfirst : Triple (fun _ ↦ True) (attempt (onSession (connect t)))
      (fun r s ↦ r = .ok () → Live s) (fun _ _ ↦ True) :=
    .attempt (onSession_connect_live.conseq (fun _ h ↦ h) (fun _ _ h _ ↦ h)
      fun _ _ _ h ↦ by cases h)
  have hunlock : Triple (fun _ ↦ True) (onSession (UpdiSession.unlock t)) (fun _ _ ↦ True)
      fun _ _ ↦ True := by
    intro s _
    rcases onSession (UpdiSession.unlock t) s with ⟨e | u, s'⟩ <;> trivial
  refine hfirst.bind fun r ↦ ?_
  split
  · refine Triple.ite (fun _ ↦ ?_) fun _ ↦ .fail fun _ _ ↦ trivial
    exact Triple.conseq (hunlock.bind fun _ ↦ onSession_connect_live) (fun _ _ ↦ trivial)
      (fun _ _ h ↦ h) fun _ _ h ↦ h
  · intro s hs
    cases r with
    | ok u => exact hs rfl
    | error e => trivial

theorem doConnect_live {allowErase : Bool} {s s₁ : WorkerState σ}
    (h : doConnect t env allowErase s = (.ok (), s₁)) : Live s₁ := by
  obtain ⟨-, s₂, -, h⟩ := bind_eq_ok.mp h
  obtain ⟨_, s₃, hconn, h⟩ := bind_eq_ok.mp h
  cases h
  have hlive := (connectSession_live allowErase).ok trivial hconn
  exact ⟨hlive.link, hlive.connected, hlive.device⟩

def workerLog (s : WorkerState (σ × List Event)) : List Event := s.ctx.2

/-- A worker function over a recorded transport that sends frames in `F` only. -/
abbrev WorkerSends (F : List UInt8 → Prop) (m : WorkerM (σ × List Event) α) : Prop :=
  Only workerLog (Sends F) m

theorem emits_onSession {m : SessionM (σ × List Event) α} {Q : List Event → Except Halt α → Prop}
    (hnil : Q [] (.error .nullTransport)) (h : Emits sessionLog m Q) :
    Emits workerLog (onSession m) Q := by
  intro s
  unfold onSession
  split_ifs with hlink
  · obtain ⟨l, hl, hq⟩ := h ⟨s.app.session, s.ctx⟩
    refine ⟨l, hl, ?_⟩
    rw [zoom_run]
    cases hr : (m ⟨s.app.session, s.ctx⟩).1 with
    | ok a => rwa [hr] at hq
    | error e => rwa [hr] at hq
  · exact ⟨[], (List.append_nil _).symm, hnil⟩

theorem sends_onSession {m : SessionM (σ × List Event) α} (h : SessionSends F m) :
    WorkerSends F (onSession m) := emits_onSession (List.forall_mem_nil _) h

theorem sends_updateApp (f : UpdiApp → UpdiApp) :
    WorkerSends F (updateApp f : WorkerM (σ × List Event) Unit) := .modify fun _ ↦ rfl

theorem sends_ensureTransport :
    WorkerSends F (ensureTransport env : WorkerM (σ × List Event) Unit) := by
  refine Only.bind .read fun transport ↦ .ite (fun _ ↦ ?_) fun _ ↦ .pure
  exact (sends_updateApp _).bind fun _ ↦ .ite (fun _ ↦ .fail) fun _ ↦ sends_updateApp _

theorem sends_sessionDevice :
    WorkerSends F (sessionDevice : WorkerM (σ × List Event) UpdiDevice) := by
  intro s
  unfold sessionDevice
  cases s.app.session.device with
  | none => exact ⟨[], (List.append_nil _).symm, List.forall_mem_nil _⟩
  | some d => exact ⟨[], (List.append_nil _).symm, List.forall_mem_nil _⟩

theorem sends_readImage (d : UpdiDevice) :
    WorkerSends F (readImage env d : WorkerM (σ × List Event) (List UInt8)) := by
  refine .ite (fun _ ↦ .fail) fun _ ↦ ?_
  split
  · exact .fail
  · exact .pure

theorem sends_verifyImage (image : List UInt8) :
    WorkerSends ReadFrame (verifyImage t.recorded image) := by
  refine (sends_onSession (sends_verifyFlash image)).bind fun r ↦ ?_
  cases r with
  | none => exact .pure
  | some m => exact (sends_updateApp _).bind fun _ ↦ .fail

end Worker

end UpdiProgrammer.Ui

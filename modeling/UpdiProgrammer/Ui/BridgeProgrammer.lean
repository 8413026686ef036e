import UpdiProgrammer.Transport.BridgeSession
import UpdiProgrammer.Ui.AppProgrammer

namespace UpdiProgrammer.Ui

open Updi HostTest Transport UpdiEmu Library.Program Library.Simulation Library.Transition

namespace Worker

variable {d : UpdiDevice} {m₀ : EmuMem} {t : UpdiTransport Bridge} {α : Type}

/-- The session that is run over the line: until the transport pointer is set that
of the app is not used, and a new one takes its place then. -/
def lineSession (a : UpdiApp) : UpdiSession :=
  if a.linkTransport then a.session else UpdiSession.init

/-- Two workers with the same app, the one over the emulator by itself, the other over
the bridge. -/
structure OnLine (d : UpdiDevice) (m₀ : EmuMem) (s : WorkerState UpdiEmu) (u : WorkerState Bridge) :
    Prop where
  app : s.app = u.app
  unasked : s.app.transport = none → s.app.linkTransport = false
  unlinked : s.app.linkTransport = false → s.app.session.device = none
  line : Bridged d m₀ ⟨lineSession s.app, s.ctx⟩ ⟨lineSession u.app, u.ctx⟩

theorem lineSession_linked {a : UpdiApp} (h : a.linkTransport = true) : lineSession a = a.session :=
  if_pos h

theorem onLine_onSession {x : SessionM UpdiEmu α} {y : SessionM Bridge α}
    (h : Agrees (Bridged d m₀) x y) :
    Agrees (OnLine d m₀) (onSession x) (onSession y) := by
  intro s u hR
  by_cases hlink : s.app.linkTransport = true
  · have hlink' : u.app.linkTransport = true := hR.app ▸ hlink
    have hline := hR.line
    rw [lineSession_linked hlink, lineSession_linked hlink'] at hline
    obtain ⟨hsame, hnext⟩ := h _ _ hline
    rw [onSession_run hlink, onSession_run hlink']
    refine ⟨hsame, ?_, hR.unasked, fun hno ↦ absurd (hlink.symm.trans hno) nofun, ?_⟩
    · exact congrArg₂ (fun (a : UpdiApp) session ↦ { a with session := session })
        hR.app hnext.session
    · rw [lineSession_linked, lineSession_linked]
      · exact hnext
      · exact hlink'
      · exact hlink
  · have hno : onSession x s = (.error .nullTransport, s) := if_neg hlink
    have hno' : onSession y u = (.error .nullTransport, u) := if_neg (hR.app ▸ hlink)
    rw [hno, hno']
    exact ⟨rfl, hR⟩

theorem onLine_updateApp {f : UpdiApp → UpdiApp} (hf : ShowsOnly f) :
    Agrees (OnLine d m₀) (updateApp f) (updateApp f) := by
  apply Agrees.modify
  intro s u hR
  have hsession (a : UpdiApp) : lineSession (f a) = lineSession a := by
    unfold lineSession
    rw [hf.linkTransport, hf.session]
  refine ⟨congrArg f hR.app, ?_, ?_, ?_⟩
  · rw [hf.transport, hf.linkTransport]
    exact hR.unasked
  · rw [hf.linkTransport, hf.session]
    exact hR.unlinked
  · rw [hsession, hsession]
    exact hR.line

theorem onLine_ensureTransport (env : Env) :
    Agrees (OnLine d m₀) (ensureTransport env) (ensureTransport env) := by
  intro s u hR
  have happ := hR.app
  unfold ensureTransport
  rw [Prog.read_bind_run, Prog.read_bind_run, ← happ]
  cases htransport : s.app.transport with
  | some ready => exact ⟨rfl, hR⟩
  | none =>
    have hlink := hR.unasked htransport
    have hline := hR.line
    unfold lineSession at hline
    rw [← happ, hlink] at hline
    cases hacquire : env.acquire with
    | false =>
      exact ⟨rfl, congrArg (fun a : UpdiApp ↦ { a with transport := some false }) happ, nofun,
        hR.unlinked, hR.line⟩
    | true =>
      have hset := congrArg (fun a : UpdiApp ↦
        { a with transport := some true, linkTransport := true, session := UpdiSession.init }) happ
      exact ⟨rfl, hset, nofun, nofun, hline⟩

theorem onLine_device {s : WorkerState UpdiEmu} {u : WorkerState Bridge} {d' : UpdiDevice}
    (h : OnLine d m₀ s u) (hdevice : s.app.session.device = some d') : d' = d := by
  have hlink : s.app.linkTransport = true := by
    by_contra hno
    have hnone := h.unlinked (Bool.eq_false_iff.mpr hno)
    rw [hdevice] at hnone
    cases hnone
  obtain ⟨-, b, hb⟩ := h.line
  rw [lineSession_linked hlink] at hb
  by_cases hc : b.contact = .unknown
  · have hnone := hb.unknown hc
    rw [hdevice] at hnone
    cases hnone
  · have hfound := (hb.found hc).1
    rw [hdevice] at hfound
    exact Option.some_inj.mp hfound

theorem alikeCalls_onLine (ht : InTime t) (hmem : d ∈ deviceTable) :
    AlikeCalls (OnLine d m₀) (fun d' ↦ d' = d) (emuTransport .emulator) t where
  app _ _ h := h.app
  device _ _ _ h hdevice := onLine_device h hdevice
  updateApp _ hf := onLine_updateApp hf
  ensureTransport env := onLine_ensureTransport env
  connect := onLine_onSession (bridged_connect ht hmem)
  unlock := onLine_onSession (bridged_unlock ht)
  disconnect := onLine_onSession (bridged_disconnect ht)
  chipErase := onLine_onSession (bridged_chipErase ht hmem)
  writeFlash _ _ hd hlen := onLine_onSession (bridged_writeFlash ht hmem (hd ▸ hlen))
  verifyFlash _ _ hd hlen := onLine_onSession (bridged_verifyFlash ht hmem (hd ▸ hlen))
  readFlash _ hd :=
    onLine_onSession (bridged_readFlash ht hmem (Nat.le_of_eq (congrArg UpdiDevice.flashSize hd)))
  readFuses count := onLine_onSession (bridged_readFuses ht hmem count)

theorem runOp_onLine (ht : InTime t) (hmem : d ∈ deviceTable) :
    Simulates (fun _ ↦ True) (OnLine d m₀)
    (fun op : UpdiOp × Env ↦ runOp (emuTransport .emulator) op.2 op.1)
      (fun op ↦ runOp t op.2 op.1) :=
  fun op s u _ h ↦ agrees_runOp (alikeCalls_onLine ht hmem) op.1 s u h

/-- The worker over the bridge depicts the programmer as the one over the emulator does
that it is in step with. -/
def DepictsOnLine (d : UpdiDevice) (m₀ : EmuMem) (u : WorkerState Bridge) (p : Programmer) : Prop :=
  ∃ s, OnLine d m₀ s u ∧ Depicts d m₀ p s

theorem runOp_depictsOnLine (ht : InTime t) (hmem : d ∈ deviceTable) :
    Simulates (fun _ ↦ True) (DepictsOnLine d m₀)
    (fun op : UpdiOp × Env ↦ runOp t op.2 op.1) (Programmer.step d) :=
  (runOp_onLine ht hmem).symm.trans (runOp_simulates hmem)

theorem depictsOnLine_fresh {e : UpdiEmu} (he : Fresh e) (ht : TargetOf d e.mem) :
    DepictsOnLine d e.mem ⟨UpdiApp.alloc, Bridge.attached e⟩ (Programmer.fresh d e.mem) :=
  ⟨⟨UpdiApp.alloc, e⟩, ⟨rfl, fun _ ↦ rfl, fun _ ↦ rfl, bridged_fresh he ht⟩,
    .unasked rfl ⟨rfl, rfl, rfl, rfl, rfl⟩ (embodies_fresh he ht)⟩

theorem DepictsOnLine.shows {u : WorkerState Bridge} {p : Programmer} (h : DepictsOnLine d m₀ u p) :
    Shows u.app p := by
  obtain ⟨s, hline, hdepicts⟩ := h
  rw [← hline.app]
  exact hdepicts.shows

theorem DepictsOnLine.settled {u : WorkerState Bridge} {p : Programmer}
    (h : DepictsOnLine d m₀ u p) :
    ∃ c, u.ctx.Settled d m₀ ⟨c, p.flash, p.fuses⟩ := by
  obtain ⟨s, hline, hdepicts⟩ := h
  obtain ⟨c, hc⟩ := hdepicts.resembles
  exact ⟨c, Bridged.settled hline.line.1 hc⟩

/-- However the line keeps time, as long as it keeps it: over every history of
operations the worker on the transport ends each one with the programmer's status,
shows what the programmer would, and leaves the part as the programmer's. -/
theorem bridge_refines_programmer (hmem : d ∈ deviceTable) {msToTicks : ℕ → UInt32} {paces : Paces}
    (htimely : paces.Timely msToTicks) (freq : UInt32) {e : UpdiEmu} (he : Fresh e)
    (ht : TargetOf d e.mem) (ops : List (UpdiOp × Env)) :
    (answers (fun op ↦ runOp (Bridge.iface .emulator msToTicks freq paces) op.2 op.1) ops
        ⟨UpdiApp.alloc, Bridge.attached e⟩).1 =
          (answers (Programmer.step d) ops (Programmer.fresh d e.mem)).1 ∧
      Shows (answers (fun op ↦ runOp (Bridge.iface .emulator msToTicks freq paces) op.2 op.1) ops
        ⟨UpdiApp.alloc, Bridge.attached e⟩).2.app
          (answers (Programmer.step d) ops (Programmer.fresh d e.mem)).2 ∧
      ∃ c, (answers (fun op ↦ runOp (Bridge.iface .emulator msToTicks freq paces) op.2 op.1) ops
        ⟨UpdiApp.alloc, Bridge.attached e⟩).2.ctx.Settled d e.mem
          ⟨c, (answers (Programmer.step d) ops (Programmer.fresh d e.mem)).2.flash,
            (answers (Programmer.step d) ops (Programmer.fresh d e.mem)).2.fuses⟩ := by
  have hstep := @runOp_depictsOnLine d e.mem _ (@inTime_iface msToTicks freq paces htimely) hmem
  obtain ⟨hsame, hend⟩ := hstep.run (depictsOnLine_fresh he ht) fun _ _ ↦ trivial
  exact ⟨hsame, hend.shows, hend.settled⟩

theorem attiny412_bridge_refines_programmer :
    (answers (fun op ↦ runOp (Bridge.iface .emulator UInt32.ofNat 1000 oneByOne) op.2 op.1)
        session412 ⟨UpdiApp.alloc, Bridge.attached program412⟩).1 =
      (answers (Programmer.step attiny412) session412
        (Programmer.fresh attiny412 program412.mem)).1 ∧
      Shows (answers (fun op ↦ runOp (Bridge.iface .emulator UInt32.ofNat 1000 oneByOne) op.2 op.1)
        session412 ⟨UpdiApp.alloc, Bridge.attached program412⟩).2.app
        (answers (Programmer.step attiny412) session412
          (Programmer.fresh attiny412 program412.mem)).2 ∧
      ∃ c, (answers (fun op ↦ runOp (Bridge.iface .emulator UInt32.ofNat 1000 oneByOne) op.2 op.1)
        session412
        ⟨UpdiApp.alloc, Bridge.attached program412⟩).2.ctx.Settled attiny412 program412.mem
          ⟨c, (answers (Programmer.step attiny412) session412
            (Programmer.fresh attiny412 program412.mem)).2.flash,
            (answers (Programmer.step attiny412) session412
              (Programmer.fresh attiny412 program412.mem)).2.fuses⟩ :=
  bridge_refines_programmer (by decide) oneByOne_timely 1000 program412_fresh.1
    program412_fresh.2 session412

end Worker

open Worker

/-- The whole app on the transport, with a part at the other end of the line: however
its events interleave and the line keeps time, its user sees the sequential programmer. -/
theorem bridged_app_refines_programmer {ν : Type} (sm : SceneManager ν) {d : UpdiDevice}
    (hmem : d ∈ deviceTable)
    {msToTicks : ℕ → UInt32} {paces : Paces} (htimely : paces.Timely msToTicks)
    (freq : UInt32) {e : UpdiEmu}
    (he : Fresh e) (ht : TargetOf d e.mem) {seen : List Seen} {a : UpdiProgApp ν Bridge}
    (h : Run (UpdiProgApp.step sm (Bridge.iface .emulator msToTicks freq paces))
      (UpdiProgApp.alloc sm (Bridge.attached e)) seen a) :
    ∃ st c, Run (turn (Programmer.step d) (Programmer.screen d e.mem))
      (.idle (Programmer.fresh d e.mem)) seen st ∧
      a.work.ctx.Settled d e.mem ⟨c, st.state.flash, st.state.fuses⟩ := by
  obtain ⟨st, hturns, hpaced⟩ := UpdiProgApp.app_takes_turns sm _ _ h
  have hin := @inTime_iface msToTicks freq paces htimely
  have hscreen (op : UpdiOp × Env) (u : WorkerState Bridge) (p : Programmer) (r : UpdiStatus)
      (hu : DepictsOnLine d e.mem u p)
      (hr : statusOf (runOp (Bridge.iface .emulator msToTicks freq paces) op.2 op.1 u).1 = some r) :
      outcomeScreen op.1 r (runOp (Bridge.iface .emulator msToTicks freq paces) op.2 op.1 u).2.app =
        (Programmer.step d op p).2.screen d e.mem op.1 r := by
    obtain ⟨s, hline, hdepicts⟩ := hu
    obtain ⟨hsame, hnext⟩ := runOp_onLine hin hmem op s u trivial hline
    rw [← hsame] at hr
    rw [← hnext.app]
    exact screen_runOp hmem hdepicts hr
  obtain ⟨st', hrun, hlike⟩ := (matches_turn (runOp_depictsOnLine hin hmem) hscreen).run
    (.idle (depictsOnLine_fresh he ht)) hturns
  obtain ⟨c, hc⟩ := DepictsOnLine.settled hlike.state
  rw [hpaced.state] at hc
  exact ⟨st', c, hrun, hc⟩

theorem flashRun_bridged_refines_programmer :
    ∃ a, follow (UpdiProgApp.step SceneManager.ofStack
      (Bridge.iface .emulator UInt32.ofNat 1000 oneByOne))
      UpdiProgApp.flashRun (UpdiProgApp.alloc SceneManager.ofStack (Bridge.attached program412)) =
        some ([.chose (some .flash), .met (steadyEnv (some applicationFile))], a) ∧
    ∃ st c, Run (turn (Programmer.step attiny412) (Programmer.screen attiny412 program412.mem))
        (.idle (Programmer.fresh attiny412 program412.mem))
        [.chose (some .flash), .met (steadyEnv (some applicationFile))] st ∧
      a.work.ctx.Settled attiny412 program412.mem ⟨c, st.state.flash, st.state.fuses⟩ := by
  obtain ⟨a, h⟩ : ∃ a, follow (UpdiProgApp.step SceneManager.ofStack
      (Bridge.iface .emulator UInt32.ofNat 1000 oneByOne)) UpdiProgApp.flashRun
      (UpdiProgApp.alloc SceneManager.ofStack (Bridge.attached program412)) =
        some ([.chose (some .flash), .met (steadyEnv (some applicationFile))], a) := ⟨_, rfl⟩
  exact ⟨a, h, bridged_app_refines_programmer _ (by decide) oneByOne_timely 1000 program412_fresh.1
    program412_fresh.2 (Run.of_follow h)⟩

end UpdiProgrammer.Ui

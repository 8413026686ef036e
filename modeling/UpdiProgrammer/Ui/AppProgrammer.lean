import UpdiProgrammer.Ui.AppRun

namespace UpdiProgrammer.Ui

open Updi HostTest UpdiEmu Library.Program Library.Simulation Library.Transition Worker

section Turns

variable {W V : Type} {R : W → V → Prop} {perform : UpdiOp × Env → W → Except Halt Unit × W}
  {perform' : UpdiOp × Env → V → Except Halt Unit × V} {screen : UpdiOp → UpdiStatus → W → Screen}
  {screen' : UpdiOp → UpdiStatus → V → Screen}

/-- Two apps at the same turn, with states that `R` relates, and the same outcome to show. -/
inductive Stage.Alike (R : W → V → Prop) (screen : UpdiOp → UpdiStatus → W → Screen)
    (screen' : UpdiOp → UpdiStatus → V → Screen) : Stage W → Stage V → Prop
  | idle {w : W} {v : V} (h : R w v) : Alike R screen screen' (.idle w) (.idle v)
  | asked (op : UpdiOp) {w : W} {v : V} (h : R w v) :
    Alike R screen screen' (.asked op w) (.asked op v)
  | answered (op : UpdiOp) (r : Except Halt Unit) {w : W} {v : V} (h : R w v)
      (hscreen : ∀ st, statusOf r = some st → screen op st w = screen' op st v) :
      Alike R screen screen' (.answered op r w) (.answered op r v)

theorem Stage.Alike.state {st : Stage W} {st' : Stage V} (h : Stage.Alike R screen screen' st st') :
    R st.state st'.state := by
  cases h with
  | idle h => exact h
  | asked op h => exact h
  | answered op r h hscreen => exact h

theorem matches_turn (hperform : Simulates (fun _ ↦ True) R perform perform')
    (hscreen : ∀ op w v st, R w v → statusOf (perform op w).1 = some st →
      screen op.1 st (perform op w).2 = screen' op.1 st (perform' op v).2) :
    Matches (Stage.Alike R screen screen') (turn perform screen) (turn perform' screen') := by
  intro l st out st₁ st' h hstep
  cases l with
  | ask op =>
    cases h with
    | idle h =>
      cases hstep
      exact ⟨_, .single (l := .ask op) rfl, .asked op h⟩
    | asked op' h => cases hstep
    | answered op' r h hscreen' => cases hstep
  | answer env =>
    cases h with
    | asked op h =>
      cases hstep
      obtain ⟨hsame, hnext⟩ := hperform (op, env) _ _ trivial h
      refine ⟨_, .single (l := .answer env) rfl, ?_⟩
      rw [← hsame]
      exact .answered op _ hnext fun st hst ↦ hscreen (op, env) _ _ st h hst
    | idle h => cases hstep
    | answered op' r h hscreen' => cases hstep
  | tell =>
    cases h with
    | @answered op r w v h hscreen' =>
      obtain ⟨st, hst, heq⟩ := Option.map_eq_some_iff.mp hstep
      cases heq
      refine ⟨_, .single (l := .tell) ?_, .idle h⟩
      rw [hscreen' st hst]
      simp only [turn, hst, Option.map_some]
    | idle h => cases hstep
    | asked op' h => cases hstep

end Turns

/-- The screen that the programmer shows after an operation: the row of the table and
the SIB of its part say what a connect finds. -/
def Programmer.screen (d : UpdiDevice) (m : EmuMem) (op : UpdiOp) (r : UpdiStatus)
    (p : Programmer) : Screen :=
  outcomeScreen op r { UpdiApp.alloc with
    session := { UpdiSession.init with
      device := some d
      sib := UpdiNvm.sibInfo (sibBytes m 16)
      sig := d.signature }
    verifyMismatch := p.mismatch
    fuses := p.fusesRead }

theorem deviceInfoScreen_congr {u v : UpdiSession} (hdevice : u.device = v.device)
    (hsib : u.sib = v.sib) (hsig : u.sig = v.sig) : deviceInfoScreen u = deviceInfoScreen v := by
  unfold deviceInfoScreen deviceInfoText
  rw [hdevice, hsib, hsig]

variable {d : UpdiDevice} {m₀ : EmuMem} {p : Programmer} {s : WorkerState UpdiEmu}

theorem Worker.Depicts.told (h : Depicts d m₀ p s) (hknown : Known s)
    (hlink : s.app.linkTransport = true) :
    s.app.session.device = some d ∧ s.app.session.sib = UpdiNvm.sibInfo (sibBytes m₀ 16) ∧
      s.app.session.sig = d.signature := by
  cases h with
  | unasked happ hp h =>
    rw [happ] at hlink
    cases hlink
  | stuck hs hp h =>
    rw [hs.2] at hlink
    cases hlink
  | ready h =>
    obtain ⟨app, c, hruns, -⟩ := h
    obtain ⟨d', -, hd'⟩ := hknown
    have hdevice : s.app.session.device = some d' := congrArg Prod.fst hd'
    have hcontact : c ≠ .unknown := by
      intro hc
      have hnone := hruns.session.unknown hc
      rw [hdevice] at hnone
      cases hnone
    exact ⟨(hruns.session.found hcontact).1, hruns.session.told hcontact⟩

theorem outcomeScreen_depicts {op : UpdiOp} {r : UpdiStatus} (h : Depicts d m₀ p s)
    (hok : r = .ok () → Known s ∧ s.app.linkTransport = true) :
    outcomeScreen op r s.app = p.screen d m₀ op r := by
  have hshows := h.shows
  unfold Programmer.screen outcomeScreen
  cases r with
  | error e =>
    rw [if_neg nofun, if_neg nofun, if_neg nofun, if_neg nofun, hshows.mismatch]
    exact resultScreen_congr nofun
  | ok u =>
    obtain ⟨hknown, hlink⟩ := hok rfl
    obtain ⟨hdevice, hsib, hsig⟩ := h.told hknown hlink
    split_ifs with hconnect hfuses
    · exact deviceInfoScreen_congr hdevice hsib hsig
    · unfold fusesScreen fusesText
      rw [hdevice, hshows.fusesRead]
    · rw [hdevice, hshows.mismatch]

theorem screen_runOp (hmem : d ∈ deviceTable) {op : UpdiOp × Env} {r : UpdiStatus}
    (hs : Depicts d m₀ p s)
    (hr : statusOf (runOp (emuTransport .emulator) op.2 op.1 s).1 = some r) :
    outcomeScreen op.1 r (runOp (emuTransport .emulator) op.2 op.1 s).2.app =
      (Programmer.step d op p).2.screen d m₀ op.1 r := by
  have hnext := (runOp_simulates hmem op s p trivial hs).2
  refine outcomeScreen_depicts hnext fun hok ↦ ?_
  rw [hok] at hr
  obtain ⟨s₁, -, -, hlink⟩ := doConnect_of_ok (statusOf_ok hr)
  exact ⟨known_of_ok (statusOf_ok hr), hlink⟩

/-- However the user, the timer, the events and the worker thread interleave, the app
with an emulated part in its socket shows what the programmer would: it is the
sequential programmer that its user sees, and the part is left as the programmer's. -/
theorem app_refines_programmer {ν : Type} (sm : SceneManager ν) (hmem : d ∈ deviceTable)
    {e : UpdiEmu} (he : Fresh e) (ht : TargetOf d e.mem) {seen : List Seen}
    {a : UpdiProgApp ν UpdiEmu}
    (h : Run (UpdiProgApp.step sm (emuTransport .emulator)) (UpdiProgApp.alloc sm e) seen a) :
    ∃ st c, Run (turn (Programmer.step d) (Programmer.screen d e.mem))
      (.idle (Programmer.fresh d e.mem)) seen st ∧
      Resembles d e.mem ⟨c, st.state.flash, st.state.fuses⟩ a.work.ctx.mem := by
  obtain ⟨st, hturns, hpaced⟩ := UpdiProgApp.app_takes_turns sm (emuTransport .emulator) e h
  have hstart : Depicts d e.mem (Programmer.fresh d e.mem) ⟨UpdiApp.alloc, e⟩ :=
    .unasked rfl ⟨rfl, rfl, rfl, rfl, rfl⟩ (embodies_fresh he ht)
  have hmatch :
      Matches (Stage.Alike (fun s p ↦ Depicts d e.mem p s) (fun op r w ↦ outcomeScreen op r w.app)
      fun op r p ↦ p.screen d e.mem op r) (UpdiProgApp.turnStep (emuTransport .emulator))
      (turn (Programmer.step d) fun op r p ↦ p.screen d e.mem op r) :=
        matches_turn (runOp_simulates hmem) fun _ _ _ _ hs hr ↦ screen_runOp hmem hs hr
  obtain ⟨st', hrun, hlike⟩ := hmatch.run (.idle hstart) hturns
  obtain ⟨c, hc⟩ := hlike.state.resembles
  rw [hpaced.state] at hc
  exact ⟨st', c, hrun, hc⟩

theorem flashRun_refines_programmer :
    ∃ a, follow (UpdiProgApp.step SceneManager.ofStack (emuTransport .emulator))
      UpdiProgApp.flashRun (UpdiProgApp.alloc SceneManager.ofStack program412) =
        some ([.chose (some .flash), .met (steadyEnv (some applicationFile))], a) ∧
    ∃ st c, Run (turn (Programmer.step attiny412) (Programmer.screen attiny412 program412.mem))
        (.idle (Programmer.fresh attiny412 program412.mem))
        [.chose (some .flash), .met (steadyEnv (some applicationFile))] st ∧
      Resembles attiny412 program412.mem ⟨c, st.state.flash, st.state.fuses⟩ a.work.ctx.mem := by
  obtain ⟨a, h⟩ : ∃ a,
      follow (UpdiProgApp.step SceneManager.ofStack (emuTransport .emulator)) UpdiProgApp.flashRun
      (UpdiProgApp.alloc SceneManager.ofStack program412) =
        some ([.chose (some .flash), .met (steadyEnv (some applicationFile))], a) := ⟨_, rfl⟩
  exact ⟨a, h, app_refines_programmer _ (by decide) program412_fresh.1 program412_fresh.2
    (Run.of_follow h)⟩

end UpdiProgrammer.Ui

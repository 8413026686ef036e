import UpdiProgrammer.Ui.Worker

namespace UpdiProgrammer.Ui

open Updi Hex Library.Program

namespace Worker

variable {σ α : Type} {t : UpdiTransport σ} {env : Env}

/-- A condition on a session under which its calls do not stop with `e`: no status is
`e`, and neither is a missing device unless the condition excludes that. -/
structure Guards (P : SessionState σ → Prop) (e : Halt) : Prop where
  onLink : ∀ s (l : LinkState σ), P s → P ⟨{ s.session with link := l.link }, l.ctx⟩
  disconnected : ∀ s, P s → P ⟨{ s.session with connected := false }, s.ctx⟩
  status : ∀ st, .status st ≠ e
  device : ∀ s, P s → s.session.nvmDevice = none → .nullDevice ≠ e

theorem guards_transport : Guards (fun _ : SessionState σ ↦ True) .nullTransport :=
  ⟨fun _ _ _ ↦ trivial, fun _ _ ↦ trivial, fun _ ↦ Halt.noConfusion, fun _ _ _ ↦ Halt.noConfusion⟩

namespace Guards

variable {P : SessionState σ → Prop} {e : Halt} (h : Guards P e)
include h

theorem neverFrom_onLink (m : LinkM σ α) : NeverFrom P e (UpdiSession.onLink m) := by
  intro s hs
  rw [UpdiSession.onLink, Prog.zoom_run]
  rcases m ⟨s.session.link, s.ctx⟩ with ⟨st | a, l⟩
  · exact h.status st
  · exact h.onLink s l hs

theorem neverFrom_boundDevice :
    NeverFrom P e (UpdiSession.boundDevice : SessionM σ UpdiDevice) := by
  intro s hs
  unfold UpdiSession.boundDevice
  cases hdevice : s.session.nvmDevice with
  | none => exact h.device s hs hdevice
  | some d => exact hs

theorem neverFrom_connectedDevice :
    NeverFrom P e (UpdiSession.connectedDevice : SessionM σ UpdiDevice) := by
  intro s hs
  unfold UpdiSession.connectedDevice
  cases s.session.connected with
  | false => exact h.status _
  | true =>
    cases s.session.device with
    | none => exact h.status _
    | some d => exact hs

theorem neverFrom_disconnect : NeverFrom P e (UpdiSession.disconnect t) := by
  have hattempt : NeverFrom P e (Prog.attempt (UpdiSession.onLink (UpdiNvm.leaveProgmode t))) :=
    fun s hs ↦
    h.onLink s (UpdiNvm.leaveProgmode t ⟨s.session.link, s.ctx⟩).2 hs
  exact hattempt.bind fun _ ↦ .modify h.disconnected

theorem neverFrom_chipErase : NeverFrom P e (UpdiSession.chipErase t) := by
  refine NeverFrom.read.bind fun device ↦ .ite (fun _ ↦ .fail (h.status _)) fun _ ↦ ?_
  exact h.neverFrom_boundDevice.bind fun d ↦ h.neverFrom_onLink _

theorem neverFrom_writeFlash (data : List UInt8) :
    NeverFrom P e (UpdiSession.writeFlash t data) := by
  refine h.neverFrom_connectedDevice.bind fun dev ↦ .ite (fun _ ↦ .fail (h.status _)) fun _ ↦ ?_
  exact h.neverFrom_boundDevice.bind fun d ↦ h.neverFrom_onLink _

theorem neverFrom_verifyFlash (data : List UInt8) :
    NeverFrom P e (UpdiSession.verifyFlash t data) :=
  h.neverFrom_connectedDevice.bind fun _ ↦ h.neverFrom_onLink _

theorem neverFrom_readFlash (len : ℕ) : NeverFrom P e (UpdiSession.readFlash t len) :=
  h.neverFrom_connectedDevice.bind fun _ ↦ h.neverFrom_onLink _

theorem neverFrom_readFuses (count : ℕ) : NeverFrom P e (UpdiSession.readFuses t count) :=
  h.neverFrom_connectedDevice.bind fun _ ↦ h.neverFrom_boundDevice.bind fun _ ↦ h.neverFrom_onLink _

end Guards

section Never

variable {e : Halt} (he : ∀ st, .status st ≠ e)
include he

theorem never_onLink (m : LinkM σ α) : Never e (UpdiSession.onLink m) :=
  .zoom fun st hst ↦ absurd hst (he st)

theorem never_connect : Never e (UpdiSession.connect t) := by
  refine Never.modify.bind fun _ ↦ (never_onLink he _).bind fun _ ↦ ?_
  refine (never_onLink he _).bind fun _ ↦ Never.modify.bind fun _ ↦ ?_
  refine Never.modify.bind fun _ ↦ Never.modify.bind fun _ ↦ ?_
  refine (never_onLink he _).bind fun _ ↦ (never_onLink he _).bind fun sig ↦ ?_
  refine Never.modify.bind fun _ ↦ ?_
  cases UpdiDevice.findById (UpdiDevice.idFromSig sig) with
  | none => exact .fail (he _)
  | some d => exact .modify

end Never

def Initialised (s : WorkerState σ) : Prop :=
  s.app.transport = some true ∧ s.app.linkTransport = true

/-- A part of an operation that runs over an initialised session, and never
meets a null transport pointer there. -/
def Sound (m : WorkerM σ α) : Prop :=
  Triple Initialised m (fun _ ↦ Initialised) (fun e s ↦ Initialised s ∧ e ≠ .nullTransport)

theorem Sound.bind {β : Type} {m : WorkerM σ α} {k : α → WorkerM σ β} (hm : Sound m)
    (hk : ∀ a, Sound (k a)) : Sound (m >>= k) := Triple.bind hm hk

theorem sound_onSession {m : SessionM σ α} (hm : NeverFrom (fun _ ↦ True) .nullTransport m) :
    Sound (onSession m) := by
  intro s hs
  have hm' := hm ⟨s.app.session, s.ctx⟩ trivial
  unfold onSession
  rw [if_pos hs.2, Prog.zoom_run]
  rcases hrun : m ⟨s.app.session, s.ctx⟩ with ⟨e | a, u⟩ <;> rw [hrun] at hm'
  · exact ⟨hs, hm'⟩
  · exact hs

theorem sound_fail (e : UpdiErr) : Sound (Prog.fail (.status e) : WorkerM σ α) :=
  .fail fun _ hs ↦ ⟨hs, Halt.noConfusion⟩

theorem sound_pure (a : α) : Sound (pure a : WorkerM σ α) := .pure fun _ hs ↦ hs

theorem sound_updateApp {f : UpdiApp → UpdiApp}
    (hf : ∀ a, (f a).transport = a.transport ∧ (f a).linkTransport = a.linkTransport) :
    Sound (updateApp f : WorkerM σ Unit) := by
  refine .modify fun s hs ↦ ?_
  obtain ⟨ht, hl⟩ := hf s.app
  exact ⟨ht.trans hs.1, hl.trans hs.2⟩

theorem sound_sessionDevice : Sound (sessionDevice : WorkerM σ UpdiDevice) := by
  intro s hs
  unfold sessionDevice
  cases s.app.session.device with
  | none => exact ⟨hs, Halt.noConfusion⟩
  | some d => exact hs

theorem Sound.attempt_bind {β : Type} {m : WorkerM σ α} {k : Except Halt α → WorkerM σ β}
    (hm : Sound m) (hk : ∀ r, r ≠ .error .nullTransport → Sound (k r)) :
    Sound (Prog.attempt m >>= k) := by
  intro s hs
  have hm' := hm s hs
  rw [Prog.attempt_bind_run]
  rcases hrun : m s with ⟨e | a, s'⟩ <;> rw [hrun] at hm'
  · exact hk (.error e) (fun h ↦ hm'.2 (Except.error.inj h)) s' hm'.1
  · exact hk (.ok a) (fun h ↦ by simp at h) s' hm'

theorem sound_ofStatus {r : Except Halt α} (h : r ≠ .error .nullTransport) :
    Sound (Prog.ofStatus r : WorkerM σ α) := by
  intro s hs
  cases r with
  | ok a => exact hs
  | error e => exact ⟨hs, fun he ↦ h (congrArg Except.error he)⟩

theorem sound_connectSession (allowErase : Bool) : Sound (connectSession t allowErase) := by
  have hconnect : Sound (onSession (UpdiSession.connect t)) :=
    sound_onSession (never_connect fun _ ↦ Halt.noConfusion)
  refine hconnect.attempt_bind fun r hr ↦ ?_
  split
  · refine Triple.ite (fun _ ↦ ?_) fun _ ↦ sound_fail _
    exact (sound_onSession (guards_transport.neverFrom_onLink _)).bind fun _ ↦ hconnect
  · exact sound_ofStatus hr

theorem sound_ensureTransport : Sound (ensureTransport env : WorkerM σ Unit) := by
  intro s hs
  unfold ensureTransport
  rw [Prog.read_bind_run, hs.1]
  exact hs

theorem sound_doConnect (allowErase : Bool) : Sound (doConnect t env allowErase) :=
  sound_ensureTransport.bind fun _ ↦ (sound_connectSession allowErase).bind fun _ ↦
    sound_updateApp fun _ ↦ ⟨rfl, rfl⟩

theorem sound_readImage (d : UpdiDevice) : Sound (readImage env d : WorkerM σ (List UInt8)) := by
  refine Triple.ite (fun _ ↦ sound_fail _) fun _ ↦ ?_
  split
  · exact sound_fail _
  · exact sound_pure _

theorem sound_verifyImage (image : List UInt8) : Sound (verifyImage t image) := by
  refine (sound_onSession (guards_transport.neverFrom_verifyFlash image)).bind fun r ↦ ?_
  cases r with
  | none => exact sound_pure _
  | some m =>
    refine Sound.bind (sound_updateApp fun _ ↦ ⟨rfl, rfl⟩) fun _ ↦ ?_
    exact sound_fail _

theorem sound_runOp (op : UpdiOp) : Sound (runOp t env op) := by
  have hdisc : Sound (onSession (UpdiSession.disconnect t)) :=
    sound_onSession guards_transport.neverFrom_disconnect
  cases op with
  | connect => exact (sound_doConnect false).bind fun _ ↦ hdisc
  | chipErase =>
    refine (sound_doConnect true).bind fun _ ↦ ?_
    refine (sound_onSession guards_transport.neverFrom_chipErase).attempt_bind fun st hst ↦ ?_
    exact hdisc.bind fun _ ↦ sound_ofStatus hst
  | flash =>
    refine (sound_doConnect true).bind fun _ ↦ sound_sessionDevice.bind fun dev ↦ ?_
    refine (sound_readImage dev).bind fun image ↦ ?_
    refine (sound_onSession guards_transport.neverFrom_chipErase).bind fun _ ↦ ?_
    refine (sound_onSession (guards_transport.neverFrom_writeFlash image)).bind fun _ ↦ ?_
    refine (sound_verifyImage image).attempt_bind fun st hst ↦ ?_
    exact hdisc.bind fun _ ↦ sound_ofStatus hst
  | verify =>
    refine (sound_doConnect false).bind fun _ ↦ sound_sessionDevice.bind fun dev ↦ ?_
    refine (sound_readImage dev).bind fun image ↦ ?_
    refine (sound_verifyImage image).attempt_bind fun st hst ↦ ?_
    exact hdisc.bind fun _ ↦ sound_ofStatus hst
  | dump =>
    refine (sound_doConnect false).bind fun _ ↦ sound_sessionDevice.bind fun dev ↦ ?_
    refine Triple.ite (fun _ ↦ sound_fail _) fun _ ↦ ?_
    refine (sound_onSession (guards_transport.neverFrom_readFlash dev.flashSize)).bind fun buf ↦ ?_
    refine Triple.ite (fun _ ↦ sound_fail _) fun _ ↦ ?_
    refine Sound.bind (sound_updateApp fun _ ↦ ⟨rfl, rfl⟩) fun _ ↦ hdisc.bind fun _ ↦ ?_
    exact Triple.ite (fun _ ↦ sound_pure _) fun _ ↦ sound_fail _
  | readFuses =>
    refine (sound_doConnect false).bind fun _ ↦ sound_sessionDevice.bind fun dev ↦ ?_
    refine (sound_onSession (guards_transport.neverFrom_readFuses _)).attempt_bind fun st hst ↦ ?_
    refine Sound.bind (sound_updateApp fun _ ↦ ⟨rfl, rfl⟩) fun _ ↦ hdisc.bind fun _ ↦ ?_
    refine sound_ofStatus ?_
    cases st with
    | ok l => exact fun h ↦ by simp [Except.map] at h
    | error e => exact fun h ↦ hst (congrArg Except.error (Except.error.inj h))

/-- An operation is safe in a state: it meets no null transport pointer, and
where it ends without a ready transport it has failed with
`UpdiErrTransport` and touched nothing. -/
def Safe (t : UpdiTransport σ) (op : UpdiOp) (env : Env) (s : WorkerState σ) : Prop :=
  (runOp t env op s).1 ≠ .error .nullTransport ∧
    ((runOp t env op s).2.app.transport ≠ some true →
      (runOp t env op s).1 = .error (.status .transport) ∧ (runOp t env op s).2.ctx = s.ctx)

theorem safe_of_initialised {s : WorkerState σ} (hs : Initialised s) (op : UpdiOp) :
    Safe t op env s ∧ Initialised (runOp t env op s).2 := by
  have h := @sound_runOp _ t env op s hs
  unfold Safe
  rcases hrun : runOp t env op s with ⟨e | a, s'⟩ <;> rw [hrun] at h
  · exact ⟨⟨fun he ↦ h.2 (Except.error.inj he), fun hn ↦ absurd h.1.1 hn⟩, h.1⟩
  · exact ⟨⟨fun he ↦ by simp at he, fun hn ↦ absurd h.1 hn⟩, h⟩

theorem runOp_congr {s s' : WorkerState σ} (h : ensureTransport env s = ensureTransport env s')
    (op : UpdiOp) : runOp t env op s = runOp t env op s' := by
  have hd : ∀ allowErase, doConnect t env allowErase s = doConnect t env allowErase s' :=
    fun _ ↦ Prog.bind_congr h _
  cases op <;> exact Prog.bind_congr (hd _) _

theorem runOp_of_doConnect_error {s s' : WorkerState σ} {e : Halt}
    (h : ∀ allowErase, doConnect t env allowErase s = (.error e, s')) (op : UpdiOp) :
    runOp t env op s = (.error e, s') := by
  cases op <;> exact Prog.bind_error (h _) _

/-- The app after a first operation that could not get the serial port. -/
def Stuck (s : WorkerState σ) : Prop :=
  s.app.transport = some false ∧ s.app.linkTransport = false

theorem runOp_stuck {s : WorkerState σ} (hs : Stuck s) (op : UpdiOp) :
    runOp t env op s = (.error .nullTransport, s) := by
  refine runOp_of_doConnect_error (fun allowErase ↦ ?_) op
  have he : ensureTransport env s = (.ok (), s) := by
    unfold ensureTransport
    rw [Prog.read_bind_run, hs.1]
    rfl
  have hc : onSession (UpdiSession.connect t) s = (.error .nullTransport, s) :=
    if_neg (by rw [hs.2]; exact Bool.false_ne_true)
  have hcs : connectSession t allowErase s = (.error .nullTransport, s) := by
    unfold connectSession
    rw [Prog.attempt_bind_run, hc]
    rfl
  unfold doConnect
  rw [Prog.bind_ok he, Prog.bind_error hcs]

theorem runOp_first {c : σ} (op : UpdiOp) (ha : env.acquire = false) :
    runOp t env op ⟨UpdiApp.alloc, c⟩ = (.error (.status .transport),
      ⟨{ UpdiApp.alloc with transport := some false }, c⟩) := by
  refine runOp_of_doConnect_error (fun allowErase ↦ ?_) op
  refine Prog.bind_error ?_ _
  unfold ensureTransport updateApp
  rw [Prog.read_bind_run, ha]
  rfl

theorem safe_first (op : UpdiOp) (c : σ) : Safe t op env ⟨UpdiApp.alloc, c⟩ ∧
    (env.acquire = true → Initialised (runOp t env op ⟨UpdiApp.alloc, c⟩).2) := by
  cases ha : env.acquire with
  | false =>
    unfold Safe
    rw [runOp_first op ha]
    exact ⟨⟨fun h ↦ by simp at h, fun _ ↦ ⟨rfl, rfl⟩⟩, fun h ↦ absurd h Bool.false_ne_true⟩
  | true =>
    let s : WorkerState σ := ⟨{ UpdiApp.alloc with
      transport := some true, linkTransport := true, session := UpdiSession.init }, c⟩
    have he : ensureTransport env ⟨UpdiApp.alloc, c⟩ = ensureTransport env s := by
      unfold ensureTransport updateApp
      rw [Prog.read_bind_run, ha]
      rfl
    have hrun := runOp_congr (t := t) he op
    obtain ⟨hsafe, hinit⟩ := @safe_of_initialised _ t env s ⟨rfl, rfl⟩ op
    unfold Safe at hsafe ⊢
    rw [hrun]
    exact ⟨hsafe, fun _ ↦ hinit⟩

theorem initialised_runOps {s : WorkerState σ} (hs : Initialised s) (ops : List (UpdiOp × Env)) :
    Initialised (runOps t ops s) := by
  induction ops generalizing s with
  | nil => exact hs
  | cons op ops ih => exact ih (safe_of_initialised hs op.1).2

/-- Over every history of operations of a fresh app: all of them are safe
exactly if there is at most one, or the first could acquire the serial port. -/
theorem history_safe_iff (t : UpdiTransport σ) (c : σ) (ops : List (UpdiOp × Env)) :
    (∀ before op after, ops = before ++ op :: after →
      Safe t op.1 op.2 (runOps t before ⟨UpdiApp.alloc, c⟩)) ↔
    ops.length ≤ 1 ∨ ∃ op rest, ops = op :: rest ∧ op.2.acquire = true := by
  constructor
  · intro h
    match ops with
    | [] => exact .inl (Nat.zero_le _)
    | [op] => exact .inl le_rfl
    | op₁ :: op₂ :: rest =>
      refine .inr ⟨op₁, _, rfl, ?_⟩
      by_contra ha
      have hrun := runOp_first (t := t) (c := c) op₁.1 (Bool.eq_false_iff.mpr ha)
      have hstuck : Stuck (runOps t [op₁] ⟨UpdiApp.alloc, c⟩) := by
        have hs : runOps t [op₁] ⟨UpdiApp.alloc, c⟩ = (runOp t op₁.2 op₁.1 ⟨UpdiApp.alloc, c⟩).2 :=
          rfl
        rw [hs, hrun]
        exact ⟨rfl, rfl⟩
      have hsafe := h [op₁] op₂ rest rfl
      exact hsafe.1 (congrArg Prod.fst (runOp_stuck hstuck op₂.1))
  · intro h before op after hops
    cases before with
    | nil => exact (safe_first op.1 c).1
    | cons op₁ before =>
      rcases h with hlen | ⟨op', rest, hops', ha⟩
      · rw [hops] at hlen
        simp only [List.cons_append, List.length_cons, List.length_append] at hlen
        omega
      · rw [hops, List.cons_append, List.cons.injEq] at hops'
        obtain ⟨rfl, -⟩ := hops'
        have hinit := (safe_first (t := t) op₁.1 c).2 ha
        exact (safe_of_initialised (initialised_runOps hinit before) op.1).1

def plainEnv (acquire : Bool) : Env := ⟨acquire, true, none, true, fun _ line ↦ line.length⟩

/-- Two connects in a row, the first while another app holds the serial port. -/
theorem second_connect_not_safe : ¬∀ before op after,
    [(UpdiOp.connect, plainEnv false), (UpdiOp.connect, plainEnv true)] = before ++ op :: after →
      Safe .silent op.1 op.2 (runOps .silent before ⟨UpdiApp.alloc, ()⟩) := by
  intro h
  exact (h [(.connect, plainEnv false)] (.connect, plainEnv true) [] rfl).1 rfl

end Worker

end UpdiProgrammer.Ui

import UpdiProgrammer.Ui.Availability
import UpdiProgrammer.Ui.LockEvidence

namespace UpdiProgrammer.Ui

open Updi Hex UpdiLink UpdiNvm UpdiSession Connect Worker Library.Program Prog
open UpdiTransport (Event)

namespace Release

variable {σ α β : Type} (t : UpdiTransport σ) (env : Env)

def allowsErase : UpdiOp → Bool
  | .chipErase | .flash => true
  | _ => false

/-- An operation between its connect and its disconnect, with the status it
keeps for the end. A failure here is an early return. -/
def afterConnect : UpdiOp → WorkerM σ (Except Halt Unit)
  | .connect => pure (.ok ())
  | .chipErase => attempt (onSession (UpdiSession.chipErase t))
  | .flash => do
    let dev ← sessionDevice
    let image ← readImage env dev
    onSession (UpdiSession.chipErase t)
    onSession (UpdiSession.writeFlash t image)
    attempt (verifyImage t image)
  | .verify => do
    let dev ← sessionDevice
    let image ← readImage env dev
    attempt (verifyImage t image)
  | .dump => do
    let dev ← sessionDevice
    if !env.malloc then fail (.status .param)
    else do
      let buf ← onSession (UpdiSession.readFlash t dev.flashSize)
      if !env.dumpOpens then fail (.status .param)
      else do
        let (hs, sink) := Hex.write buf 0 32 (hexFileSink env.storageWrite) ⟨[], 0, true⟩
        updateApp fun a ↦ { a with dumpFile := sink.file }
        pure (if hs = .ok ∧ sink.ok then .ok () else .error (.status .param))
  | .readFuses => do
    let dev ← sessionDevice
    let st ← attempt (onSession (UpdiSession.readFuses t
      (if dev.fusesSize < fusesMax then dev.fusesSize else fusesMax)))
    updateApp fun a ↦ { a with fuses := match st with | .ok l => l | .error _ => a.fuses }
    pure (st.map fun _ ↦ ())

def untilDisconnect (op : UpdiOp) : WorkerM σ (Except Halt Unit) := do
  doConnect t env (allowsErase op)
  afterConnect t env op

/-- Every operation is a connect, its own work, and the disconnect, which
only an early return skips. -/
theorem runOp_eq (op : UpdiOp) :
    runOp t env op = untilDisconnect t env op >>= fun st ↦
      onSession (UpdiSession.disconnect t) >>= fun _ ↦ ofStatus st := by
  unfold untilDisconnect
  cases op with
  | connect =>
    simp only [runOp, opConnect, Prog.bind_assoc, afterConnect, allowsErase]
    congr 1
    funext _
    exact (Prog.bind_pure _).symm
  | chipErase => simp only [runOp, opChipErase, Prog.bind_assoc, afterConnect, allowsErase]
  | flash => simp only [runOp, opFlash, Prog.bind_assoc, afterConnect, allowsErase]
  | verify => simp only [runOp, opVerify, Prog.bind_assoc, afterConnect, allowsErase]
  | dump =>
    simp only [runOp, opDump, Prog.bind_assoc, Prog.ite_bind, Prog.fail_bind, Prog.pure_bind,
      Prog.ofStatus_ite, afterConnect, allowsErase]
  | readFuses =>
    simp only [runOp, opReadFuses, Prog.bind_assoc, afterConnect, allowsErase]
    rfl

variable {t env}

theorem reads_afterConnect {op : UpdiOp} (h : allowsErase op = false) :
    WorkerSends ReadFrame (afterConnect t.recorded env op) := by
  cases op with
  | connect => exact .pure
  | chipErase => cases h
  | flash => cases h
  | verify =>
    refine sends_sessionDevice.bind fun dev ↦ (sends_readImage dev).bind fun image ↦ ?_
    exact Only.attempt (sends_verifyImage image)
  | dump =>
    refine sends_sessionDevice.bind fun dev ↦ .ite (fun _ ↦ .fail) fun _ ↦ ?_
    refine (sends_onSession (sends_readFlash dev.flashSize)).bind fun buf ↦ ?_
    exact .ite (fun _ ↦ .fail) fun _ ↦ (sends_updateApp _).bind fun _ ↦ .pure
  | readFuses =>
    refine sends_sessionDevice.bind fun dev ↦ ?_
    refine (Only.attempt (sends_onSession (sends_readFuses _))).bind fun st ↦ ?_
    exact (sends_updateApp _).bind fun _ ↦ .pure

variable (env) in
theorem sends_afterConnect (op : UpdiOp) :
    WorkerSends Ordinary (afterConnect t.recorded env op) := by
  have hlift {α : Type} {m : WorkerM (σ × List Event) α} (h : WorkerSends ReadFrame m) :
      WorkerSends Ordinary m := h.mono (Sends.mono fun _ ↦ ReadFrame.ordinary)
  cases op with
  | chipErase => exact Only.attempt (sends_onSession sends_chipErase)
  | flash =>
    refine sends_sessionDevice.bind fun dev ↦ (sends_readImage dev).bind fun image ↦ ?_
    refine (sends_onSession sends_chipErase).bind fun _ ↦ ?_
    refine (sends_onSession (sends_writeFlash image)).bind fun _ ↦ ?_
    exact Only.attempt (hlift (sends_verifyImage image))
  | connect => exact hlift (reads_afterConnect rfl)
  | verify => exact hlift (reads_afterConnect rfl)
  | dump => exact hlift (reads_afterConnect rfl)
  | readFuses => exact hlift (reads_afterConnect rfl)

/-- A non-zero ASI_RESET_REQ was written. -/
def Resets (l : List Event) : Prop :=
  ∃ v ok, v ≠ 0 ∧ .sent (stcsFrame asiResetReq v) ok ∈ l

theorem not_resets_of_ordinary {l : List Event} (h : ∀ e ∈ l, Sends Ordinary e) : ¬Resets l := by
  rintro ⟨v, ok, -, hmem⟩
  have hframe : Ordinary (stcsFrame asiResetReq v) := h _ hmem
  rcases hframe with hread | hlen
  · exact hread.ne_reset v rfl
  · exact hlen rfl

/-- `updi_nvm_leave_progmode` has been issued, the last reset request is the
release, and the session counts as closed. -/
def Released (l : List Event) (session : UpdiSession) : Prop :=
  ∃ before after, l = before ++ [.sent (stcsFrame asiResetReq resetReqValue) true,
      .sent (stcsFrame asiResetReq 0x00) true,
      .sent (stcsFrame csCtrlb (ctrlbUpdidis ||| ctrlbCcdetdis)) true] ++ after ∧
    (∀ v ok, .sent (stcsFrame asiResetReq v) ok ∉ after) ∧ session.connected = false

/-- The target is reached but not in programming mode yet when connect looks. -/
def NeedsReset (t : UpdiTransport σ) (env : Env) (s : WorkerState (σ × List Event)) : Prop :=
  ∃ s₁ s₂, ensureTransport env s = (.ok (), s₁) ∧ onSession (probe t.recorded) s₁ = (.ok false, s₂)

theorem Resets.append {l : List Event} (h : Resets l) (l' : List Event) : Resets (l ++ l') := by
  obtain ⟨v, ok, hv, hmem⟩ := h
  exact ⟨v, ok, hv, List.mem_append_left l' hmem⟩

theorem Resets.prepend {l' : List Event} (h : Resets l') (l : List Event) : Resets (l ++ l') := by
  obtain ⟨v, ok, hv, hmem⟩ := h
  exact ⟨v, ok, hv, List.mem_append_right l hmem⟩

theorem not_resets_of_reads {l : List Event} (h : ∀ e ∈ l, Sends ReadFrame e) : ¬Resets l :=
  not_resets_of_ordinary fun e he ↦ Sends.mono (fun _ ↦ ReadFrame.ordinary) e (h e he)

theorem emits_handOver : Emits linkLog (handOver t.recorded false) fun l _ ↦ Resets l := by
  have hany {data : List UInt8} : (fun _ : List UInt8 ↦ True) data := trivial
  have hreset : Emits linkLog (nvmReset t.recorded true) fun l _ ↦ Resets l := by
    refine (emits_send t _).mono fun l r ↦ ?_
    rintro (⟨rfl, -⟩ | ⟨rfl, -⟩)
    · exact ⟨resetReqValue, true, by decide, List.mem_singleton.mpr rfl⟩
    · exact ⟨resetReqValue, false, by decide, List.mem_singleton.mpr rfl⟩
  have hkey : Emits linkLog (applyNvmprogKey t.recorded) fun l _ ↦ Resets l := by
    refine hreset.bind_before (F := Sends fun _ ↦ True) (fun _ ↦ ?_) fun l l' h ↦ h.append l'
    refine Only.bind (sends_sendKey trivial trivial) fun _ ↦
      Only.bind (sends_ldcs trivial) fun _ ↦ ?_
    exact .ite (fun _ ↦ .fail) fun _ ↦ sends_toggleReset fun _ ↦ trivial
  exact hkey.bind_before (F := Sends fun _ ↦ True) (fun _ ↦ Only.pure) fun l l' h ↦ h.append l'

theorem connect_resets (s : SessionState (σ × List Event)) :
    ∃ l, (connect t.recorded s).2.ctx.2 = s.ctx.2 ++ l ∧
      (Resets l ↔ (probe t.recorded s).1 = .ok false) := by
  have htail (asked : Bool) : SessionSends ReadFrame
      (onLink (awaitUnlock t.recorded asked) >>= fun _ ↦ identify t.recorded) :=
    (sends_onLink (sends_awaitUnlock asked)).bind fun _ ↦ sends_identify
  have heq : connect t.recorded = probe t.recorded >>= fun inMode ↦
      onLink (handOver t.recorded inMode) >>= fun asked ↦
        onLink (awaitUnlock t.recorded asked) >>= fun _ ↦ identify t.recorded := by
    rw [connect_eq, approach, Prog.bind_assoc]
  obtain ⟨l₁, hl₁, hprobe⟩ := sends_probe (t := t) s
  rw [heq, bind_run]
  rcases hrun : probe t.recorded s with ⟨e | inMode, s'⟩ <;> rw [hrun] at hl₁
  · exact ⟨l₁, hl₁, fun h ↦ absurd h (not_resets_of_reads hprobe), fun h ↦ by cases h⟩
  · cases inMode with
    | true =>
      obtain ⟨l₂, hl₂, hrest⟩ := htail false s'
      refine ⟨l₁ ++ l₂, ?_, fun h ↦ absurd h (not_resets_of_reads fun e he ↦ ?_),
        fun h ↦ by cases h⟩
      · rw [← List.append_assoc]
        exact hl₂.trans (congrArg (· ++ l₂) hl₁)
      · rcases List.mem_append.mp he with he | he
        · exact hprobe e he
        · exact hrest e he
    | false =>
      obtain ⟨l₂, hl₂, hreset⟩ := (emits_onLink emits_handOver).bind_before htail
        (fun l l' h ↦ Resets.append h l') s'
      refine ⟨l₁ ++ l₂, ?_, fun _ ↦ rfl, fun _ ↦ hreset.prepend l₁⟩
      rw [← List.append_assoc]
      exact hl₂.trans (congrArg (· ++ l₂) hl₁)

variable (env) in
theorem ensureTransport_ctx (s : WorkerState σ) : (ensureTransport env s).2.ctx = s.ctx := by
  unfold ensureTransport updateApp
  rw [read_bind_run]
  split_ifs <;> rfl

/-- The retry of a locked part, which comes after a reset in any case. -/
theorem connectSession_resets (allowErase : Bool) {s : WorkerState (σ × List Event)}
    (hlink : s.app.linkTransport = true) :
    ∃ l, (connectSession t.recorded allowErase s).2.ctx.2 = s.ctx.2 ++ l ∧
      (Resets l ↔ (probe t.recorded ⟨s.app.session, s.ctx⟩).1 = .ok false) := by
  obtain ⟨l₁, hl₁, hiff⟩ := connect_resets (t := t) ⟨s.app.session, s.ctx⟩
  unfold connectSession
  rw [attempt_bind_run, onSession_run hlink]
  match hr : (connect t.recorded ⟨s.app.session, s.ctx⟩).1 with
  | .ok _ => exact ⟨l₁, hl₁, hiff⟩
  | .error .nullDevice => exact ⟨l₁, hl₁, hiff⟩
  | .error .nullTransport => exact ⟨l₁, hl₁, hiff⟩
  | .error (.status e) =>
    by_cases hlocked : e = .locked
    · subst hlocked
      obtain ⟨s', happ, -, -⟩ := (LockEvidence.connect_locked_iff _).mp hr
      have hprobe : (probe t.recorded ⟨s.app.session, s.ctx⟩).1 = .ok false := by
        unfold approach at happ
        obtain ⟨inMode, u, hrun, hhand⟩ := bind_eq_ok.mp happ
        cases inMode with
        | true => cases congrArg Prod.fst hhand
        | false => exact congrArg Prod.fst hrun
      have hretry : WorkerSends (fun _ ↦ True) (if allowErase then do
            onSession (UpdiSession.unlock t.recorded)
            onSession (connect t.recorded)
          else fail (.status .locked) : WorkerM (σ × List Event) Unit) := by
        refine .ite (fun _ ↦ ?_) fun _ ↦ .fail
        refine (sends_onSession (sends_onLink (sends_unlock ?_ ?_ trivial trivial))).bind fun _ ↦ ?_
        · exact fun _ ↦ trivial
        · exact fun _ _ ↦ trivial
        · exact sends_onSession
            (sends_connect (fun _ ↦ trivial) (fun _ _ ↦ trivial) trivial trivial)
      obtain ⟨l₂, hl₂, -⟩ := hretry (afterCall s (connect t.recorded ⟨s.app.session, s.ctx⟩).2)
      refine ⟨l₁ ++ l₂, ?_, fun _ ↦ hprobe, fun h ↦ (hiff.mpr h).append l₂⟩
      rw [← List.append_assoc]
      exact hl₂.trans (congrArg (· ++ l₂) hl₁)
    · refine ⟨l₁, ?_, hiff⟩
      cases e <;> first | exact hl₁ | exact absurd rfl hlocked

variable (env) in
theorem doConnect_resets (allowErase : Bool) (s : WorkerState (σ × List Event)) :
    ∃ l, (doConnect t.recorded env allowErase s).2.ctx.2 = s.ctx.2 ++ l ∧
      (Resets l ↔ NeedsReset t env s) := by
  have hctx := ensureTransport_ctx env s
  have hnone : ¬Resets [] := fun h ↦ by obtain ⟨v, ok, -, hmem⟩ := h; cases hmem
  unfold doConnect NeedsReset
  rw [bind_run]
  rcases hrun : ensureTransport env s with ⟨e | u, s₁⟩ <;> rw [hrun] at hctx
  · refine ⟨[], ?_, fun h ↦ absurd h hnone, ?_⟩
    · rw [List.append_nil]
      exact congrArg Prod.snd hctx
    · rintro ⟨_, _, h, -⟩
      cases h
  · have hlog : s₁.ctx.2 = s.ctx.2 := congrArg Prod.snd hctx
    rw [← hlog]
    -- the app's own bookkeeping after the session is connected sends nothing
    have hflag : ∀ m : WorkerM (σ × List Event) Unit, ((m >>= fun _ ↦ updateApp fun a ↦
        { a with haveDevice := true }) s₁).2.ctx = (m s₁).2.ctx := by
      intro m
      rw [bind_run]
      rcases m s₁ with ⟨e | a, s₂⟩ <;> rfl
    cases hlink : s₁.app.linkTransport with
    | false =>
      have hnull {γ : Type} (m : SessionM (σ × List Event) γ) :
          onSession m s₁ = (.error .nullTransport, s₁) :=
        if_neg (by rw [hlink]; exact Bool.false_ne_true)
      refine ⟨[], ?_, fun h ↦ absurd h hnone, ?_⟩
      · refine (congrArg Prod.snd (hflag _)).trans ?_
        rw [List.append_nil, connectSession, attempt_bind_run, hnull]
        rfl
      · rintro ⟨s₁', s₂, h, hprobe⟩
        cases h
        rw [hnull] at hprobe
        cases hprobe
    | true =>
      obtain ⟨l, hl, hiff⟩ := connectSession_resets (t := t) allowErase hlink
      refine ⟨l, (congrArg Prod.snd (hflag _)).trans hl, hiff.trans ⟨fun h ↦ ?_, ?_⟩⟩
      · refine ⟨s₁, afterCall s₁ (probe t.recorded ⟨s₁.app.session, s₁.ctx⟩).2, rfl, ?_⟩
        rw [onSession_run hlink, h]
      · rintro ⟨s₁', s₂, h, hprobe⟩
        cases h
        rw [onSession_run hlink] at hprobe
        exact congrArg Prod.fst hprobe

variable (env) in
theorem untilDisconnect_resets (op : UpdiOp) (s : WorkerState (σ × List Event)) :
    ∃ l, (untilDisconnect t.recorded env op s).2.ctx.2 = s.ctx.2 ++ l ∧
      (Resets l ↔ NeedsReset t env s) := by
  obtain ⟨l₁, hl₁, hiff⟩ := doConnect_resets (t := t) env (allowsErase op) s
  unfold untilDisconnect
  rw [bind_run]
  rcases hrun : doConnect t.recorded env (allowsErase op) s with ⟨e | u, s'⟩ <;> rw [hrun] at hl₁
  · exact ⟨l₁, hl₁, hiff⟩
  · obtain ⟨l₂, hl₂, hrest⟩ := sends_afterConnect (t := t) env op s'
    refine ⟨l₁ ++ l₂, ?_, fun h ↦ hiff.mp ?_, fun h ↦ (hiff.mpr h).append l₂⟩
    · rw [← List.append_assoc]
      exact hl₂.trans (congrArg (· ++ l₂) hl₁)
    · obtain ⟨v, ok, hv, hmem⟩ := h
      rcases List.mem_append.mp hmem with hmem | hmem
      · exact ⟨v, ok, hv, hmem⟩
      · exact absurd ⟨v, ok, hv, hmem⟩ (not_resets_of_ordinary hrest)

def KeepsUpdi (data : List UInt8) : Prop :=
  data ≠ stcsFrame csCtrlb (ctrlbUpdidis ||| ctrlbCcdetdis)

theorem Ordinary.keepsUpdi {data : List UInt8} (h : Ordinary data) : KeepsUpdi data := by
  rcases h with hread | hlen
  · exact hread.ne_disable
  · exact fun heq ↦ hlen (congrArg List.length heq)

variable (env) in
theorem untilDisconnect_keepsUpdi (op : UpdiOp) :
    WorkerSends KeepsUpdi (untilDisconnect t.recorded env op) := by
  have hread : ∀ data, ReadFrame data → KeepsUpdi data := fun _ ↦ ReadFrame.ne_disable
  have hreset : ∀ v, KeepsUpdi (stcsFrame asiResetReq v) :=
    fun v heq ↦ absurd (List.cons.inj (List.cons.inj heq).2).1 (by decide)
  have hopcode : KeepsUpdi [phySync, updiKey ||| keyKey ||| key64] := by unfold KeepsUpdi; decide
  have hconnect : WorkerSends KeepsUpdi (onSession (connect t.recorded)) :=
    sends_onSession (sends_connect hreset hread hopcode (by unfold KeepsUpdi; decide))
  have hunlock : WorkerSends KeepsUpdi (onSession (UpdiSession.unlock t.recorded)) :=
    sends_onSession (sends_onLink (sends_unlock hreset hread hopcode (by unfold KeepsUpdi; decide)))
  have hsession (allowErase : Bool) :
      WorkerSends KeepsUpdi (connectSession t.recorded allowErase) := by
    refine (Only.attempt hconnect).bind fun r ↦ ?_
    split
    · exact .ite (fun _ ↦ hunlock.bind fun _ ↦ hconnect) fun _ ↦ .fail
    · exact .ofStatus
  refine Only.bind ?_ fun _ ↦
    (sends_afterConnect env op).mono (Sends.mono fun _ ↦ Ordinary.keepsUpdi)
  exact sends_ensureTransport.bind fun _ ↦ (hsession _).bind fun _ ↦ sends_updateApp _

theorem not_released_of_keepsUpdi {l : List Event} {session : UpdiSession}
    (h : ∀ e ∈ l, Sends KeepsUpdi e) : ¬Released l session := by
  rintro ⟨before, after, rfl, -⟩
  refine absurd rfl (h (.sent (stcsFrame csCtrlb (ctrlbUpdidis ||| ctrlbCcdetdis)) true) ?_)
  simp

section Linked

/-- The transport pointer of the session's link stays set. -/
def Keeps (m : WorkerM σ α) : Prop :=
  Triple (fun s ↦ s.app.linkTransport = true) m (fun _ s ↦ s.app.linkTransport = true) fun _ s ↦
    s.app.linkTransport = true

variable {t : UpdiTransport σ}

theorem Keeps.bind {m : WorkerM σ α} {k : α → WorkerM σ β} (hm : Keeps m) (hk : ∀ a, Keeps (k a)) :
    Keeps (m >>= k) := Triple.bind hm hk

theorem keeps_onSession (m : SessionM σ α) : Keeps (onSession m) := by
  intro s hs
  rw [onSession_run hs]
  rcases m ⟨s.app.session, s.ctx⟩ with ⟨e | a, u⟩ <;> exact hs

theorem keeps_updateApp {f : UpdiApp → UpdiApp} (hf : ∀ a, (f a).linkTransport = a.linkTransport) :
    Keeps (updateApp f : WorkerM σ Unit) := .modify fun s hs ↦ (hf s.app).trans hs

theorem keeps_attempt {m : WorkerM σ α} (h : Keeps m) : Keeps (attempt m) := Triple.attempt h

theorem keeps_pure (a : α) : Keeps (pure a : WorkerM σ α) := .pure fun _ hs ↦ hs

theorem keeps_fail (e : Halt) : Keeps (fail e : WorkerM σ α) := .fail fun _ hs ↦ hs

theorem keeps_sessionDevice : Keeps (sessionDevice : WorkerM σ UpdiDevice) := by
  intro s hs
  unfold sessionDevice
  cases s.app.session.device with
  | none => exact hs
  | some d => exact hs

theorem keeps_readImage (d : UpdiDevice) : Keeps (readImage env d : WorkerM σ (List UInt8)) := by
  refine .ite (fun _ ↦ keeps_fail _) fun _ ↦ ?_
  split
  · exact keeps_fail _
  · exact keeps_pure _

theorem keeps_verifyImage (image : List UInt8) : Keeps (verifyImage t image) := by
  refine (keeps_onSession _).bind fun r ↦ ?_
  cases r with
  | none => exact keeps_pure _
  | some m => exact Keeps.bind (keeps_updateApp fun _ ↦ rfl) fun _ ↦ keeps_fail _

theorem keeps_afterConnect (op : UpdiOp) : Keeps (afterConnect t env op) := by
  cases op with
  | connect => exact keeps_pure _
  | chipErase => exact keeps_attempt (keeps_onSession _)
  | flash =>
    refine keeps_sessionDevice.bind fun dev ↦ (keeps_readImage dev).bind fun image ↦ ?_
    refine (keeps_onSession _).bind fun _ ↦ (keeps_onSession _).bind fun _ ↦ ?_
    exact keeps_attempt (keeps_verifyImage image)
  | verify =>
    refine keeps_sessionDevice.bind fun dev ↦ (keeps_readImage dev).bind fun image ↦ ?_
    exact keeps_attempt (keeps_verifyImage image)
  | dump =>
    refine keeps_sessionDevice.bind fun dev ↦ .ite (fun _ ↦ keeps_fail _) fun _ ↦ ?_
    refine (keeps_onSession _).bind fun buf ↦ .ite (fun _ ↦ keeps_fail _) fun _ ↦ ?_
    exact Keeps.bind (keeps_updateApp fun _ ↦ rfl) fun _ ↦ keeps_pure _
  | readFuses =>
    refine keeps_sessionDevice.bind fun dev ↦ (keeps_attempt (keeps_onSession _)).bind fun st ↦ ?_
    exact Keeps.bind (keeps_updateApp fun _ ↦ rfl) fun _ ↦ keeps_pure _

theorem doConnect_linked (allowErase : Bool) :
    Triple (fun _ ↦ True) (doConnect t env allowErase) (fun _ s ↦ s.app.linkTransport = true)
      fun _ _ ↦ True := by
  intro s _
  rcases hconn : doConnect t env allowErase s with ⟨e | u, s'⟩
  · trivial
  · exact (doConnect_live hconn).link

end Linked

section Outcomes

variable {t : UpdiTransport σ} {env : Env} {s : WorkerState σ}

/-- The storage and the calls of a connected operation do what it returns early
without: the buffer is there, the file is read, the flash erased, written or read,
and the dump file created. -/
def Proceeds (t : UpdiTransport σ) (env : Env) (d : UpdiDevice) (s : WorkerState σ) : UpdiOp → Prop
  | .flash => env.malloc = true ∧
    ∃ img, parseHexFile env.hexFile (IntelHexImage.init (fun _ ↦ 0xFF) d.flashSize 0 0xFF) =
      (.ok (), img) ∧
      ∃ s₁ s₂, onSession (UpdiSession.chipErase t) s = (.ok (), s₁) ∧
        onSession (UpdiSession.writeFlash t ((List.range img.maxOffset).map img.data)) s₁ =
          (.ok (), s₂)
  | .verify => env.malloc = true ∧
    (parseHexFile env.hexFile (IntelHexImage.init (fun _ ↦ 0xFF) d.flashSize 0 0xFF)).1 = .ok ()
  | .dump => env.malloc = true ∧ env.dumpOpens = true ∧
    (onSession (UpdiSession.readFlash t d.flashSize) s).1.isOk = true
  | _ => True

theorem readImage_ok_iff {d : UpdiDevice} {image : List UInt8} {s' : WorkerState σ} :
    readImage env d s = (.ok image, s') ↔ env.malloc = true ∧
      (∃ img, parseHexFile env.hexFile (IntelHexImage.init (fun _ ↦ 0xFF) d.flashSize 0 0xFF) =
        (.ok (), img) ∧
        image = (List.range img.maxOffset).map img.data) ∧ s' = s := by
  unfold readImage
  cases env.malloc with
  | false => simp
  | true =>
    rcases parseHexFile env.hexFile
      (IntelHexImage.init (fun _ ↦ 0xFF) d.flashSize 0 0xFF) with ⟨e | u, img⟩
    · simp
    · simp [eq_comm]

theorem afterConnect_ok_iff {d : UpdiDevice} (hd : s.app.session.device = some d) (op : UpdiOp) :
    (∃ st s', afterConnect t env op s = (.ok st, s')) ↔ Proceeds t env d s op := by
  have hdev : sessionDevice s = (.ok d, s) := by
    unfold sessionDevice
    rw [hd]
  have hattempt {γ : Type} (m : WorkerM σ γ) (s : WorkerState σ) :
      ∃ st s', attempt m s = (.ok st, s') :=
    ⟨_, _, attempt_run m s⟩
  cases op with
  | connect => exact iff_of_true ⟨_, _, rfl⟩ trivial
  | chipErase => exact iff_of_true (hattempt _ s) trivial
  | readFuses =>
    simp only [afterConnect, bind_ok hdev]
    exact iff_of_true ⟨_, _, rfl⟩ trivial
  | verify =>
    simp only [afterConnect, bind_ok hdev]
    constructor
    · rintro ⟨st, s', h⟩
      obtain ⟨image, s₁, hread, -⟩ := bind_eq_ok.mp h
      obtain ⟨hmalloc, ⟨img, himg, -⟩, -⟩ := readImage_ok_iff.mp hread
      exact ⟨hmalloc, congrArg Prod.fst himg⟩
    · rintro ⟨hmalloc, hfile⟩
      have hread : ∃ image, readImage env d s = (.ok image, s) :=
        ⟨_, readImage_ok_iff.mpr ⟨hmalloc, ⟨_, Prod.ext hfile rfl, rfl⟩, rfl⟩⟩
      obtain ⟨image, hread⟩ := hread
      rw [bind_ok hread]
      exact hattempt _ s
  | flash =>
    simp only [afterConnect, bind_ok hdev]
    constructor
    · rintro ⟨st, s', h⟩
      obtain ⟨image, s₀, hread, hcalls⟩ := bind_eq_ok.mp h
      obtain ⟨hmalloc, ⟨img, himg, rfl⟩, hsame⟩ := readImage_ok_iff.mp hread
      subst hsame
      obtain ⟨_, s₁, herase, hrest⟩ := bind_eq_ok.mp hcalls
      obtain ⟨_, s₂, hwrite, -⟩ := bind_eq_ok.mp hrest
      exact ⟨hmalloc, img, himg, s₁, s₂, herase, hwrite⟩
    · rintro ⟨hmalloc, img, himg, s₁, s₂, herase, hwrite⟩
      have hread : readImage env d s = (.ok ((List.range img.maxOffset).map img.data), s) :=
        readImage_ok_iff.mpr ⟨hmalloc, ⟨img, himg, rfl⟩, rfl⟩
      rw [bind_ok hread, bind_ok herase, bind_ok hwrite]
      exact hattempt _ s₂
  | dump =>
    simp only [afterConnect, bind_ok hdev]
    unfold Proceeds
    cases env.malloc with
    | false => simp
    | true =>
      rcases hread : onSession (UpdiSession.readFlash t d.flashSize) s with ⟨e | buf, s₁⟩
      · simp [bind_error hread, Except.isOk, Except.toBool]
      · cases env.dumpOpens with
        | false => simp [bind_ok hread]
        | true =>
          simp only [Bool.not_true, Bool.false_eq_true, if_false, bind_ok hread]
          exact iff_of_true ⟨_, _, rfl⟩ ⟨trivial, trivial, rfl⟩

/-- An operation comes to its disconnect just in case the connect and what it
returns early without succeed. -/
theorem untilDisconnect_ok_iff (op : UpdiOp) :
    (∃ st s', untilDisconnect t env op s = (.ok st, s')) ↔
    ∃ d s₁, doConnect t env (allowsErase op) s = (.ok (), s₁) ∧ s₁.app.session.device = some d ∧
      Proceeds t env d s₁ op := by
  constructor
  · rintro ⟨st, s', h⟩
    obtain ⟨_, s₁, hconn, hrest⟩ := bind_eq_ok.mp h
    obtain ⟨d, -, hd⟩ := (doConnect_live hconn).device
    exact ⟨d, s₁, hconn, hd, (afterConnect_ok_iff hd op).mp ⟨st, s', hrest⟩⟩
  · rintro ⟨d, s₁, hconn, hd, hproceeds⟩
    obtain ⟨st, s', hrest⟩ := (afterConnect_ok_iff hd op).mpr hproceeds
    exact ⟨st, s', (bind_ok hconn _).trans hrest⟩

end Outcomes

section Reliable

variable {t : UpdiTransport σ} (ht : t.Reliable)
include ht

theorem send_delivered (data : List UInt8) {log : List Event} {s : LinkState (σ × List Event)}
    (hs : s.ctx.2 = log) :
    Returns (UpdiLink.send t.recorded data) s () fun s ↦ s.ctx.2 = log ++ [.sent data true] := by
  have hok := ht data s.ctx.1
  refine ⟨⟨s.link, (t.recorded.send data s.ctx).2⟩, ?_, ?_⟩
  · have hraw : sendRaw t.recorded data s = (.ok true, ⟨s.link, (t.recorded.send data s.ctx).2⟩) :=
      Prod.ext (congrArg Except.ok hok) rfl
    unfold UpdiLink.send
    rw [bind_ok hraw]
    rfl
  · change s.ctx.2 ++ [.sent data (t.send data s.ctx.1).1] = _
    rw [hok, hs]

theorem disconnect_releases (s : SessionState (σ × List Event)) :
    Returns (UpdiSession.disconnect t.recorded) s () fun s' ↦ Released s'.ctx.2 s'.session := by
  have hleave : Returns (leaveProgmode t.recorded) ⟨s.session.link, s.ctx⟩ () fun l ↦
      l.ctx.2 = s.ctx.2 ++ [.sent (stcsFrame asiResetReq resetReqValue) true] ++
        [.sent (stcsFrame asiResetReq 0x00) true] ++
        [.sent (stcsFrame csCtrlb (ctrlbUpdidis ||| ctrlbCcdetdis)) true] := by
    refine (send_delivered ht _ rfl).attempt.bind fun l hl ↦ ?_
    refine (send_delivered ht _ hl).attempt.bind fun l hl ↦ ?_
    exact send_delivered ht _ hl
  obtain ⟨l, hl, hlog⟩ := hleave
  refine ⟨⟨{ s.session with link := l.link, connected := false }, l.ctx⟩, ?_, s.ctx.2,
    [], ?_, ?_, rfl⟩
  · unfold UpdiSession.disconnect
    rw [attempt_bind_run, onLink_ok hl]
    rfl
  · rw [List.append_nil]
    exact hlog.trans (by simp only [List.append_assoc, List.cons_append, List.nil_append])
  · exact fun _ _ ↦ List.not_mem_nil

/-- Over a transport that delivers every frame: whenever the operation puts
the target in reset it also releases it again, if and only if nothing fails that
it returns early for, or it never had to reset the target. -/
theorem released_iff (env : Env) (op : UpdiOp) (app : UpdiApp) (c : σ) :
    (Resets (runOp t.recorded env op ⟨app, c, []⟩).2.ctx.2 →
      Released (runOp t.recorded env op ⟨app, c, []⟩).2.ctx.2
        (runOp t.recorded env op ⟨app, c, []⟩).2.app.session) ↔
    (∃ d s₁, doConnect t.recorded env (allowsErase op) ⟨app, c, []⟩ = (.ok (), s₁) ∧
      s₁.app.session.device = some d ∧ Proceeds t.recorded env d s₁ op) ∨
        ¬NeedsReset t env ⟨app, c, []⟩ := by
  rw [← untilDisconnect_ok_iff]
  obtain ⟨l, hl, hresets⟩ := untilDisconnect_resets (t := t) env op ⟨app, c, []⟩
  obtain ⟨l', hl', hkeeps⟩ := untilDisconnect_keepsUpdi (t := t) env op ⟨app, c, []⟩
  have hlinked : Triple (fun _ ↦ True) (untilDisconnect t.recorded env op)
      (fun _ s ↦ s.app.linkTransport = true) fun _ _ ↦ True :=
    (doConnect_linked _).bind fun _ ↦
      (keeps_afterConnect op).conseq (fun _ h ↦ h) (fun _ _ h ↦ h) fun _ _ _ ↦ trivial
  rw [runOp_eq, bind_run]
  rcases hrun : untilDisconnect t.recorded env op ⟨app, c, []⟩ with ⟨e | st, s⟩ <;>
    rw [hrun] at hl hl'
  · have hl₀ : s.ctx.2 = l := hl
    have hl₀' : s.ctx.2 = l' := hl'
    constructor
    · refine fun h ↦ .inr fun hneeds ↦ ?_
      have hreset : Resets s.ctx.2 := hl₀ ▸ hresets.mpr hneeds
      exact not_released_of_keepsUpdi (hl₀' ▸ hkeeps) (h hreset)
    · rintro (⟨st, s', h⟩ | hneeds) hreset
      · cases h
      · exact absurd (hresets.mp (hl₀ ▸ hreset)) hneeds
  · refine ⟨fun _ ↦ .inl ⟨st, s, rfl⟩, fun _ _ ↦ ?_⟩
    have hlink : s.app.linkTransport = true := hlinked.ok trivial hrun
    obtain ⟨u, hdisc, hreleased⟩ := disconnect_releases ht ⟨s.app.session, s.ctx⟩
    have hcall : onSession (UpdiSession.disconnect t.recorded) s = (.ok (), afterCall s u) := by
      rw [onSession_run hlink, hdisc]
    dsimp only
    rw [bind_ok hcall]
    cases st with
    | ok a => exact hreleased
    | error e => exact hreleased

end Reliable

/-- What an unlocked tinyAVR answers during a connect: up to the key, then
the system status unlocked and in programming mode, the acknowledgement of
the pointer and the signature. -/
def untilSignature : List (List UInt8) :=
  LockEvidence.untilKeyStatus ++ [[0x82], [0x8A], [0x40], [0x1E, 0x92, 0x23]]

def tinyAvrStart : WorkerState ((List (List UInt8) × UInt32) × List Event) :=
  LockEvidence.ready { UpdiApp.alloc with session := UpdiSession.init } (untilSignature, 0)

theorem connect_released :
    Released (runOp LockEvidence.scripted.recorded (plainEnv true) .connect tinyAvrStart).2.ctx.2
      (runOp LockEvidence.scripted.recorded
        (plainEnv true) .connect tinyAvrStart).2.app.session := by
  have hreliable : LockEvidence.scripted.Reliable := fun _ _ ↦ rfl
  have hconn : doConnect LockEvidence.scripted.recorded (plainEnv true) false tinyAvrStart =
      (.ok (), (doConnect LockEvidence.scripted.recorded
        (plainEnv true) false tinyAvrStart).2) := by
    refine Prod.ext ?_ rfl
    decide +kernel
  obtain ⟨d, -, hd⟩ := (doConnect_live hconn).device
  refine (released_iff hreliable (plainEnv true) .connect tinyAvrStart.app (untilSignature, 0)).mpr
    (.inl ⟨d, _, hconn, hd, trivial⟩) ⟨resetReqValue, true, by decide, ?_⟩
  decide +kernel

/-- A verify whose file cannot be read leaves the target in programming mode. -/
theorem verify_not_released :
    ¬(Resets (runOp LockEvidence.scripted.recorded (plainEnv true) .verify tinyAvrStart).2.ctx.2 →
      Released (runOp LockEvidence.scripted.recorded (plainEnv true) .verify tinyAvrStart).2.ctx.2
        (runOp LockEvidence.scripted.recorded
          (plainEnv true) .verify tinyAvrStart).2.app.session) := by
  intro h
  obtain ⟨before, after, hlog, -⟩ := h ⟨resetReqValue, true, by decide, by decide +kernel⟩
  have hmem : .sent (stcsFrame csCtrlb (ctrlbUpdidis ||| ctrlbCcdetdis)) true ∈
      (runOp LockEvidence.scripted.recorded (plainEnv true) .verify tinyAvrStart).2.ctx.2 := by
    rw [hlog]
    simp
  exact absurd hmem (by decide +kernel)

end Release

end UpdiProgrammer.Ui

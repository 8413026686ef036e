import UpdiProgrammer.Updi.Connect
import UpdiProgrammer.Ui.WorkerTrace

namespace UpdiProgrammer.Ui

open Updi UpdiLink UpdiNvm UpdiSession Connect Library.Program Prog
open UpdiTransport (Event)

namespace LockEvidence

variable {σ : Type} (t : UpdiTransport σ)

/-- A control-register read sends its frame and gets no answer. -/
def Unanswered (l : UpdiLink) (a : UInt8) (c : σ) : Prop :=
  (t.send (ldcsFrame a) c).1 = true → (t.recv 1 l.timeoutMs (t.send (ldcsFrame a) c).2).1 = []

def afterRead (l : UpdiLink) (a : UInt8) (c : σ) : σ :=
  if (t.send (ldcsFrame a) c).1 then (t.recv 1 l.timeoutMs (t.send (ldcsFrame a) c).2).2
  else (t.send (ldcsFrame a) c).2

def clock (c : σ) : UInt32 × σ :=
  match t.millis with
  | some f => f c
  | none => (0, c)

/-- From `c` on, no status read of a poll gets an answer until its time or
its `iters` turns are over. -/
def DeafLoop (l : UpdiLink) (timeoutMs start : UInt32) : (iters : ℕ) → σ → Prop
  | 0, _ => True
  | iters + 1, c => Unanswered t l asiSysStatus c ∧
      (¬timeoutMs ≤ (clock t (afterRead t l asiSysStatus c)).1 - start →
        DeafLoop l timeoutMs start iters (clock t (afterRead t l asiSysStatus c)).2)

/-- The target answers nothing while the unlock is polled for 100 ms. -/
def DeafPoll (l : UpdiLink) (c : σ) : Prop :=
  DeafLoop t l 100 (clock t c).1 nvmMaxPollIters (clock t c).2

theorem millis_run (s : LinkState σ) :
    millis t s = (.ok (clock t s.ctx).1, ⟨s.link, (clock t s.ctx).2⟩) := by
  unfold UpdiLink.millis clock
  cases t.millis with
  | none => rfl
  | some f => rfl

theorem ldcs_cases (a : UInt8) (s : LinkState σ) :
    (Unanswered t s.link a s.ctx ∧
      ∃ e, ldcs t a s = (.error e, ⟨s.link, afterRead t s.link a s.ctx⟩)) ∨
    ∃ b, (t.send (ldcsFrame a) s.ctx).1 = true ∧
      (t.recv 1 s.link.timeoutMs (t.send (ldcsFrame a) s.ctx).2).1 = [b] ∧
      ldcs t a s = (.ok b, ⟨s.link, afterRead t s.link a s.ctx⟩) := by
  have hraw : sendRaw t (ldcsFrame a) s =
    (.ok (t.send (ldcsFrame a) s.ctx).1, ⟨s.link, (t.send (ldcsFrame a) s.ctx).2⟩) := rfl
  cases hsend : (t.send (ldcsFrame a) s.ctx).1 with
  | false =>
    have hs : UpdiLink.send t (ldcsFrame a) s =
        (.error .transport, ⟨s.link, (t.send (ldcsFrame a) s.ctx).2⟩) := by
      unfold UpdiLink.send
      rw [bind_ok hraw, hsend]
      rfl
    refine .inl ⟨fun h ↦ absurd (hsend.symm.trans h) Bool.false_ne_true, .transport, ?_⟩
    unfold afterRead
    rw [if_neg (by rw [hsend]; exact Bool.false_ne_true)]
    exact bind_error hs _
  | true =>
    have hs : UpdiLink.send t (ldcsFrame a) s =
        (.ok (), ⟨s.link, (t.send (ldcsFrame a) s.ctx).2⟩) := by
      unfold UpdiLink.send
      rw [bind_ok hraw, hsend]
      rfl
    have hafter : afterRead t s.link a s.ctx =
        (t.recv 1 s.link.timeoutMs (t.send (ldcsFrame a) s.ctx).2).2 := if_pos hsend
    have hrecv : ldcs t a s = recvByte t ⟨s.link, (t.send (ldcsFrame a) s.ctx).2⟩ := bind_ok hs _
    have hlen := t.recv_length 1 s.link.timeoutMs (t.send (ldcsFrame a) s.ctx).2
    have hrun : recvRaw t 1 ⟨s.link, (t.send (ldcsFrame a) s.ctx).2⟩ =
        (.ok (t.recv 1 s.link.timeoutMs (t.send (ldcsFrame a) s.ctx).2).1,
          ⟨s.link, afterRead t s.link a s.ctx⟩) := by
      rw [hafter]
      rfl
    unfold Unanswered
    rw [hrecv]
    unfold recvByte
    rw [bind_ok hrun]
    generalize (t.recv 1 s.link.timeoutMs (t.send (ldcsFrame a) s.ctx).2).1 = buf at hlen
    cases buf with
    | nil => exact .inl ⟨fun _ ↦ rfl, .timeout, rfl⟩
    | cons b rest =>
      obtain rfl : rest = [] := List.length_eq_zero_iff.mp (by simpa using hlen)
      exact .inr ⟨b, rfl, rfl, rfl⟩

/-- The bytes that answered the reads of ASI_SYS_STATUS, in order. -/
def statusAnswers : (asked : Bool) → List Event → List UInt8
  | _, [] => []
  | _, .sent data ok :: es => statusAnswers (ok && data == ldcsFrame asiSysStatus) es
  | asked, .received _ data :: es => (if asked then data else []) ++ statusAnswers false es
  | _, .broke :: es => statusAnswers false es
  | _, .clock _ :: es => statusAnswers false es

def isRelease : Event → Bool
  | .sent data _ => data == stcsFrame asiResetReq 0x00
  | _ => false

/-- What happened since the reset was released for the last time. -/
def sinceRelease (log : List Event) : List Event := log.rtakeWhile (!isRelease ·)

def Locked (status : UInt8) : Prop := status &&& sysStatusLockstatus ≠ 0

/-- The NVMPROG key went out, and since the reset that applied it the
target has reported itself locked at least once, and never unlocked. -/
structure Evidence (log : List Event) : Prop where
  key : .sent keyNvm.reverse true ∈ log
  locked : ∃ status ∈ statusAnswers false (sinceRelease log), Locked status
  never_unlocked : ∀ status ∈ statusAnswers false (sinceRelease log), Locked status

section Poll

variable {t} {l : List Event}

/-- One read of a poll, seen in the log: it adds its answer, if it got one. -/
theorem pollRead_cases (s : LinkState (σ × List Event)) :
    ∃ l, (afterRead t.recorded s.link asiSysStatus s.ctx).2 = s.ctx.2 ++ l ∧
      ((Unanswered t.recorded s.link asiSysStatus s.ctx ∧
        (∃ e, ldcs t.recorded asiSysStatus s =
          (.error e, ⟨s.link, afterRead t.recorded s.link asiSysStatus s.ctx⟩)) ∧
        ∀ l', statusAnswers false (l ++ l') = statusAnswers false l') ∨
      ∃ b, ¬Unanswered t.recorded s.link asiSysStatus s.ctx ∧
        ldcs t.recorded asiSysStatus s =
          (.ok b, ⟨s.link, afterRead t.recorded s.link asiSysStatus s.ctx⟩) ∧
        ∀ l', statusAnswers false (l ++ l') = b :: statusAnswers false l') := by
  have hcases := ldcs_cases t.recorded asiSysStatus s
  cases hsend : (t.send (ldcsFrame asiSysStatus) s.ctx.1).1 with
  | false =>
    have hsend' : (t.recorded.send (ldcsFrame asiSysStatus) s.ctx).1 = false := hsend
    refine ⟨[.sent (ldcsFrame asiSysStatus) false], ?_, .inl ?_⟩
    · simp [afterRead, UpdiTransport.recorded, hsend]
    · rcases hcases with ⟨hun, hrun⟩ | ⟨b, hok, -⟩
      · exact ⟨hun, hrun, fun _ ↦ rfl⟩
      · exact absurd (hsend'.symm.trans hok) Bool.false_ne_true
  | true =>
    have hsend' : (t.recorded.send (ldcsFrame asiSysStatus) s.ctx).1 = true := hsend
    refine ⟨[.sent (ldcsFrame asiSysStatus) true,
      .received 1 (t.recv 1 s.link.timeoutMs (t.send (ldcsFrame asiSysStatus) s.ctx.1).2).1], ?_,
        ?_⟩
    · simp [afterRead, UpdiTransport.recorded, hsend]
    · rcases hcases with ⟨hun, hrun⟩ | ⟨b, hok, hb, hrun⟩
      · have hnil : (t.recv 1 s.link.timeoutMs (t.send (ldcsFrame asiSysStatus) s.ctx.1).2).1 =
            [] :=
          hun hsend'
        rw [hnil]
        exact .inl ⟨hun, hrun, fun _ ↦ rfl⟩
      · have hb' : (t.recv 1 s.link.timeoutMs (t.send (ldcsFrame asiSysStatus) s.ctx.1).2).1 =
            [b] := hb
        rw [hb']
        refine .inr ⟨b, fun hun ↦ ?_, hrun, fun _ ↦ rfl⟩
        exact List.cons_ne_nil b [] (hb.symm.trans (hun hsend'))

theorem clock_log (c : σ × List Event) :
    ∃ l, (clock t.recorded c).2.2 = c.2 ++ l ∧ ∀ l', statusAnswers false (l ++ l') =
      statusAnswers false l' := by
  unfold clock
  cases h : t.millis with
  | none =>
    refine ⟨[], ?_, fun _ ↦ rfl⟩
    simp [UpdiTransport.recorded, h]
  | some f =>
    refine ⟨[.clock (f c.1).1], ?_, fun _ ↦ rfl⟩
    simp [UpdiTransport.recorded, h]

/-- A poll ends without an answer exactly if the target was deaf to it, and
gives up only on answers that say locked. -/
theorem waitUnlockedLoop_spec (timeoutMs start : UInt32) (iters : ℕ)
    (s : LinkState (σ × List Event)) :
    ∃ b c l, waitUnlockedLoop t.recorded timeoutMs start iters s = (.ok b, ⟨s.link, c⟩) ∧
      c.2 = s.ctx.2 ++ l ∧
      (b = false → ∀ status ∈ statusAnswers false l, Locked status) ∧
      (DeafLoop t.recorded s.link timeoutMs start iters s.ctx ↔
        b = false ∧ statusAnswers false l = []) := by
  induction iters generalizing s with
  | zero =>
    refine ⟨false, s.ctx, [], rfl, (List.append_nil _).symm, fun _ ↦ List.forall_mem_nil _, ?_⟩
    exact ⟨fun _ ↦ ⟨rfl, rfl⟩, fun _ ↦ trivial⟩
  | succ iters ih =>
    obtain ⟨l₁, hl₁, hread⟩ := pollRead_cases (t := t) s
    obtain ⟨l₂, hl₂, hclock⟩ := clock_log (t := t) (afterRead t.recorded s.link asiSysStatus s.ctx)
    obtain ⟨b, c, l₃, hrun, hl₃, hlocked, hdeaf⟩ := ih
      ⟨s.link, (clock t.recorded (afterRead t.recorded s.link asiSysStatus s.ctx)).2⟩
    -- the rest of the turn, after a read that did not end the poll
    have hrest : ∃ b' c' l', (do
          let now ← millis t.recorded
          if timeoutMs ≤ now - start then pure false
          else waitUnlockedLoop t.recorded timeoutMs start iters : LinkM (σ × List Event) Bool)
          ⟨s.link, afterRead t.recorded s.link asiSysStatus s.ctx⟩ = (.ok b', ⟨s.link, c'⟩) ∧
        c'.2 = (s.ctx.2 ++ l₁) ++ l' ∧
        (b' = false → ∀ status ∈ statusAnswers false l', Locked status) ∧
        ((¬timeoutMs ≤ (clock t.recorded (afterRead t.recorded s.link asiSysStatus s.ctx)).1 -
          start →
          DeafLoop t.recorded s.link timeoutMs start iters
            (clock t.recorded (afterRead t.recorded s.link asiSysStatus s.ctx)).2) ↔
          b' = false ∧ statusAnswers false l' = []) := by
      rw [bind_ok (millis_run t.recorded _)]
      by_cases hexp : timeoutMs ≤
          (clock t.recorded (afterRead t.recorded s.link asiSysStatus s.ctx)).1 - start
      · have hnone : statusAnswers false l₂ = [] := by
          have h := hclock []
          rwa [List.append_nil] at h
        refine ⟨false, _, l₂, congrFun (if_pos hexp) _, by rw [hl₂, hl₁], fun _ ↦ ?_, ?_⟩
        · rw [hnone]
          exact List.forall_mem_nil _
        · exact ⟨fun _ ↦ ⟨rfl, hnone⟩, fun _ h ↦ absurd hexp h⟩
      · refine ⟨b, c, l₂ ++ l₃, (congrFun (if_neg hexp) _).trans hrun, ?_, ?_, ?_⟩
        · rw [hl₃, hl₂, hl₁, List.append_assoc]
        · rwa [hclock]
        · rw [hclock, ← hdeaf]
          exact ⟨fun h ↦ h hexp, fun h _ ↦ h⟩
    obtain ⟨b', c', l', hrun', hl', hlocked', hdeaf'⟩ := hrest
    rw [waitUnlockedLoop, attempt_bind_run]
    rcases hread with ⟨hun, ⟨e, hldcs⟩, hans⟩ | ⟨status, hun, hldcs, hans⟩
    · rw [hldcs]
      refine ⟨b', c', l₁ ++ l', hrun', by rw [hl', List.append_assoc], ?_, ?_⟩
      · rwa [hans]
      · rw [hans, ← hdeaf']
        exact ⟨fun h ↦ h.2, fun h ↦ ⟨hun, h⟩⟩
    · rw [hldcs]
      by_cases hclear : status &&& sysStatusLockstatus = 0
      · refine ⟨true, _, l₁, congrFun (if_pos (beq_iff_eq.mpr hclear)) _, hl₁, fun h ↦ ?_, ?_⟩
        · exact absurd h Bool.noConfusion
        · exact ⟨fun h ↦ absurd h.1 hun, fun h ↦ absurd h.1 Bool.noConfusion⟩
      · refine ⟨b', c', l₁ ++ l',
          (congrFun (if_neg ?_) _).trans hrun', by rw [hl', List.append_assoc], ?_, ?_⟩
        · exact fun h ↦ hclear (beq_iff_eq.mp h)
        · intro hb
          rw [hans]
          exact List.forall_mem_cons.mpr ⟨hclear, hlocked' hb⟩
        · rw [hans]
          exact ⟨fun h ↦ absurd h.1 hun, fun h ↦ absurd h.2 (List.cons_ne_nil _ _)⟩

end Poll

section NeverLocked

/-- A link function that fails for other reasons than a locked part. -/
def NeverLocked {α : Type} (m : LinkM σ α) : Prop :=
  Triple (fun _ ↦ True) m (fun _ _ ↦ True) fun e _ ↦ e ≠ .locked

variable {t} {α β : Type}

theorem NeverLocked.bind {m : LinkM σ α} {k : α → LinkM σ β} (hm : NeverLocked m)
    (hk : ∀ a, NeverLocked (k a)) : NeverLocked (m >>= k) := Triple.bind hm hk

theorem neverLocked_pure (a : α) : NeverLocked (pure a : LinkM σ α) := .pure fun _ _ ↦ trivial

theorem neverLocked_fail {e : UpdiErr} (h : e ≠ .locked) : NeverLocked (fail e : LinkM σ α) :=
  .fail fun _ _ ↦ h

theorem neverLocked_attempt (m : LinkM σ α) : NeverLocked (attempt m) := fun _ _ ↦ trivial

theorem neverLocked_send (data : List UInt8) : NeverLocked (UpdiLink.send t data) := by
  have hraw : NeverLocked (sendRaw t data) := fun _ _ ↦ trivial
  refine hraw.bind fun ok ↦ .ite (fun _ ↦ neverLocked_pure _) fun _ ↦ neverLocked_fail ?_
  decide

theorem neverLocked_recvRaw (len : ℕ) : NeverLocked (recvRaw t len) := fun _ _ ↦ trivial

theorem neverLocked_ldcs (a : UInt8) : NeverLocked (ldcs t a) := by
  refine (neverLocked_send _).bind fun _ ↦ (neverLocked_recvRaw 1).bind fun buf ↦ ?_
  split
  · exact neverLocked_pure _
  · exact neverLocked_fail (by decide)

theorem neverLocked_recvAll (len : ℕ) : NeverLocked (recvAll t len) :=
  (neverLocked_recvRaw len).bind fun _ ↦
    .ite (fun _ ↦ neverLocked_pure _) fun _ ↦ neverLocked_fail (by decide)

theorem neverLocked_checkDatalink : NeverLocked (checkDatalink t) := by
  refine (neverLocked_attempt _).bind fun r ↦ ?_
  cases r with
  | ok statusa => exact neverLocked_pure _
  | error e => exact neverLocked_pure _

theorem neverLocked_activate : NeverLocked (activate t) := by
  have hraw : NeverLocked (sendRaw t [updiBreak]) := fun _ _ ↦ trivial
  have hbreak : NeverLocked (UpdiLink.doubleBreak t) := fun _ _ ↦ trivial
  refine hraw.bind fun _ ↦ (neverLocked_attempt _).bind fun _ ↦ ?_
  refine neverLocked_checkDatalink.bind fun up ↦ .ite (fun _ ↦ neverLocked_pure _) fun _ ↦ ?_
  refine hbreak.bind fun _ ↦ (neverLocked_attempt _).bind fun _ ↦ ?_
  refine neverLocked_checkDatalink.bind fun up ↦ .ite (fun _ ↦ neverLocked_pure _) fun _ ↦ ?_
  exact neverLocked_fail (by decide)

theorem neverLocked_readSibInfo : NeverLocked (readSibInfo t) := by
  have hsib : NeverLocked (readSib t 16) :=
    (neverLocked_send _).bind fun _ ↦ (neverLocked_recvRaw 16).bind fun _ ↦
      .ite (fun _ ↦ neverLocked_pure _) fun _ ↦ neverLocked_fail (by decide)
  exact hsib.bind fun _ ↦ .ite (fun _ ↦ neverLocked_fail (by decide)) fun _ ↦ neverLocked_pure _

theorem neverLocked_inProgmode : NeverLocked (inProgmode t) := by
  refine (neverLocked_attempt _).bind fun r ↦ ?_
  cases r with
  | ok s => exact neverLocked_pure _
  | error e => exact neverLocked_pure _

theorem neverLocked_applyNvmprogKey : NeverLocked (applyNvmprogKey t) := by
  have hkey : NeverLocked (sendKey t key64 keyNvm) :=
    .ite (fun _ ↦ neverLocked_fail (by decide)) fun _ ↦
      .ite (fun _ ↦ neverLocked_fail (by decide)) fun _ ↦
        (neverLocked_send _).bind fun _ ↦ neverLocked_send _
  refine (neverLocked_send _).bind fun _ ↦ hkey.bind fun _ ↦ (neverLocked_ldcs _).bind fun _ ↦ ?_
  refine .ite (fun _ ↦ neverLocked_fail (by decide)) fun _ ↦ ?_
  exact (neverLocked_attempt _).bind fun _ ↦ (neverLocked_attempt _).bind fun _ ↦ neverLocked_pure _

theorem neverLocked_readSignature (device : Option UpdiDevice) :
    NeverLocked (readSignature t device) := by
  have haddr : NeverLocked (addr24 : LinkM σ Bool) := fun _ _ ↦ trivial
  have hack : NeverLocked (recvAck t) := (neverLocked_recvRaw 1).bind fun _ ↦
    .ite (fun _ ↦ neverLocked_pure _) fun _ ↦ neverLocked_fail (by decide)
  have hrepeat : NeverLocked (repeatCount t 3) :=
    .ite (fun _ ↦ neverLocked_fail (by decide)) fun _ ↦ neverLocked_send _
  have hload : NeverLocked (ldPtrInc t 3) := (neverLocked_send _).bind fun _ ↦ neverLocked_recvAll 3
  have hdata (address : ℕ) : NeverLocked (readData t address 3) := by
    refine .ite (fun _ ↦ neverLocked_fail (by decide)) fun _ ↦ ?_
    refine (haddr.bind fun _ ↦ (neverLocked_send _).bind fun _ ↦ hack).bind fun _ ↦ ?_
    exact hrepeat.bind fun _ ↦ hload
  exact hdata _

theorem neverLocked_waitUnlocked (timeoutMs : UInt32) : NeverLocked (waitUnlocked t timeoutMs) := by
  have hmillis : NeverLocked (millis t) := by
    intro s _
    rw [millis_run]
    trivial
  have hloop (start : UInt32) (iters : ℕ) :
      NeverLocked (waitUnlockedLoop t timeoutMs start iters) := by
    induction iters with
    | zero => exact neverLocked_pure _
    | succ iters ih =>
      refine (neverLocked_attempt _).bind fun r ↦ .ite (fun _ ↦ neverLocked_pure _) fun _ ↦ ?_
      exact hmillis.bind fun now ↦ .ite (fun _ ↦ neverLocked_pure _) fun _ ↦ ih
  exact hmillis.bind fun start ↦ hloop start nvmMaxPollIters

theorem neverLocked_handOver (inMode : Bool) : NeverLocked (handOver t inMode) :=
  .ite (fun _ ↦ neverLocked_pure _) fun _ ↦
    neverLocked_applyNvmprogKey.bind fun _ ↦ neverLocked_pure _

def SessionNeverLocked (m : SessionM σ α) : Prop :=
  Triple (fun _ ↦ True) m (fun _ _ ↦ True) fun e _ ↦ e ≠ .status .locked

theorem SessionNeverLocked.bind {m : SessionM σ α} {k : α → SessionM σ β}
    (hm : SessionNeverLocked m) (hk : ∀ a, SessionNeverLocked (k a)) :
    SessionNeverLocked (m >>= k) := Triple.bind hm hk

theorem neverLocked_onLink {m : LinkM σ α} (h : NeverLocked m) : SessionNeverLocked (onLink m) := by
  refine .zoom fun s _ ↦ h.conseq (fun _ _ ↦ trivial) (fun _ _ _ ↦ trivial) fun e _ he ↦ ?_
  exact fun h ↦ he (Halt.status.inj h)

theorem neverLocked_update (f : UpdiSession → UpdiSession) :
    SessionNeverLocked (update f : SessionM σ Unit) := fun _ _ ↦ trivial

theorem neverLocked_probe : SessionNeverLocked (probe t) := by
  refine (neverLocked_update _).bind fun _ ↦ (neverLocked_onLink neverLocked_activate).bind fun _ ↦
    ?_
  refine (neverLocked_onLink neverLocked_readSibInfo).bind fun _ ↦
    (neverLocked_update _).bind fun _ ↦ ?_
  refine (neverLocked_update _).bind fun _ ↦ (neverLocked_update _).bind fun _ ↦ ?_
  exact neverLocked_onLink neverLocked_inProgmode

theorem neverLocked_approach : SessionNeverLocked (approach t) :=
  neverLocked_probe.bind fun inMode ↦ neverLocked_onLink (neverLocked_handOver inMode)

theorem neverLocked_identify : SessionNeverLocked (identify t) := by
  refine (neverLocked_onLink (neverLocked_readSignature none)).bind fun sig ↦ ?_
  refine (neverLocked_update _).bind fun _ ↦ ?_
  cases UpdiDevice.findById (UpdiDevice.idFromSig sig) with
  | none => exact .fail fun _ _ ↦ by decide
  | some d => exact neverLocked_update _

theorem awaitUnlock_true (l : LinkState σ) :
    ((awaitUnlock t true l).1 = .error .locked ↔ (waitUnlocked t 100 l).1 = .ok false) ∧
      ((waitUnlocked t 100 l).1 = .ok false →
        (awaitUnlock t true l).2 = (waitUnlocked t 100 l).2) := by
  have hwait := @neverLocked_waitUnlocked _ t 100 l trivial
  unfold awaitUnlock
  rw [if_pos rfl, bind_run]
  rcases hw : waitUnlocked t 100 l with ⟨e | _ | _, l'⟩ <;> rw [hw] at hwait
  · refine ⟨⟨fun h ↦ absurd (Except.error.inj h) hwait, fun h ↦ ?_⟩, fun h ↦ ?_⟩ <;> cases h
  · exact ⟨⟨fun _ ↦ rfl, fun _ ↦ rfl⟩, fun _ ↦ rfl⟩
  · have hmode :
        NeverLocked (do if ← inProgmode t then pure () else fail .protocol : LinkM σ Unit) :=
      neverLocked_inProgmode.bind fun _ ↦
        .ite (fun _ ↦ neverLocked_pure _) fun _ ↦ neverLocked_fail (by decide)
    refine ⟨⟨fun h ↦ ?_, fun h ↦ ?_⟩, fun h ↦ ?_⟩
    · exact absurd rfl (hmode.error trivial (Prod.ext h rfl))
    · cases h
    · cases h

/-- The part counts as locked exactly if the poll that follows the key
fails, and nothing happens after the poll then. -/
theorem connect_locked_iff (s : SessionState σ) :
    (connect t s).1 = .error (.status .locked) ↔
      ∃ s', approach t s = (.ok true, s') ∧
        (waitUnlocked t 100 ⟨s'.session.link, s'.ctx⟩).1 = .ok false ∧
        (connect t s).2.ctx = (waitUnlocked t 100 ⟨s'.session.link, s'.ctx⟩).2.ctx := by
  have happ := @neverLocked_approach _ t s trivial
  rw [connect_eq, bind_run]
  rcases hrun : approach t s with ⟨e | _ | _, s'⟩ <;> rw [hrun] at happ
  · refine ⟨fun h ↦ absurd (Except.error.inj h) happ, ?_⟩
    rintro ⟨_, h, -⟩
    cases h
  · have hid : SessionNeverLocked (onLink (awaitUnlock t false) >>= fun _ ↦ identify t) :=
      (neverLocked_onLink (neverLocked_pure ())).bind fun _ ↦ neverLocked_identify
    refine ⟨fun h ↦ absurd rfl (hid.error trivial (Prod.ext h rfl)), ?_⟩
    rintro ⟨_, h, -⟩
    cases h
  · obtain ⟨hiff, hstate⟩ := awaitUnlock_true (t := t) ⟨s'.session.link, s'.ctx⟩
    have hrest : (onLink (awaitUnlock t true) >>= fun _ ↦ identify t) s' =
        match awaitUnlock t true ⟨s'.session.link, s'.ctx⟩ with
        | (.ok _, l) =>
          identify t { s' with session := { s'.session with link := l.link }, ctx := l.ctx }
        | (.error e, l) => (.error (.status e),
            { s' with session := { s'.session with link := l.link }, ctx := l.ctx }) := by
      rw [bind_run]
      unfold onLink
      rw [zoom_run]
      rcases awaitUnlock t true ⟨s'.session.link, s'.ctx⟩ with ⟨e | a, l⟩ <;> rfl
    dsimp only
    rw [hrest]
    rcases hawait : awaitUnlock t true ⟨s'.session.link, s'.ctx⟩ with ⟨e | a, l⟩ <;>
      rw [hawait] at hiff hstate
    · constructor
      · intro h
        have hfalse := hiff.mp (congrArg Except.error (Halt.status.inj (Except.error.inj h)))
        exact ⟨s', rfl, hfalse, congrArg LinkState.ctx (hstate hfalse)⟩
      · rintro ⟨_, h, hfalse, -⟩
        cases h
        exact congrArg (Except.error ∘ Halt.status) (Except.error.inj (hiff.mpr hfalse))
    · constructor
      · exact fun h ↦ absurd rfl (neverLocked_identify.error trivial (Prod.ext h rfl))
      · rintro ⟨_, h, hfalse, -⟩
        cases h
        cases hiff.mpr hfalse

end NeverLocked

section Recorded

variable {t}

/-- The key went out, and then the release of the reset that applies it. -/
def Applied (l : List Event) : Prop :=
  ∃ l₀ ok, l = l₀ ++ [.sent (stcsFrame asiResetReq 0x00) ok] ∧ .sent keyNvm.reverse true ∈ l₀

theorem Applied.prepend {l' : List Event} (h : Applied l') (l : List Event) :
    Applied (l ++ l') := by
  obtain ⟨l₀, ok, rfl, hk⟩ := h
  exact ⟨l ++ l₀, ok, (List.append_assoc _ _ _).symm, List.mem_append_right l hk⟩

theorem emits_toggleReset :
    Emits linkLog (do
      let _ ← attempt (nvmReset t.recorded true)
      let _ ← attempt (nvmReset t.recorded false)) fun l r ↦
        r = .ok () → ∃ l₀ ok, l = l₀ ++ [.sent (stcsFrame asiResetReq 0x00) ok] := by
  have hreset : LinkSends (fun _ ↦ True) (attempt (nvmReset t.recorded true)) :=
    Only.attempt (sends_stcs trivial)
  have hrelease : Emits linkLog (attempt (nvmReset t.recorded false)) fun l _ ↦
      ∃ ok, l = [.sent (stcsFrame asiResetReq 0x00) ok] := by
    refine Emits.attempt ((emits_send t (stcsFrame asiResetReq 0x00)).mono fun l r ↦ ?_)
    rintro (⟨rfl, -⟩ | ⟨rfl, -⟩)
    · exact ⟨true, rfl⟩
    · exact ⟨false, rfl⟩
  refine hreset.bind_after (fun _ ↦ ?_) (fun _ _ h ↦ by cases h) fun l l' r h hr ↦ ?_
  · refine hrelease.bind (K := fun _ l _ ↦ l = []) (fun _ ↦ .pure rfl) (fun _ _ _ h ↦ by cases h) ?_
    rintro l l' _ r ⟨ok, rfl⟩ rfl -
    exact ⟨[], ok, rfl⟩
  · obtain ⟨l₀, ok, rfl⟩ := h hr
    exact ⟨l ++ l₀, ok, (List.append_assoc _ _ _).symm⟩

theorem emits_applyNvmprogKey :
    Emits linkLog (applyNvmprogKey t.recorded) fun l r ↦ r = .ok () → Applied l := by
  have hreset : LinkSends (fun _ ↦ True) (nvmReset t.recorded true) := sends_stcs trivial
  have hread : LinkSends (fun _ ↦ True) (ldcs t.recorded asiKeyStatus) := sends_ldcs trivial
  refine hreset.bind_after (fun _ ↦ ?_) (fun _ _ h ↦ by cases h) fun l l' r h hr ↦ (h hr).prepend l
  refine (emits_sendKey t (by decide : keyNvm.length = 8)).bind (K := fun _ l r ↦ r = .ok () →
    ∃ l₀ ok, l = l₀ ++ [.sent (stcsFrame asiResetReq 0x00) ok]) (fun _ ↦ ?_)
    (fun _ _ _ h ↦ by cases h) ?_
  · refine hread.bind_after (fun _ ↦ .ite (fun _ ↦ .fail fun h ↦ by cases h) fun _ ↦ ?_)
      (fun _ _ h ↦ by cases h) fun l l' r h hr ↦ ?_
    · exact emits_toggleReset
    · obtain ⟨l₀, ok, rfl⟩ := h hr
      exact ⟨l ++ l₀, ok, (List.append_assoc _ _ _).symm⟩
  · rintro l l' _ r (⟨rfl, -⟩ | ⟨-, h⟩) htail hr
    · obtain ⟨l₀, ok, rfl⟩ := htail hr
      refine ⟨_ ++ l₀, ok, (List.append_assoc _ _ _).symm, List.mem_append_left _ ?_⟩
      exact List.mem_cons_of_mem _ (List.mem_singleton.mpr rfl)
    · cases h

theorem emits_approach :
    Emits sessionLog (approach t.recorded) fun l r ↦ r = .ok true → Applied l := by
  have hand (inMode : Bool) :
      Emits linkLog (handOver t.recorded inMode) fun l r ↦ r = .ok true → Applied l := by
    refine .ite (fun _ ↦ .pure fun h ↦ by cases h) fun _ ↦ ?_
    refine emits_applyNvmprogKey.bind (K := fun _ l _ ↦ l = []) (fun _ ↦ .pure rfl)
      (fun _ _ _ h ↦ by cases h) ?_
    rintro l l' _ r happ rfl hr
    rw [List.append_nil]
    exact happ rfl
  refine sends_probe.bind_after (fun inMode ↦ emits_onLink ((hand inMode).mono fun l r h hr ↦ h ?_))
    (fun _ _ h ↦ by cases h) fun l l' r h hr ↦ (h hr).prepend l
  cases r with
  | ok b => exact congrArg Except.ok (Except.ok.inj hr)
  | error e => cases hr

theorem sinceRelease_append {l : List Event} (log : List Event) (ok : Bool)
    (hl : ∀ e ∈ l, isRelease e = false) :
    sinceRelease (log ++ [.sent (stcsFrame asiResetReq 0x00) ok] ++ l) = l := by
  have hall : ∀ e ∈ l.reverse, (!isRelease e) = true := by
    intro e he
    rw [hl e (List.mem_reverse.mp he)]
    rfl
  unfold sinceRelease List.rtakeWhile
  have hstop : ∀ data, (log ++ [Event.sent data ok]).reverse = .sent data ok :: log.reverse :=
    fun _ ↦ List.reverse_concat
  rw [List.reverse_append, List.takeWhile_append_of_pos hall, hstop,
    List.takeWhile_cons_of_neg (by simp [isRelease]), List.append_nil, List.reverse_reverse]

theorem not_release_of_readFrame {e : Event} (h : Sends ReadFrame e) : isRelease e = false := by
  cases e with
  | sent data ok =>
    exact beq_eq_false_iff_ne.mpr (ReadFrame.ne_reset h 0x00)
  | received len data => rfl
  | broke => rfl
  | clock now => rfl

theorem waitUnlocked_spec (s : LinkState (σ × List Event)) :
    ∃ b c l, waitUnlocked t.recorded 100 s = (.ok b, ⟨s.link, c⟩) ∧ c.2 = s.ctx.2 ++ l ∧
      (b = false → ∀ status ∈ statusAnswers false l, Locked status) ∧
      (DeafPoll t.recorded s.link s.ctx ↔ b = false ∧ statusAnswers false l = []) := by
  obtain ⟨l₁, hl₁, hclock⟩ := clock_log (t := t) s.ctx
  obtain ⟨b, c, l₂, hrun, hl₂, hlocked, hdeaf⟩ := waitUnlockedLoop_spec (t := t) 100
    (clock t.recorded s.ctx).1 nvmMaxPollIters ⟨s.link, (clock t.recorded s.ctx).2⟩
  refine ⟨b, c, l₁ ++ l₂, ?_, ?_, ?_, ?_⟩
  · unfold waitUnlocked
    rw [bind_ok (millis_run t.recorded s)]
    exact hrun
  · rw [hl₂, hl₁, List.append_assoc]
  · rwa [hclock]
  · rw [hclock]
    exact hdeaf

theorem poll_after_approach {s s' : SessionState (σ × List Event)}
    (happ : approach t.recorded s = (.ok true, s')) :
    ∃ b c, waitUnlocked t.recorded 100 ⟨s'.session.link, s'.ctx⟩ = (.ok b, ⟨s'.session.link, c⟩) ∧
      .sent keyNvm.reverse true ∈ c.2 ∧
      (b = false → ∀ status ∈ statusAnswers false (sinceRelease c.2), Locked status) ∧
      (DeafPoll t.recorded s'.session.link s'.ctx ↔
        b = false ∧ statusAnswers false (sinceRelease c.2) = []) := by
  obtain ⟨l₁, hl₁, happlied⟩ := emits_approach (t := t) s
  rw [happ] at hl₁ happlied
  obtain ⟨l₀, ok, rfl, hkey⟩ := happlied rfl
  obtain ⟨b, c, l, hrun, hl, hlocked, hdeaf⟩ := waitUnlocked_spec (t := t) ⟨s'.session.link, s'.ctx⟩
  obtain ⟨l', hl', hread⟩ := sends_waitUnlocked (t := t) 100 ⟨s'.session.link, s'.ctx⟩
  rw [hrun] at hl'
  obtain rfl : l = l' := List.append_cancel_left (hl.symm.trans hl')
  have hlog : c.2 = (s.ctx.2 ++ l₀) ++ [.sent (stcsFrame asiResetReq 0x00) ok] ++ l := by
    rw [List.append_assoc s.ctx.2]
    exact hl.trans (congrArg (· ++ l) hl₁)
  have hsince : sinceRelease c.2 = l := by
    rw [hlog]
    exact sinceRelease_append _ ok fun e he ↦ not_release_of_readFrame (hread e he)
  refine ⟨b, c, hrun, ?_, by rwa [hsince], by rwa [hsince]⟩
  rw [hlog]
  exact List.mem_append_left _ (List.mem_append_left _ (List.mem_append_right _ hkey))

/-- The target takes the key and then answers no status read until the poll is over. -/
def GoesDeaf (t : UpdiTransport σ) (s : SessionState (σ × List Event)) : Prop :=
  ∃ s', approach t.recorded s = (.ok true, s') ∧ DeafPoll t.recorded s'.session.link s'.ctx

/-- A connect reports a locked part without evidence exactly if the target
goes deaf after the key. -/
theorem connect_evidence_iff (s : SessionState (σ × List Event)) :
    ((connect t.recorded s).1 = .error (.status .locked) →
      Evidence (connect t.recorded s).2.ctx.2) ↔ ¬GoesDeaf t s := by
  constructor
  · rintro hev ⟨s', happ, hdeaf⟩
    obtain ⟨b, c, hrun, -, -, hiff⟩ := poll_after_approach happ
    obtain ⟨rfl, hnone⟩ := hiff.mp hdeaf
    have hlocked : (connect t.recorded s).1 = .error (.status .locked) := by
      rw [connect_eq, bind_ok happ]
      have hawait : awaitUnlock t.recorded true ⟨s'.session.link, s'.ctx⟩ =
          (.error .locked, ⟨s'.session.link, c⟩) := by
        unfold awaitUnlock
        rw [if_pos rfl, bind_ok hrun]
        rfl
      have hlift : onLink (awaitUnlock t.recorded true) s' =
          (.error (.status .locked), ⟨s'.session, c⟩) := by
        unfold onLink
        rw [zoom_run, hawait]
        rfl
      rw [bind_error hlift]
    obtain ⟨s'', happ', -, hctx⟩ := (connect_locked_iff s).mp hlocked
    obtain rfl : s' = s'' := congrArg Prod.snd (happ.symm.trans happ')
    obtain ⟨-, ⟨status, hmem, -⟩, -⟩ := hev hlocked
    rw [hctx, hrun, hnone] at hmem
    cases hmem
  · intro hdeaf hlocked
    obtain ⟨s', happ, hfalse, hctx⟩ := (connect_locked_iff s).mp hlocked
    obtain ⟨b, c, hrun, hkey, hall, hiff⟩ := poll_after_approach happ
    rw [hrun] at hfalse hctx
    obtain rfl : b = false := Except.ok.inj hfalse
    have hne : statusAnswers false (sinceRelease c.2) ≠ [] :=
      fun h ↦ hdeaf ⟨s', happ, hiff.mpr ⟨rfl, h⟩⟩
    obtain ⟨status, hmem⟩ := List.exists_mem_of_ne_nil _ hne
    rw [hctx]
    exact ⟨hkey, ⟨status, hmem, hall rfl status hmem⟩, hall rfl⟩

abbrev keyOpcode : List UInt8 := [phySync, updiKey ||| keyKey ||| key64]

theorem statusAnswers_concat_sent {data : List UInt8} {ok : Bool} (l : List Event) (asked : Bool) :
    statusAnswers asked (l ++ [.sent data ok]) = statusAnswers asked l := by
  induction l generalizing asked with
  | nil => rfl
  | cons e l ih =>
    cases e with
    | sent data ok => exact ih _
    | received len data => exact congrArg (_ ++ ·) (ih false)
    | broke => exact ih false
    | clock now => exact ih false

theorem Evidence.concat {log : List Event} (h : Evidence log) :
    Evidence (log ++ [.sent keyOpcode true]) := by
  have hsince : sinceRelease (log ++ [.sent keyOpcode true]) =
      sinceRelease log ++ [.sent keyOpcode true] :=
    List.rtakeWhile_concat_pos _ _ _ (by decide)
  refine ⟨List.mem_append_left _ h.key, ?_, ?_⟩
  · rw [hsince, statusAnswers_concat_sent]
    exact h.locked
  · rw [hsince, statusAnswers_concat_sent]
    exact h.never_unlocked

/-- Any frame but the chip-erase key. -/
def NoErase (data : List UInt8) : Prop := data ≠ keyChiperase.reverse

theorem ReadFrame.noErase {data : List UInt8} (h : ReadFrame data) : NoErase data := by
  intro heq
  have hlen := congrArg List.length heq
  cases h with
  | lds a24 address => cases a24 <;> cases hlen
  | stPtr a24 address => cases a24 <;> cases hlen
  | _ => cases hlen

theorem stcsFrame_noErase (a v : UInt8) : NoErase (stcsFrame a v) := fun h ↦ by
  cases congrArg List.length h

theorem connect_noErase : SessionSends NoErase (connect t.recorded) :=
  sends_connect (fun _ ↦ stcsFrame_noErase _ _) (fun _ ↦ ReadFrame.noErase)
    (by unfold NoErase; decide) (by unfold NoErase; decide)

/-- The chip-erase key goes out at most once, right after the opcode of its instruction. -/
def ErasesAtStart (l : List Event) : Prop :=
  ∀ before ok after, l = before ++ .sent keyChiperase.reverse ok :: after →
    before = [.sent keyOpcode true]

theorem ErasesAtStart.append {l l' : List Event} (h : ErasesAtStart l)
    (h' : ∀ e ∈ l', Sends NoErase e) :
    ErasesAtStart (l ++ l') := by
  intro before ok after heq
  rcases List.append_eq_append_iff.mp heq with ⟨mid, rfl, hmid⟩ | ⟨mid, rfl, hmid⟩
  · have hmem : .sent keyChiperase.reverse ok ∈ l' := by
      rw [hmid]
      exact List.mem_append_right _ List.mem_cons_self
    exact absurd rfl (h' _ hmem)
  · cases mid with
    | nil =>
      have hmem : .sent keyChiperase.reverse ok ∈ l' := by
        rw [List.nil_append] at hmid
        rw [← hmid]
        exact List.mem_cons_self
      exact absurd rfl (h' _ hmem)
    | cons e mid =>
      obtain ⟨rfl, -⟩ := List.cons.inj hmid
      exact h before ok mid rfl

theorem erasesAtStart_opcode {l : List Event} {ok : Bool} (h : ok = false → l = [])
    (hl : l.length ≤ 1) : ErasesAtStart (.sent keyOpcode ok :: l) := by
  intro before ok' after heq
  cases before with
  | nil => cases (List.cons.inj heq).1
  | cons e before =>
    obtain ⟨rfl, rfl⟩ := List.cons.inj heq
    have hnil : before = [] := List.length_eq_zero_iff.mp (by simp at hl; omega)
    cases ok with
    | true => rw [hnil]
    | false => exact absurd (h rfl) (by simp)

theorem emits_unlock :
    Emits linkLog (UpdiNvm.unlock t.recorded) fun l _ ↦ ErasesAtStart l := by
  have hread : ∀ data, ReadFrame data → NoErase data := fun _ ↦ ReadFrame.noErase
  have hreset : LinkSends NoErase (attempt (nvmReset t.recorded true)) :=
    Only.attempt (sends_stcs (stcsFrame_noErase _ _))
  have hrelease : LinkSends NoErase (attempt (nvmReset t.recorded false)) :=
    Only.attempt (sends_stcs (stcsFrame_noErase _ _))
  have hrest : LinkSends NoErase (do
      let keyStatus ← ldcs t.recorded asiKeyStatus
      if keyStatus &&& keyStatusChiperase = 0 then fail .protocol
      else do
        let _ ← attempt (nvmReset t.recorded true)
        let _ ← attempt (nvmReset t.recorded false)
        if ← waitUnlocked t.recorded 500 then pure () else fail .nvm) := by
    refine (sends_ldcs (hread _ (.ldcs _))).bind fun _ ↦ .ite (fun _ ↦ .fail) fun _ ↦ ?_
    refine hreset.bind fun _ ↦ hrelease.bind fun _ ↦ ?_
    exact ((sends_waitUnlocked 500).mono (Sends.mono hread)).bind fun _ ↦
      .ite (fun _ ↦ .pure) fun _ ↦ .fail
  have hkey : Emits linkLog (sendKey t.recorded key64 keyChiperase) fun l _ ↦ ErasesAtStart l := by
    refine (emits_sendKey t (by decide : keyChiperase.length = 8)).mono fun l r ↦ ?_
    rintro (⟨rfl, -⟩ | ⟨rfl | rfl, -⟩)
    · exact erasesAtStart_opcode (fun h ↦ by cases h) le_rfl
    · exact erasesAtStart_opcode (fun _ ↦ rfl) (Nat.zero_le _)
    · exact erasesAtStart_opcode (fun h ↦ by cases h) le_rfl
  exact hkey.bind (fun _ ↦ hrest) (fun _ _ h ↦ h) fun l l' _ r h h' ↦ h.append h'

end Recorded

open Worker

variable {t}

/-- The app over a ready transport, at the start of an operation. -/
def ready (app : UpdiApp) (c : σ) : WorkerState (σ × List Event) :=
  ⟨{ app with transport := some true, linkTransport := true }, c, []⟩

/-- The second half of `do_connect` for a part that counts as locked. -/
def eraseAndRetry (t : UpdiTransport σ) : WorkerM σ Unit := do
  onSession (UpdiSession.unlock t)
  onSession (connect t)
  updateApp fun a ↦ { a with haveDevice := true }

theorem emits_eraseAndRetry :
    Emits workerLog (eraseAndRetry t.recorded) fun l _ ↦ ErasesAtStart l := by
  have hnil : ErasesAtStart [] := fun before _ _ h ↦ by cases before <;> cases h
  have hunlock : Emits workerLog (onSession (UpdiSession.unlock t.recorded)) fun l _ ↦
      ErasesAtStart l :=
    emits_onSession hnil (emits_onLink emits_unlock)
  have hrest : WorkerSends NoErase (do
      onSession (connect t.recorded)
      updateApp fun a ↦ { a with haveDevice := true }) :=
    (sends_onSession connect_noErase).bind fun _ ↦ sends_updateApp _
  exact hunlock.bind (fun _ ↦ hrest) (fun _ _ h ↦ h) fun l l' _ r h h' ↦ h.append h'

theorem doConnect_run (env : Env) (app : UpdiApp) (c : σ) :
    ∃ s, s.ctx = (connect t.recorded ⟨app.session, c, []⟩).2.ctx ∧
      (doConnect t.recorded env true (ready app c)).2.ctx =
        if (connect t.recorded ⟨app.session, c, []⟩).1 = .error (.status .locked) then
          (eraseAndRetry t.recorded s).2.ctx
        else s.ctx := by
  have hensure : ensureTransport env (ready app c) = (.ok (), ready app c) := rfl
  refine ⟨afterCall (ready app c) (connect t.recorded ⟨app.session, c, []⟩).2, rfl, ?_⟩
  unfold doConnect connectSession
  rw [bind_ok hensure, Prog.bind_assoc, attempt_bind_run, onSession_run rfl]
  change _ = if (connect t.recorded ⟨(ready app c).app.session, (ready app c).ctx⟩).1 =
    _ then _ else _
  generalize (connect t.recorded ⟨(ready app c).app.session, (ready app c).ctx⟩).1 = r
  match r with
  | .ok _ => rfl
  | .error .nullDevice => rfl
  | .error .nullTransport => rfl
  | .error (.status e) =>
    cases e with
    | locked =>
      rw [if_pos rfl]
      simp only [if_true, Prog.bind_assoc, eraseAndRetry]
      rfl
    | _ => rfl

/-- A locked part is reported, and erased, on evidence alone: exactly if the
target does not go deaf between the key and the end of the poll. -/
theorem locked_on_evidence_iff (t : UpdiTransport σ) (env : Env) (app : UpdiApp) (c : σ) :
    ((connect t.recorded ⟨app.session, c, []⟩).1 = .error (.status .locked) →
        Evidence (connect t.recorded ⟨app.session, c, []⟩).2.ctx.2) ∧
      (∀ before ok after, (doConnect t.recorded env true (ready app c)).2.ctx.2 =
        before ++ .sent keyChiperase.reverse ok :: after → Evidence before) ↔
    ¬GoesDeaf t ⟨app.session, c, []⟩ := by
  have hconnect := connect_evidence_iff (t := t) ⟨app.session, c, []⟩
  refine ⟨fun h ↦ hconnect.mp h.1, fun h ↦ ⟨hconnect.mpr h, fun before ok after hlog ↦ ?_⟩⟩
  obtain ⟨s, hs, hrun⟩ := doConnect_run (t := t) env app c
  obtain ⟨l₁, hl₁, hquiet⟩ := connect_noErase (t := t) ⟨app.session, c, []⟩
  have hl₁' : s.ctx.2 = l₁ := by rw [hs]; exact hl₁
  by_cases hlocked : (connect t.recorded ⟨app.session, c, []⟩).1 = .error (.status .locked)
  · have hev := hconnect.mpr h hlocked
    rw [← hs, hl₁'] at hev
    obtain ⟨l₂, hl₂, herase⟩ := emits_eraseAndRetry (t := t) s
    rw [hrun, if_pos hlocked] at hlog
    have hsplit : l₁ ++ l₂ = before ++ .sent keyChiperase.reverse ok :: after := by
      rw [← hlog, ← hl₁']
      exact hl₂.symm
    rcases List.append_eq_append_iff.mp hsplit with ⟨mid, rfl, hmid⟩ | ⟨mid, rfl, hmid⟩
    · rw [herase mid ok after hmid]
      exact hev.concat
    · cases mid with
      | nil => cases herase [] ok after hmid.symm
      | cons e mid =>
        obtain ⟨rfl, -⟩ := List.cons.inj hmid
        exact absurd rfl (hquiet _ (List.mem_append_right _ List.mem_cons_self))
  · rw [hrun, if_neg hlocked, hl₁'] at hlog
    have hmem : .sent keyChiperase.reverse ok ∈ l₁ := by
      rw [hlog]
      exact List.mem_append_right _ List.mem_cons_self
    exact absurd rfl (hquiet _ hmem)

/-- A target that gives the listed answers, one a receive, and then falls
silent, with a clock that advances by 100 ms a call. -/
def scripted : UpdiTransport (List (List UInt8) × UInt32) where
  send _ c := (true, c)
  recv len _ c := ((c.1.headD []).take len, (c.1.tail, c.2))
  recv_length len _ _ := List.length_take_le len _
  doubleBreak := none
  millis := some fun c ↦ (c.2, (c.1, c.2 + 100))

/-- STATUSA, a SIB, a system status outside programming mode, and a key
status that accepts the NVMPROG key. -/
def untilKeyStatus : List (List UInt8) :=
  [[0x30], [0x74, 0x69, 0x6E, 0x79, 0x41, 0x56, 0x52, 0x20, 0x50, 0x3A, 0x30, 0x44, 0x3A,
    0x30, 0x2D, 0x33], [0x82], [0x10]]

theorem scripted_not_locked_on_evidence :
    ¬((connect scripted.recorded ⟨UpdiSession.init, (untilKeyStatus, 0), []⟩).1 =
        .error (.status .locked) →
      Evidence (connect scripted.recorded
        ⟨UpdiSession.init, (untilKeyStatus, 0), []⟩).2.ctx.2) := by
  intro h
  have hlocked : (connect scripted.recorded ⟨UpdiSession.init, (untilKeyStatus, 0), []⟩).1 =
      .error (.status .locked) := by decide +kernel
  have hnone : statusAnswers false (sinceRelease
      (connect scripted.recorded ⟨UpdiSession.init, (untilKeyStatus, 0), []⟩).2.ctx.2) = [] := by
    decide +kernel
  obtain ⟨-, ⟨status, hmem, -⟩, -⟩ := h hlocked
  rw [hnone] at hmem
  cases hmem

end LockEvidence

end UpdiProgrammer.Ui

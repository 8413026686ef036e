import UpdiProgrammer.HostTest.Programming
import UpdiProgrammer.Reference.InStep

namespace UpdiProgrammer.Reference

open Library.Program Prog
open Updi (UpdiErr UpdiStatus UpdiLink LinkState LinkM UpdiTransport UpdiDevice linkLog LinkSends)
open Updi.UpdiTransport (Event)
open HostTest (attiny412 delivered)

/-- A read of the system status that got no answer. -/
abbrev unanswered : List Event := [.sent (Updi.ldcsFrame Updi.asiSysStatus) true, .received 1 []]

section Progmode

variable {τ κ κ' : Type} (g : Target τ) (clock : Option (κ → UInt32 × κ)) (time : κ' → ℚ × κ')
  (dl : UpdiDatalink) {L : UpdiErr → Prop} {turns : ℕ}

/-- A status poll that failed, or an unanswered read of the system status. -/
abbrev progExcuse (L : UpdiErr → Prop) :
    Excuse (LinkState ((τ × κ) × List Event)) UpdiErr PymcuprogError :=
  ⟨fun s ↦ unanswered <:+: linkLog s, L, PymcuprogError.Missed⟩

theorem keptBy_of_sends {F : List UInt8 → Prop} {α : Type} {m : LinkM ((τ × κ) × List Event) α}
    (h : LinkSends F m) :
    (progExcuse L).KeptBy m := by
  intro s hs
  obtain ⟨l, hl, -⟩ := h s
  change unanswered <:+: linkLog (m s).2
  rw [hl]
  exact hs.trans (List.prefix_append _ l).isInfix

theorem ldcs_run (a : UInt8) {s : LinkState ((τ × κ) × List Event)} {w : Wire τ κ'}
    (h : InStep dl s w) :
    ∃ buf s' w', InStep dl s' w' ∧
      linkLog s' = linkLog s ++ [.sent (Updi.ldcsFrame a) true, .received 1 buf] ∧
      (buf = [] ∧ UpdiLink.ldcs (g.transport clock).recorded a s = (.error .timeout, s') ∧
          (∃ msg, UpdiDatalink.ldcs (g.port time) a w = (.error (.protocol msg), w')) ∨
        ∃ b, UpdiLink.ldcs (g.transport clock).recorded a s = (.ok b, s') ∧
          UpdiDatalink.ldcs (g.port time) a w = (.ok b, w')) := by
  obtain ⟨buf, s', w', h', hlog, hbuf, hc, hp⟩ := request_run g clock time (Updi.ldcsFrame a) h
  refine ⟨buf, s', w', h', hlog, ?_⟩
  unfold UpdiLink.ldcs UpdiLink.recvByte UpdiDatalink.ldcs
  rw [hc]
  rcases hbuf with rfl | ⟨b, rfl⟩
  · exact .inl ⟨rfl, rfl, _, hp _⟩
  · exact .inr ⟨b, rfl, hp _⟩

theorem lockstep_ldcs (a : UInt8) : Lockstep (InStep dl) (progExcuse L)
    (UpdiLink.ldcs (g.transport clock).recorded a) (UpdiReadWrite.readCs (g.port time) a)
    (Alike (· = ·) fun _ _ ↦ True) := by
  intro s w h
  obtain ⟨buf, s', w', h', -, ⟨-, hc, msg, hp⟩ | ⟨b, hc, hp⟩⟩ := ldcs_run g clock time dl a h
  · rw [UpdiReadWrite.readCs, hc, hp]
    exact .inr ⟨h', .error trivial⟩
  · rw [UpdiReadWrite.readCs, hc, hp]
    exact .inr ⟨h', .ok rfl⟩

theorem lockstep_sysStatus : Lockstep (InStep dl) (progExcuse L)
    (attempt (UpdiLink.ldcs (g.transport clock).recorded Updi.asiSysStatus))
    (UpdiReadWrite.readCs (g.port time) Constants.asiSysStatus) (Return fun r b ↦ r = .ok b) := by
  intro s w h
  obtain ⟨buf, s', w', h', hlog, ⟨rfl, hc, -⟩ | ⟨b, hc, hp⟩⟩ :=
    ldcs_run g clock time dl Updi.asiSysStatus h
  · refine .inl (.inl ?_)
    change unanswered <:+: linkLog (attempt _ s).2
    rw [attempt_run, hc, hlog]
    exact (List.suffix_append _ _).isInfix
  · rw [UpdiReadWrite.readCs, attempt_run, hc, hp]
    exact .inr ⟨h', .ok rfl⟩

theorem lockstep_inProgmode : Lockstep (InStep dl) (progExcuse L)
    (Updi.UpdiNvm.inProgmode (g.transport clock).recorded)
      (UpdiApplication.inProgMode (g.port time))
    (Return (· = ·)) := by
  refine (lockstep_sysStatus g clock time dl).bind (fun r ↦ ?_) (fun _ _ h ↦ h.elim) ?_
  · cases r <;> exact fun _ h ↦ h
  · rintro _ b rfl
    exact .pure (.ok rfl)

theorem sends_orFail {F : List UInt8 → Prop} {m : LinkM ((τ × κ) × List Event) Bool}
    (h : LinkSends F m) (e : UpdiErr) :
    LinkSends F (orFail m e) := h.bind fun _ ↦ .ite (fun _ ↦ .pure) fun _ ↦ .fail

theorem lockstep_orFail {m : LinkM ((τ × κ) × List Event) Bool} {p : PyM (Wire τ κ') Bool}
    (h : Lockstep (InStep dl) (progExcuse L) m p (Return (· = ·))) (e : UpdiErr)
    (f : PymcuprogError) :
    Lockstep (InStep dl) (progExcuse L) (orFail m e) (orFail p f) Same := by
  refine h.bind (fun b ↦ ?_) (fun _ _ h ↦ h.elim) ?_
  · cases b <;> exact fun _ h ↦ h
  · rintro b _ rfl
    exact .ite Iff.rfl (fun _ ↦ .pure (.ok trivial)) fun _ ↦ .fail (.error trivial)

/-- Both read the system status until it shows the same unlocked target. -/
theorem lockstep_waitUnlockedLoop (timeoutMs start : UInt32) {iters : ℕ} (hturns : iters ≤ turns)
    (timeout : Timeout) {e : UpdiErr} (he : L e) {f : PymcuprogError} (hf : f.Missed) :
    Lockstep (InStep dl) (progExcuse L)
      (orFail (Updi.UpdiNvm.waitUnlockedLoop (g.transport clock).recorded timeoutMs start iters) e)
      (orFail (UpdiApplication.waitUnlockedLoop (g.port time) timeout turns) f) Same := by
  induction iters generalizing turns with
  | zero => exact .excused_left he
  | succ iters ih =>
    obtain ⟨n, rfl⟩ : ∃ n, turns = n + 1 := ⟨turns - 1, by omega⟩
    rw [Updi.UpdiNvm.waitUnlockedLoop, UpdiApplication.waitUnlockedLoop, orFail_bind, orFail_bind]
    refine Lockstep.right (fun s w h ↦ expired_run g time timeout h) fun late _ ↦ ?_
    rw [orFail_ite, orFail_false, orFail_bind]
    by_cases hlate : late = true
    · rw [if_pos hlate]
      exact .excused_right hf
    rw [if_neg hlate]
    refine (lockstep_sysStatus g clock time dl).bind (fun r ↦ ?_) (fun _ _ h ↦ h.elim) ?_
    · refine keptBy_of_sends (F := Updi.ReadFrame)
        (sends_orFail (.ite (fun _ ↦ .pure) fun _ ↦ ?_) e)
      exact Updi.sends_millis.bind fun now ↦ .ite (fun _ ↦ .pure) fun _ ↦
        Updi.sends_waitUnlockedLoop timeoutMs start iters
    rintro _ status rfl
    rw [orFail_ite, orFail_ite, orFail_true, orFail_true, orFail_bind]
    refine .ite (by simp) (fun _ ↦ .pure (.ok trivial)) fun _ ↦ ?_
    refine Lockstep.left (fun s w h ↦ millis_run g clock h) fun now _ ↦ ?_
    rw [orFail_ite, orFail_false]
    by_cases hexpired : timeoutMs ≤ now - start
    · rw [if_pos hexpired]
      exact .excused_left he
    · rw [if_neg hexpired]
      exact ih (by omega)

theorem lockstep_waitUnlocked (hturns : Updi.nvmMaxPollIters ≤ turns) (timeoutMs : UInt32) (ms : ℕ)
    {e : UpdiErr} (he : L e) {f : PymcuprogError} (hf : f.Missed) :
    Lockstep (InStep dl) (progExcuse L)
      (orFail (Updi.UpdiNvm.waitUnlocked (g.transport clock).recorded timeoutMs) e)
      (orFail (UpdiApplication.waitUnlocked (g.port time) turns ms) f) Same := by
  unfold Updi.UpdiNvm.waitUnlocked UpdiApplication.waitUnlocked
  rw [orFail_bind, orFail_bind]
  refine Lockstep.left (fun s w h ↦ millis_run g clock h) fun start _ ↦ ?_
  refine Lockstep.right (fun s w h ↦ start_run g time ms h) fun timeout _ ↦ ?_
  exact lockstep_waitUnlockedLoop g clock time dl timeoutMs start hturns timeout he hf

theorem lockstep_reset (apply : Bool) : Lockstep (InStep dl) (progExcuse L)
    (Updi.UpdiNvm.nvmReset (g.transport clock).recorded apply)
      (UpdiApplication.reset (g.port time) apply)
    (Return fun _ _ ↦ True) := by
  cases apply <;> exact lockstep_send g clock time _

theorem lockstep_attempt_reset (apply : Bool) : Lockstep (InStep dl) (progExcuse L)
    (attempt (Updi.UpdiNvm.nvmReset (g.transport clock).recorded apply))
      (UpdiApplication.reset (g.port time) apply)
    (Return fun _ _ ↦ True) := by
  have hsend (data : List UInt8) : Lockstep (InStep dl) (progExcuse L)
      (attempt (UpdiLink.send (g.transport clock).recorded data))
        (UpdiPhysical.send (g.port time) data)
      (Return fun _ _ ↦ True) := by
    intro s w h
    obtain ⟨s', w', hc, hp, h', -⟩ := send_run g clock time data h
    rw [attempt_run, hc, hp]
    exact .inr ⟨h', .ok trivial⟩
  cases apply <;> exact hsend _

/-- Any frames, as long as the record of the calls grows. -/
abbrev Grows {α : Type} (m : LinkM ((τ × κ) × List Event) α) : Prop := LinkSends (fun _ ↦ True) m

theorem grows_reads {α : Type} {m : LinkM ((τ × κ) × List Event) α}
    (h : LinkSends Updi.ReadFrame m) : Grows m :=
  h.mono (Updi.Sends.mono fun _ _ ↦ trivial)

theorem grows_resets : Grows (do
    let _ ← attempt (Updi.UpdiNvm.nvmReset (g.transport clock).recorded true)
    let _ ← attempt (Updi.UpdiNvm.nvmReset (g.transport clock).recorded false)) :=
  Updi.sends_toggleReset fun _ ↦ trivial

theorem lockstep_toggleReset {k : LinkM ((τ × κ) × List Event) Unit} {j : PyM (Wire τ κ') Unit}
    (hgrows : Grows k) (hk : Lockstep (InStep dl) (progExcuse L) k j Same) :
    Lockstep (InStep dl) (progExcuse L) (do
      let _ ← attempt (Updi.UpdiNvm.nvmReset (g.transport clock).recorded true)
      let _ ← attempt (Updi.UpdiNvm.nvmReset (g.transport clock).recorded false)
      k) (do
      UpdiApplication.reset (g.port time) true
      UpdiApplication.reset (g.port time) false
      j) Same := by
  refine (lockstep_attempt_reset g clock time dl true).bind (fun _ ↦ ?_) (fun _ _ h ↦ h.elim)
    fun _ _ _ ↦ ?_
  · exact keptBy_of_sends ((Only.attempt (Updi.sends_stcs trivial)).bind fun _ ↦ hgrows)
  · exact (lockstep_attempt_reset g clock time dl false).bind (fun _ ↦ keptBy_of_sends hgrows)
      (fun _ _ h ↦ h.elim) fun _ _ _ ↦ hk

theorem lockstep_sendKey {k k' : List UInt8} (hk : k.length = 8) (heq : k' = k) :
    Lockstep (InStep dl) (progExcuse L)
    (UpdiLink.sendKey (g.transport clock).recorded Updi.key64 k)
    (UpdiReadWrite.writeKey (g.port time) Constants.key64 k') (Return fun _ _ ↦ True) := by
  subst heq
  have hc : ¬k'.length ≠ 8 <<< Updi.key64.toNat := not_not.mpr hk
  have hp : ¬k'.length ≠ 8 <<< Constants.key64.toNat := not_not.mpr hk
  rw [UpdiLink.sendKey, UpdiReadWrite.writeKey, UpdiDatalink.key, if_neg hc, if_neg hp,
    if_neg (by omega)]
  refine (lockstep_send g clock time _).bind (fun _ ↦ ?_) (fun _ _ h ↦ h.elim) fun _ _ _ ↦ ?_
  · exact keptBy_of_sends (F := fun _ ↦ True) (Updi.sends_send trivial)
  · exact lockstep_send g clock time k'.reverse

/-- A key goes out, and both look at the same status to see whether it was taken. -/
theorem lockstep_key {k k' : List UInt8} (hk : k.length = 8) (heq : k' = k) {bit bit' : UInt8}
    (hbit : bit' = bit) (e : UpdiErr) (f : PymcuprogError)
    {next : LinkM ((τ × κ) × List Event) Unit} {j : PyM (Wire τ κ') Unit} (hgrows : Grows next)
    (hnext : Lockstep (InStep dl) (progExcuse L) next j Same) :
    Lockstep (InStep dl) (progExcuse L) (do
      UpdiLink.sendKey (g.transport clock).recorded Updi.key64 k
      let keyStatus ← UpdiLink.ldcs (g.transport clock).recorded Updi.asiKeyStatus
      if keyStatus &&& bit = 0 then fail e else next) (do
      UpdiReadWrite.writeKey (g.port time) Constants.key64 k'
      let keyStatus ← UpdiReadWrite.readCs (g.port time) Constants.asiKeyStatus
      if keyStatus &&& bit' = 0 then fail f else j) Same := by
  subst hbit
  have hcheck (keyStatus : UInt8) : Grows (if keyStatus &&& bit' = 0 then fail e else next) :=
    .ite (fun _ ↦ .fail) fun _ ↦ hgrows
  refine (lockstep_sendKey g clock time dl hk heq).bind (fun _ ↦ ?_) (fun _ _ h ↦ h.elim)
    fun _ _ _ ↦ ?_
  · exact keptBy_of_sends ((Updi.sends_ldcs trivial).bind hcheck)
  refine (lockstep_ldcs g clock time dl _).bind (fun keyStatus ↦ keptBy_of_sends (hcheck keyStatus))
    (fun _ _ _ ↦ .error trivial) ?_
  rintro keyStatus _ rfl
  exact .ite Iff.rfl (fun _ ↦ .fail (.error trivial)) fun _ ↦ hnext

theorem lockstep_unlock (hturns : Updi.nvmMaxPollIters ≤ turns) (hnvm : L .nvm) :
    Lockstep (InStep dl) (progExcuse L) (Updi.UpdiNvm.unlock (g.transport clock).recorded)
      (UpdiApplication.unlock (g.port time) turns) Same := by
  have hgrows :
      Grows (orFail (Updi.UpdiNvm.waitUnlocked (g.transport clock).recorded 500) UpdiErr.nvm) :=
    sends_orFail (grows_reads (Updi.sends_waitUnlocked 500)) _
  have hwait := lockstep_waitUnlocked g clock time dl hturns 500 500 hnvm
    (f := .serialUpdi "Failed to chip erase using key") rfl
  have hresets := lockstep_toggleReset g clock time dl hgrows hwait
  have hall : Grows (do
      let _ ← attempt (Updi.UpdiNvm.nvmReset (g.transport clock).recorded true)
      let _ ← attempt (Updi.UpdiNvm.nvmReset (g.transport clock).recorded false)
      orFail (Updi.UpdiNvm.waitUnlocked (g.transport clock).recorded 500) UpdiErr.nvm) :=
    (Only.attempt (Updi.sends_stcs trivial)).bind fun _ ↦
      (Only.attempt (Updi.sends_stcs trivial)).bind fun _ ↦ hgrows
  have hkey : Constants.keyChiperase = Updi.keyChiperase := rfl
  have hbit : 1 <<< Constants.keyStatusChiperase = Updi.keyStatusChiperase := rfl
  have hunlock := lockstep_key g clock time dl rfl hkey hbit .protocol
    (.serialUpdi "Key not accepted") hall hresets
  unfold orFail at hunlock
  unfold Updi.UpdiNvm.unlock UpdiApplication.unlock orFail
  with_reducible exact hunlock

theorem lockstep_leaveProgmode : Lockstep (InStep dl) (progExcuse L)
    (Updi.UpdiNvm.leaveProgmode (g.transport clock).recorded)
      (UpdiApplication.leaveProgmode (g.port time)) Same := by
  refine lockstep_toggleReset g clock time dl (Updi.sends_stcs trivial) ?_
  exact (lockstep_send g clock time _).mono fun _ _ ↦ Return.same

theorem lockstep_applyKey : Lockstep (InStep dl) (progExcuse L)
    (Updi.UpdiNvm.applyNvmprogKey (g.transport clock).recorded)
      (UpdiApplication.applyNvmKey (g.port time)) Same := by
  have hkey : Constants.keyNvm = Updi.keyNvm := rfl
  have hbit : 1 <<< Constants.keyStatusNvmprog = Updi.keyStatusNvmprog := rfl
  have hresets : Lockstep (InStep dl) (progExcuse L) (do
      let _ ← attempt (Updi.UpdiNvm.nvmReset (g.transport clock).recorded true)
      let _ ← attempt (Updi.UpdiNvm.nvmReset (g.transport clock).recorded false)) (do
      UpdiApplication.reset (g.port time) true
      UpdiApplication.reset (g.port time) false) Same := by
    rw [← bind_pure (UpdiApplication.reset (g.port time) false)]
    exact lockstep_toggleReset g clock time dl .pure (.pure (.ok trivial))
  have hgrows := grows_resets g clock
  have htake := lockstep_key g clock time dl rfl hkey hbit .protocol
    (.serialUpdi "Key not accepted") hgrows hresets
  unfold Updi.UpdiNvm.applyNvmprogKey UpdiApplication.applyNvmKey
  refine (lockstep_reset g clock time dl true).bind (fun _ ↦ ?_) (fun _ _ h ↦ h.elim) fun _ _ _ ↦ ?_
  · refine keptBy_of_sends (F := fun _ ↦ True)
      ((Updi.sends_sendKey trivial trivial).bind fun _ ↦ ?_)
    exact (Updi.sends_ldcs trivial).bind fun _ ↦ .ite (fun _ ↦ .fail) fun _ ↦ hgrows
  · with_reducible exact htake

theorem lockstep_enterProgmode (hturns : Updi.nvmMaxPollIters ≤ turns) (hlocked : L .locked) :
    Lockstep (InStep dl) (progExcuse L) (Updi.UpdiNvm.enterProgmode (g.transport clock).recorded)
      (UpdiApplication.enterProgmode (g.port time) turns) Same := by
  have hmode := lockstep_inProgmode g clock time dl (L := L)
  have hcheck :=
    lockstep_orFail dl hmode .protocol (.serialUpdi "Failed to enter NVM programming mode")
  have hwait := lockstep_waitUnlocked g clock time dl hturns 100 100 hlocked
    (f := .locked "Failed to enter NVM programming mode: device is locked") trivial
  have hgrows :
      Grows (orFail (Updi.UpdiNvm.inProgmode (g.transport clock).recorded) UpdiErr.protocol) :=
    sends_orFail (grows_reads Updi.sends_inProgmode) _
  have hgrows' :
      Grows (orFail (Updi.UpdiNvm.waitUnlocked (g.transport clock).recorded 100) UpdiErr.locked >>=
        fun _ ↦
      orFail (Updi.UpdiNvm.inProgmode (g.transport clock).recorded) UpdiErr.protocol) :=
    (sends_orFail (grows_reads (Updi.sends_waitUnlocked 100)) _).bind fun _ ↦ hgrows
  have hgrows'' : Grows (Updi.UpdiNvm.applyNvmprogKey (g.transport clock).recorded) :=
    Updi.sends_applyNvmprogKey (fun _ ↦ trivial) (fun _ _ ↦ trivial) trivial trivial
  have hrest : Updi.UpdiNvm.enterProgmode (g.transport clock).recorded = (do
      if ← Updi.UpdiNvm.inProgmode (g.transport clock).recorded then pure () else do
        Updi.UpdiNvm.applyNvmprogKey (g.transport clock).recorded
        orFail (Updi.UpdiNvm.waitUnlocked (g.transport clock).recorded 100) UpdiErr.locked
        orFail (Updi.UpdiNvm.inProgmode (g.transport clock).recorded) UpdiErr.protocol) := by
    unfold Updi.UpdiNvm.enterProgmode
    rw [bind_ite_fail (Updi.UpdiNvm.waitUnlocked (g.transport clock).recorded 100)]
    rfl
  rw [hrest]
  refine hmode.bind (fun _ ↦ ?_) (fun _ _ h ↦ h.elim) ?_
  · exact keptBy_of_sends (F := fun _ ↦ True) (.ite (fun _ ↦ .pure) fun _ ↦
      hgrows''.bind fun _ ↦ hgrows')
  rintro mode _ rfl
  refine .ite Iff.rfl (fun _ ↦ .pure (.ok trivial)) fun _ ↦ ?_
  refine (lockstep_applyKey g clock time dl).bind (fun _ ↦ keptBy_of_sends hgrows')
    (fun _ _ _ ↦ .error trivial) ?_
  intro _ _ _
  exact hwait.bind (fun _ ↦ keptBy_of_sends hgrows) (fun _ _ _ ↦ .error trivial) fun _ _ _ ↦ hcheck

end Progmode

/-- The functions of the NVM layer that have a method of pymcuprog. -/
inductive NvmCall
  | chipErase
  | eraseFlashPage (address : ℕ)
  | writeFlashPage (address : ℕ) (data : List UInt8)
  | writeFuse (index value : UInt8)
  | enterProgmode
  | leaveProgmode
  | unlock
  deriving DecidableEq, Repr

namespace NvmCall

variable {σ : Type} (d : UpdiDevice)

def run (t : UpdiTransport σ) : NvmCall → LinkM σ Unit
  | chipErase => Updi.UpdiNvm.chipErase t d
  | eraseFlashPage address => Updi.UpdiNvm.eraseFlashPage t d address
  | writeFlashPage address data => Updi.UpdiNvm.writeFlashPage t d address data
  | writeFuse index value => Updi.UpdiNvm.writeFuse t d index value
  | enterProgmode => Updi.UpdiNvm.enterProgmode t
  | leaveProgmode => Updi.UpdiNvm.leaveProgmode t
  | unlock => Updi.UpdiNvm.unlock t

/-- The method of pymcuprog, on the class for the variant of the device. A fuse
is given by its address there. -/
def reference (port : SerialPort σ) (dl : UpdiDatalink) (turns : ℕ) : NvmCall → PyM σ Unit
  | chipErase =>
    match d.nvmVariant with
    | .p0 => NvmUpdiP0.chipErase port dl turns ⟨d.nvmctrlBase⟩
    | .p3 => NvmUpdiP3.chipErase port dl turns ⟨d.nvmctrlBase⟩
  | eraseFlashPage address =>
    match d.nvmVariant with
    | .p0 => NvmUpdiP0.eraseFlashPage port dl turns ⟨d.nvmctrlBase⟩ address
    | .p3 => NvmUpdiP3.eraseFlashPage port dl turns ⟨d.nvmctrlBase⟩ address
  | writeFlashPage address data =>
    match d.nvmVariant with
    | .p0 => NvmUpdiP0.writeFlash port dl turns ⟨d.nvmctrlBase⟩ address data
    | .p3 => NvmUpdiP3.writeFlash port dl turns ⟨d.nvmctrlBase⟩ address data
  | writeFuse index value =>
    match d.nvmVariant with
    | .p0 => NvmUpdiP0.writeFuse port dl turns
      ⟨d.nvmctrlBase⟩ (d.fusesAddress + index.toNat) [value]
    | .p3 => NvmUpdiP3.writeFuse port dl turns
      ⟨d.nvmctrlBase⟩ (d.fusesAddress + index.toNat) [value]
  | enterProgmode => UpdiApplication.enterProgmode port turns
  | leaveProgmode => UpdiApplication.leaveProgmode port
  | unlock => UpdiApplication.unlock port turns

def InRange : NvmCall → Prop
  | writeFlashPage _ data => (data.length ≠ 0 ∧ data.length % 2 = 0) ∧ data.length ≤ d.flashPageSize
  | writeFuse index _ => index.toNat < d.fusesSize
  | _ => True

/-- How the port reports a status poll that did not end ready. -/
def PollFailed : NvmCall → UpdiErr → Prop
  | enterProgmode, e => e = .locked
  | leaveProgmode, _ => False
  | unlock, e => e = .nvm
  | _, e => e = .timeout ∨ e = .nvm

end NvmCall

section Bytes

variable {τ κ κ' : Type} {d : UpdiDevice} {turns : ℕ}

/-- What excuses a call: a status poll that failed, an acknowledge that did
not arrive, or a read of the system status that got no answer. -/
def NvmCall.excuse (op : NvmCall) :
    Excuse (LinkState ((τ × κ) × List Event)) UpdiErr PymcuprogError :=
  ⟨fun s ↦ unanswered <:+: linkLog s, op.PollFailed, PymcuprogError.Missed⟩

theorem excused_of_nvm {dl : UpdiDatalink} {m : LinkM ((τ × κ) × List Event) Unit}
    {p : PyM (Wire τ κ') Unit} {op : NvmCall} (h : Lockstep (InStep dl) nvmExcuse m p Same)
    (hop : ∀ e, e = .timeout ∨ e = .nvm → op.PollFailed e) :
    Lockstep (InStep dl) op.excuse m p Same := h.weaken (fun _ ↦ False.elim) hop fun _ ↦ id

theorem lockstep_call (g : Target τ) (clock : Option (κ → UInt32 × κ)) (time : κ' → ℚ × κ')
    (dl : UpdiDatalink)
    (hturns : Updi.nvmMaxPollIters ≤ turns) {op : NvmCall} (hop : op.InRange d) :
    Lockstep (InStep dl) op.excuse (op.run d (g.transport clock).recorded)
      (op.reference d (g.port time) dl turns) Same := by
  cases op with
  | chipErase =>
    cases hv : d.nvmVariant with
    | p0 =>
      simp only [NvmCall.reference, hv]
      exact excused_of_nvm (lockstep_chipErase_p0 g clock time dl hturns hv) fun _ ↦ id
    | p3 =>
      simp only [NvmCall.reference, hv]
      exact excused_of_nvm (lockstep_chipErase_p3 g clock time dl hturns hv) fun _ ↦ id
  | eraseFlashPage address =>
    cases hv : d.nvmVariant with
    | p0 =>
      simp only [NvmCall.reference, hv]
      exact excused_of_nvm (lockstep_eraseFlashPage_p0 g clock time dl hturns hv address) fun _ ↦ id
    | p3 =>
      simp only [NvmCall.reference, hv]
      exact excused_of_nvm (lockstep_eraseFlashPage_p3 g clock time dl hturns hv address) fun _ ↦ id
  | writeFlashPage address data =>
    obtain ⟨hlen, hpage⟩ := hop
    cases hv : d.nvmVariant with
    | p0 =>
      simp only [NvmCall.reference, hv]
      exact excused_of_nvm (lockstep_writeFlashPage_p0 g clock time dl hturns hv address hlen hpage)
        fun _ ↦ id
    | p3 =>
      simp only [NvmCall.reference, hv]
      exact excused_of_nvm (lockstep_writeFlashPage_p3 g clock time dl hturns hv address hlen hpage)
        fun _ ↦ id
  | writeFuse index value =>
    cases hv : d.nvmVariant with
    | p0 =>
      simp only [NvmCall.reference, hv]
      exact excused_of_nvm (lockstep_writeFuse_p0 g clock time dl hturns hv hop value) fun _ ↦ id
    | p3 =>
      simp only [NvmCall.reference, hv]
      exact excused_of_nvm (lockstep_writeFuse_p3 g clock time dl hturns hv hop value) fun _ ↦ id
  | enterProgmode => exact lockstep_enterProgmode g clock time dl (L := (· = .locked)) hturns rfl
  | leaveProgmode => exact lockstep_leaveProgmode g clock time dl (L := fun _ ↦ False)
  | unlock => exact lockstep_unlock g clock time dl (L := (· = .nvm)) hturns rfl

/-- The port sends the bytes that pymcuprog sends to the same target, if every
status poll of both ends ready in time, every acknowledge arrives and every
read of the system status is answered. -/
theorem port_sends_reference_bytes (g : Target τ) (clock : Option (κ → UInt32 × κ))
    (time : κ' → ℚ × κ')
    (hturns : Updi.nvmMaxPollIters ≤ turns) (op : NvmCall) (hop : op.InRange d) (link : UpdiLink)
    (x : τ) (k : κ) (k' : κ')
    (hpolls : ∀ e, (op.run d (g.transport clock).recorded ⟨link, (x, k), []⟩).1 = .error e →
      ¬op.PollFailed e)
    (hreference : ∀ e, (op.reference d (g.port time) (.ofWidth link.addressBytes) turns
      ⟨x, [], [], k'⟩).1 = .error e →
      ¬e.Missed)
    (hanswered : ¬unanswered <:+:
      (op.run d (g.transport clock).recorded ⟨link, (x, k), []⟩).2.ctx.2) :
    delivered (op.run d (g.transport clock).recorded ⟨link, (x, k), []⟩).2.ctx.2 =
      (op.reference d (g.port time) (.ofWidth link.addressBytes) turns
        ⟨x, [], [], k'⟩).2.written := by
  have hstart :
      InStep (.ofWidth link.addressBytes) (⟨link, (x, k), []⟩ : LinkState ((τ × κ) × List Event))
      (⟨x, [], [], k'⟩ : Wire τ κ') := ⟨rfl, rfl, rfl, rfl⟩
  rcases lockstep_call g clock time _ hturns hop _ _
    hstart with (hs | ⟨e, he, hx⟩ | ⟨f, hf, hx⟩) | ⟨hend, -⟩
  · exact absurd hs hanswered
  · exact absurd hx (hpolls e he)
  · exact absurd hx (hreference f hf)
  · exact hend.bytes

end Bytes

/-- A target that gives the answers of a list in turn, whatever it hears. -/
def scripted : Target (List (List UInt8)) where
  hear _ answers := answers
  answer len answers := ((answers.headD []).take len, answers.tail)
  answer_length _ _ := List.length_take_le _ _

abbrev portRun (d : UpdiDevice) (link : UpdiLink) (op : NvmCall) (answers : List (List UInt8)) :=
  op.run d (scripted.transport (none : Option (Unit → UInt32 × Unit))).recorded
    ⟨link, (answers, ()), []⟩

abbrev referenceRun (d : UpdiDevice) (link : UpdiLink) (op : NvmCall)
    (answers : List (List UInt8)) :=
  op.reference d
    (scripted.port fun k : Unit ↦ (0, k)) (.ofWidth link.addressBytes) Updi.nvmMaxPollIters
    ⟨answers, [], [], ()⟩

def avr64ea28 : UpdiDevice :=
  ⟨0x1E9620, "avr64ea28", 0x800000, 0x10000, 0x80, 0x1050, 0x9, 0x1100, 0x1000, 3, .p3⟩

/-- Two words for an AVR EA that is found busy twice. -/
def pageAnswers : List (List UInt8) :=
  [[0x02], [0x00], [0x40], [0x40], [0x00], [0x40], [0x40], [0x40], [0x01], [0x00], [0x40], [0x40]]

theorem same_bytes_for_two_words :
    delivered (portRun avr64ea28 ⟨3, 300, true⟩ (.writeFlashPage 0x800000 [1, 2, 3, 4])
        pageAnswers).2.ctx.2 =
        (referenceRun avr64ea28 ⟨3, 300, true⟩ (.writeFlashPage 0x800000 [1, 2, 3, 4])
          pageAnswers).2.written ∧
      (portRun avr64ea28 ⟨3, 300, true⟩ (.writeFlashPage 0x800000 [1, 2, 3, 4]) pageAnswers).1 =
        .ok () ∧
      (referenceRun avr64ea28 ⟨3, 300, true⟩ (.writeFlashPage 0x800000 [1, 2, 3, 4])
        pageAnswers).1 = .ok () := by
  have hport :
      (portRun avr64ea28 ⟨3, 300, true⟩ (.writeFlashPage 0x800000 [1, 2, 3, 4]) pageAnswers).1 =
        .ok () := by
    decide +kernel
  have href : (referenceRun avr64ea28 ⟨3, 300, true⟩ (.writeFlashPage 0x800000 [1, 2, 3, 4])
      pageAnswers).1 = .ok () := by
    decide +kernel
  have hanswered : ¬unanswered <:+:
      (portRun avr64ea28 ⟨3, 300, true⟩ (.writeFlashPage 0x800000 [1, 2, 3, 4])
        pageAnswers).2.ctx.2 := by
    decide +kernel
  have hrange : (NvmCall.writeFlashPage 0x800000 [1, 2, 3, 4]).InRange avr64ea28 :=
    ⟨by decide, by decide⟩
  have hbytes := port_sends_reference_bytes scripted (none : Option (Unit → UInt32 × Unit))
    (fun k : Unit ↦ (0, k)) (Nat.le_refl _) _ hrange ⟨3, 300, true⟩ pageAnswers () ()
  refine ⟨?_, hport, href⟩
  with_reducible refine hbytes ?_ ?_ hanswered
  · intro e he
    rw [hport] at he
    exact nomatch he
  · intro e he
    rw [href] at he
    exact nomatch he

/-- Where the first status read gets no answer the port goes on, and a fuse that
the device does not have is refused before a byte is sent. -/
theorem reference_diverges :
    ((portRun attiny412 UpdiLink.init .enterProgmode [[], [0x10], [0x00], [0x08]]).1 = .ok () ∧
      (∃ msg, (referenceRun attiny412 UpdiLink.init .enterProgmode [[], [0x10], [0x00], [0x08]]).1 =
        .error (.protocol msg) ∧ ¬(PymcuprogError.protocol msg).Missed) ∧
      delivered (portRun attiny412 UpdiLink.init .enterProgmode [[], [0x10], [0x00],
        [0x08]]).2.ctx.2 ≠
        (referenceRun attiny412 UpdiLink.init .enterProgmode [[], [0x10], [0x00],
          [0x08]]).2.written) ∧
    (portRun attiny412 UpdiLink.init (.writeFuse 9 0)
        ([0x00] :: List.replicate 8 [0x40] ++ [[0x00]])).1 =
        .error .param ∧
      (referenceRun attiny412 UpdiLink.init (.writeFuse 9 0)
        ([0x00] :: List.replicate 8 [0x40] ++ [[0x00]])).1 = .ok () ∧
      delivered (portRun attiny412 UpdiLink.init (.writeFuse 9 0)
          ([0x00] :: List.replicate 8 [0x40] ++ [[0x00]])).2.ctx.2 ≠
        (referenceRun attiny412 UpdiLink.init (.writeFuse 9 0)
          ([0x00] :: List.replicate 8 [0x40] ++ [[0x00]])).2.written := by
  refine ⟨⟨rfl, ⟨"Unexpected number of bytes in response: 0 byte(s), expected 1 byte(s)", rfl,
    ?_⟩, by decide +kernel⟩,
    rfl, by decide +kernel, by decide +kernel⟩
  simp [PymcuprogError.Missed, ackErrors]

end UpdiProgrammer.Reference

import UpdiProgrammer.Transport.BridgeLink
import UpdiProgrammer.Updi.Seam

namespace UpdiProgrammer.Transport

open Updi HostTest UpdiLink UpdiNvm UpdiEmu Library.Program Prog

/-- Two links in the same state, with their target between instructions. -/
def AtEase (s : LinkState UpdiEmu) (u : LinkState Bridge) : Prop :=
  OnBridge s u ∧ At s.ctx.mem [] 0 s.ctx

variable {t : UpdiTransport Bridge} {α : Type}

theorem atEase_of_together {x : LinkM UpdiEmu α} {y : LinkM Bridge α} {a24 : Bool} {m : EmuMem}
    {s : LinkState UpdiEmu} {u : LinkState Bridge} {a : α}
    (h : Together OnBridge x y s u a (InStep a24 m)) :
    Together AtEase x y s u a (InStep a24 m) := by
  apply h.mono
  intro s u hon hs
  refine ⟨hon, ?_⟩
  rw [hs.target.mem]
  exact hs.target

theorem ease {x : LinkM UpdiEmu α} {y : LinkM Bridge α}
    (h : ∀ a24 m s u, OnBridge s u → InStep a24 m s →
      ∃ a m', Together OnBridge x y s u a (InStep a24 m')) :
    Agrees AtEase x y := by
  apply Together.agrees
  intro s u hease
  obtain ⟨a, m', htogether⟩ := h _ s.ctx.mem s u hease.1 ⟨rfl, hease.2⟩
  exact ⟨a, _, atEase_of_together htogether⟩

section Link

variable (ht : InTime t)
include ht

theorem ease_sendBreak :
    Agrees AtEase (sendRaw (emuTransport .emulator) [updiBreak]) (sendRaw t [updiBreak]) :=
  ease fun _ m _ _ h hs ↦ ⟨true, m, together_sendRaw ht (List.cons_ne_nil _ _) hears_break h hs⟩

theorem ease_ldcs (a : UInt8) : Agrees AtEase (ldcs (emuTransport .emulator) a) (ldcs t a) :=
  ease fun _ m _ _ h hs ↦ ⟨_, m, together_ldcs ht a h hs⟩

theorem ease_stcs (a v : UInt8) : Agrees AtEase (stcs (emuTransport .emulator) a v) (stcs t a v) :=
  ease fun _ _ _ _ h hs ↦ ⟨(), _, together_stcs ht a v h hs⟩

theorem ease_enableAck : Agrees AtEase (enableAck (emuTransport .emulator)) (enableAck t) :=
  ease fun _ _ _ _ h hs ↦ ⟨(), _, together_enableAck ht h hs⟩

theorem ease_ldByte (address : ℕ) :
    Agrees AtEase (ldByte (emuTransport .emulator) address) (ldByte t address) :=
  ease fun _ m _ _ h hs ↦ ⟨_, m, together_ldByte ht address h hs⟩

theorem ease_stByte (address : ℕ) (value : UInt8) :
    Agrees AtEase (stByte (emuTransport .emulator) address value) (stByte t address value) :=
  ease fun _ _ _ _ h hs ↦ ⟨(), _, together_stByte ht address value h hs⟩

theorem ease_sendKey {k : List UInt8} (hk : k.length = 8) :
    Agrees AtEase (sendKey (emuTransport .emulator) key64 k) (sendKey t key64 k) :=
  ease fun _ _ _ _ h hs ↦ ⟨(), _, together_sendKey ht hk h hs⟩

theorem ease_readSib : Agrees AtEase (readSib (emuTransport .emulator) 16) (readSib t 16) :=
  ease fun _ m _ _ h hs ↦ ⟨_, m, together_readSib ht h hs⟩

theorem ease_readData (address : ℕ) {size : ℕ} (h1 : 1 ≤ size) (hmax : size ≤ maxRepeatSize) :
    Agrees AtEase (readData (emuTransport .emulator) address size) (readData t address size) :=
  ease fun _ m _ _ h hs ↦ ⟨_, m, together_readData ht address h1 hmax h hs⟩

theorem ease_writeDataWords (address : ℕ) (data : List UInt8) :
    Agrees AtEase (writeDataWords (emuTransport .emulator) address data)
      (writeDataWords t address data) := by
  refine .ite (fun _ ↦ .fail) fun hsome ↦ ?_
  have hblock : Agrees AtEase (if maxRepeatSize * 2 < data.length then fail .param else do
        stPtr (emuTransport .emulator) address
        repeatCount (emuTransport .emulator) (data.length / 2)
        stPtrInc16Block (emuTransport .emulator) data)
      (if maxRepeatSize * 2 < data.length then fail .param else do
        stPtr t address
        repeatCount t (data.length / 2)
        stPtrInc16Block t data) := by
    refine .ite (fun _ ↦ .fail) fun hmax ↦ ease fun a24 m s u h hs ↦ ?_
    have hfits : data.length ≤ 512 := Nat.not_lt.mp hmax
    have hw := wireAddress_lt a24 address
    have hwords : data.length / 2 ≤ maxRepeatSize := by
      unfold maxRepeatSize
      omega
    have hlen : data.length = (data.length / 2 - 1 + 1) * 2 := by omega
    obtain ⟨s, u, hptr, hptr', h, hs⟩ := together_stPtr ht address h hs
    obtain ⟨s, u, hrepeat, hrepeat', h, hs⟩ := together_repeatCount ht (by omega) hwords h hs
    obtain ⟨m', s, u, hrun, hrun', h, hs⟩ := together_stPtrInc16Block ht hlen (by omega) hfits h hs
    refine ⟨(), m', s, u, ?_, ?_, h, hs⟩
    · rw [bind_ok hptr, bind_ok hrepeat, hrun]
    · rw [bind_ok hptr', bind_ok hrepeat', hrun']
  split
  · exact ease fun _ _ _ _ h hs ↦ ⟨(), _, together_st16 ht address _ h hs⟩
  · exact hblock

theorem ease_doubleBreak :
    Agrees AtEase (doubleBreak (emuTransport .emulator)) (doubleBreak t) := by
  rintro s u ⟨h, hat⟩
  obtain ⟨f, hf, hcarries⟩ := ht.doubleBreak
  have hbreak : doubleBreak t u = (.ok (), ⟨{ u.link with ackEnabled := true }, f u.ctx⟩) := by
    rw [doubleBreak, hf]
  have hlink :
      { s.link with ackEnabled := true } = { u.link with ackEnabled := true } := by rw [h.link]
  rw [hbreak]
  exact ⟨rfl, ⟨hlink, h.timeout, hcarries s.ctx u.ctx h.carries hat.rx⟩, hat.mem, rfl, hat.rx,
    hat.repeatNext⟩

theorem InTime.link : AlikeLink AtEase (emuTransport .emulator) t where
  link _ _ hR := hR.1.link
  relink _ _ _ hR hl := ⟨⟨rfl, hl.trans hR.1.timeout, hR.1.carries⟩, hR.2⟩
  sendBreak := ease_sendBreak ht
  doubleBreak := ease_doubleBreak ht
  enableAck := ease_enableAck ht
  ldcs := ease_ldcs ht
  stcs := ease_stcs ht
  ldByte := ease_ldByte ht
  stByte := ease_stByte ht
  sendKey _ hk := ease_sendKey ht hk
  readSib := ease_readSib ht
  readData address _ h1 hmax := ease_readData ht address h1 hmax
  writeDataWords := ease_writeDataWords ht

end Link

/-- The clocks of the two sides go their own ways. -/
theorem follows_millis_bind (ht : InTime t) {k : UInt32 → LinkM UpdiEmu α}
    {j : UInt32 → LinkM Bridge α} (h : ∀ n n', Follows AtEase (k n) (j n')) :
    Follows AtEase (millis (emuTransport .emulator) >>= k) (millis t >>= j) := by
  rintro s u ⟨hon, hat⟩ a s' hrun
  obtain ⟨f, hf, hcarries⟩ := ht.millis
  have hclock : millis t u = (.ok (f u.ctx).1, { u with ctx := (f u.ctx).2 }) := by
    rw [millis, hf]
  have hease :
      AtEase { s with ctx := { s.ctx with nowMs := s.ctx.nowMs + 1 } }
        { u with ctx := (f u.ctx).2 } :=
    ⟨⟨hon.link, hon.timeout, hcarries s.ctx u.ctx hon.carries⟩, hat.mem, hat.state, hat.rx,
      hat.repeatNext⟩
  rw [bind_ok hclock]
  exact h _ _ _ _ hease a s' hrun

section Waits

variable {a24 : Bool} {m : EmuMem} {s : LinkState UpdiEmu} {d : UpdiDevice}

theorem waitUnlockedLoop_locked (hlocked : m.cs asiSysStatus &&& sysStatusLockstatus ≠ 0)
    (timeoutMs start : UInt32) (iters : ℕ) (h : InStep a24 m s) :
    Returns (waitUnlockedLoop (emuTransport .emulator) timeoutMs start iters) s false
      (InStep a24 m) := by
  induction iters generalizing s with
  | zero => exact .pure h
  | succ iters ih =>
    refine (ldcs_returns h asiSysStatus).attempt.bind fun s h ↦ ?_
    have hlocked' : ¬(m.cs (asiSysStatus &&& 0x0F) &&& sysStatusLockstatus == 0) = true := by
      rw [beq_iff_eq]
      exact hlocked
    rw [if_neg hlocked']
    refine (millis_returns at_nowMs h).bind fun s h ↦ ?_
    split_ifs
    · exact .pure h
    · exact ih h

theorem waitNvmReadyLoop_busy {status : UInt8}
    (hstatus : m.memRead (wireAddress a24 (d.nvmctrlBase + d.nvmDesc.regStatus)) = status)
    (hbusy : ¬(status &&& d.nvmDesc.statusWrerrMask = 0 ∧ status &&& d.nvmDesc.statusBusyMask = 0))
    (timeoutMs start : UInt32) (iters : ℕ) (h : InStep a24 m s) :
    ∃ e, Ends (waitNvmReadyLoop (emuTransport .emulator) d timeoutMs start iters) s (.error e)
      (InStep a24 m) := by
  induction iters generalizing s with
  | zero => exact ⟨.timeout, .fail h⟩
  | succ iters ih =>
    have hread := ldByte_returns (P := .emulator) h (d.nvmctrlBase + d.nvmDesc.regStatus)
    rw [hstatus] at hread
    by_cases hwrerr : status &&& d.nvmDesc.statusWrerrMask = 0
    · have hnot : ¬status &&& d.nvmDesc.statusBusyMask = 0 := fun hb ↦ hbusy ⟨hwrerr, hb⟩
      obtain ⟨s₁, hrun₁, h₁⟩ := hread
      obtain ⟨s₂, hrun₂, h₂⟩ := millis_returns (P := .emulator) at_nowMs h₁
      have hturn : waitNvmReadyLoop (emuTransport .emulator) d timeoutMs start (iters + 1) s =
          (if timeoutMs ≤ s₁.ctx.nowMs + 1 - start then fail .timeout
            else waitNvmReadyLoop (emuTransport .emulator) d timeoutMs start iters) s₂ := by
        rw [waitNvmReadyLoop, bind_ok hrun₁, if_neg (not_not.mpr hwrerr), if_neg hnot,
          bind_ok hrun₂]
      obtain ⟨e, s₃, hrun₃, h₃⟩ := ih h₂
      by_cases hlate : timeoutMs ≤ s₁.ctx.nowMs + 1 - start
      · refine ⟨.timeout, s₂, ?_, h₂⟩
        rw [hturn, if_pos hlate]
        rfl
      · refine ⟨e, s₃, ?_, h₃⟩
        rw [hturn, if_neg hlate, hrun₃]
    · refine ⟨.nvm, Ends.bind hread fun s h ↦ ?_⟩
      rw [if_pos hwrerr]
      exact .fail h

end Waits

section Commands

variable (ht : InTime t)
include ht

/-- A wait that ends well ends at its first turn, on either side. -/
theorem follows_waitUnlocked (timeoutMs : UInt32) (e : UpdiErr) :
    Follows AtEase (orFail (waitUnlocked (emuTransport .emulator) timeoutMs) e)
      (orFail (waitUnlocked t timeoutMs) e) := by
  obtain ⟨turns, hturns⟩ : ∃ turns, nvmMaxPollIters = turns + 1 := ⟨199999, rfl⟩
  unfold waitUnlocked
  rw [orFail_bind, orFail_bind]
  refine follows_millis_bind ht fun start start' ↦ ?_
  rintro s u ⟨hon, hat⟩ a s' hrun
  have hstep : InStep (s.link.addressBytes == 3) s.ctx.mem s := ⟨rfl, hat⟩
  by_cases hlocked : s.ctx.mem.cs asiSysStatus &&& sysStatusLockstatus = 0
  · have hlock : (s.ctx.mem.cs (asiSysStatus &&& 0x0F) &&& sysStatusLockstatus == 0) = true :=
      beq_iff_eq.mpr hlocked
    have hwait :
        Together OnBridge
          (orFail (waitUnlockedLoop (emuTransport .emulator) timeoutMs start nvmMaxPollIters) e)
        (orFail (waitUnlockedLoop t timeoutMs start' nvmMaxPollIters) e) s u ()
        (InStep (s.link.addressBytes == 3) s.ctx.mem) := by
      rw [hturns, waitUnlockedLoop, waitUnlockedLoop, orFail_bind, orFail_bind]
      refine (together_ldcs ht asiSysStatus hon hstep).attempt.bind fun s u h hs ↦ ?_
      rw [if_pos hlock, if_pos hlock]
      exact .pure h hs
    exact (atEase_of_together hwait).follows hrun
  · obtain ⟨s₁, hfalse, -⟩ := waitUnlockedLoop_locked hlocked timeoutMs start nvmMaxPollIters hstep
    rw [orFail, bind_ok hfalse] at hrun
    cases hrun

variable (d : UpdiDevice)

theorem follows_waitNvmReady (timeoutMs : UInt32) :
    Follows AtEase (waitNvmReady (emuTransport .emulator) d timeoutMs)
      (waitNvmReady t d timeoutMs) := by
  obtain ⟨turns, hturns⟩ : ∃ turns, nvmMaxPollIters = turns + 1 := ⟨199999, rfl⟩
  refine follows_millis_bind ht fun start start' ↦ ?_
  rintro s u ⟨hon, hat⟩ a s' hrun
  have hstep : InStep (s.link.addressBytes == 3) s.ctx.mem s := ⟨rfl, hat⟩
  generalize hstatus :
    s.ctx.mem.memRead
      (wireAddress (s.link.addressBytes == 3) (d.nvmctrlBase + d.nvmDesc.regStatus)) =
    status
  by_cases hready : status &&& d.nvmDesc.statusWrerrMask = 0 ∧
    status &&& d.nvmDesc.statusBusyMask = 0
  · have hwait :
        Together OnBridge
          (waitNvmReadyLoop (emuTransport .emulator) d timeoutMs start nvmMaxPollIters)
        (waitNvmReadyLoop t d timeoutMs start' nvmMaxPollIters) s u ()
          (InStep (s.link.addressBytes == 3) s.ctx.mem) := by
      have hread := together_ldByte ht (d.nvmctrlBase + d.nvmDesc.regStatus) hon hstep
      rw [hstatus] at hread
      rw [hturns, waitNvmReadyLoop, waitNvmReadyLoop]
      refine hread.bind fun s u h hs ↦ ?_
      rw [if_neg (not_not.mpr hready.1), if_neg (not_not.mpr hready.1), if_pos hready.2,
        if_pos hready.2]
      exact .pure h hs
    exact (atEase_of_together hwait).follows hrun
  · obtain ⟨e, s₁, hfailed, -⟩ :=
      waitNvmReadyLoop_busy hstatus hready timeoutMs start nvmMaxPollIters hstep
    rw [hfailed] at hrun
    cases hrun

theorem follows_finishCommand (timeoutMs : UInt32) (clear : Bool) :
    Follows AtEase (finishCommand (emuTransport .emulator) d timeoutMs clear)
      (finishCommand t d timeoutMs clear) := by
  apply (follows_waitNvmReady ht d timeoutMs).attempt_bind
  · intro e s b s' hrun
    cases clear with
    | false => cases hrun
    | true => cases hrun
  · intro a
    have hclear :
      Agrees AtEase (attempt (executeNvmCommand (emuTransport .emulator) d d.nvmDesc.cmdNocmd))
      (attempt (executeNvmCommand t d d.nvmDesc.cmdNocmd)) := (ease_stByte ht _ _).attempt
    cases clear with
    | false => exact .pure
    | true => exact (Follows.of_agrees hclear).bind fun _ ↦ .pure

omit d in
theorem InTime.compared : Compared @Follows AtEase (emuTransport .emulator) t where
  toAlikeLink := ht.link
  comparison := Follows.comparison
  waitUnlocked := follows_waitUnlocked ht
  waitNvmReady := follows_waitNvmReady ht
  finishCommand := follows_finishCommand ht

end Commands

end UpdiProgrammer.Transport

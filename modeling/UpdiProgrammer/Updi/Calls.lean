import UpdiProgrammer.Updi.Connect

namespace UpdiProgrammer.Updi

open Library.Program Prog UpdiLink UpdiNvm UpdiSession

variable {σ α β : Type}

inductive SessionOp
  | connect
  | unlock
  | disconnect
  | chipErase
  | writeFlash (image : List UInt8)
  | verifyFlash (image : List UInt8)
  | readFlash (len : ℕ)
  | readFuses (count : ℕ)
  | writeFuse (index value : UInt8)

/-- What a call does to the session and its line, whatever it returns. -/
def SessionOp.run (t : UpdiTransport σ) : SessionOp → SessionM σ Unit
  | connect => UpdiSession.connect t
  | unlock => UpdiSession.unlock t
  | disconnect => UpdiSession.disconnect t
  | chipErase => UpdiSession.chipErase t
  | writeFlash image => UpdiSession.writeFlash t image
  | verifyFlash image => do
    let _ ← UpdiSession.verifyFlash t image
  | readFlash len => do
    let _ ← UpdiSession.readFlash t len
  | readFuses count => do
    let _ ← UpdiSession.readFuses t count
  | writeFuse index value => UpdiSession.writeFuse t index value

/-- An image to be written fits into the flash, which the reader of the HEX file sees to. -/
def SessionOp.Fits (d : UpdiDevice) : SessionOp → Prop
  | writeFlash image => image.length ≤ d.flashSize
  | _ => True

def runCalls (t : UpdiTransport σ) : List SessionOp → SessionState σ → SessionState σ :=
  after (SessionOp.run t)

/-- The address size of the link, which only a connect chooses. -/
def width (s : LinkState σ) : ℕ := s.link.addressBytes

section Width

variable (t : UpdiTransport σ)

theorem width_sendRaw (data : List UInt8) : Fixes width (sendRaw t data) := fun _ ↦ rfl

theorem width_recvRaw (len : ℕ) : Fixes width (recvRaw t len) := fun _ ↦ rfl

theorem width_setAckEnabled (b : Bool) : Fixes width (setAckEnabled b : LinkM σ Unit) :=
  .modify fun _ ↦ rfl

theorem width_millis : Fixes width (millis t) := by
  intro s
  rw [millis]
  cases t.millis with
  | none => rfl
  | some f => rfl

theorem width_send (data : List UInt8) : Fixes width (UpdiLink.send t data) :=
  (width_sendRaw t data).bind fun _ ↦ .ite (fun _ ↦ .pure) fun _ ↦ .fail

theorem width_recvByte : Fixes width (recvByte t) := by
  refine (width_recvRaw t 1).bind fun buf ↦ ?_
  split
  · exact .pure
  · exact .fail

theorem width_recvAck : Fixes width (recvAck t) :=
  (width_recvRaw t 1).bind fun _ ↦ .ite (fun _ ↦ .pure) fun _ ↦ .fail

theorem width_recvAll (len : ℕ) : Fixes width (recvAll t len) :=
  (width_recvRaw t len).bind fun _ ↦ .ite (fun _ ↦ .pure) fun _ ↦ .fail

theorem width_ldcs (a : UInt8) : Fixes width (ldcs t a) :=
  (width_send t _).bind fun _ ↦ width_recvByte t

theorem width_stcs (a v : UInt8) : Fixes width (stcs t a v) := width_send t _

theorem width_enableAck : Fixes width (enableAck t) :=
  (width_stcs t _ _).bind fun _ ↦ width_setAckEnabled true

theorem width_disableAck : Fixes width (disableAck t) :=
  (width_stcs t _ _).bind fun _ ↦ width_setAckEnabled false

theorem width_ldByte (address : ℕ) : Fixes width (ldByte t address) :=
  Fixes.read.bind fun _ ↦ (width_send t _).bind fun _ ↦ width_recvByte t

theorem width_stDataPhase (values : List UInt8) : Fixes width (stDataPhase t values) :=
  (width_recvAck t).bind fun _ ↦ (width_send t values).bind fun _ ↦ width_recvAck t

theorem width_stByte (address : ℕ) (value : UInt8) : Fixes width (stByte t address value) :=
  Fixes.read.bind fun _ ↦ (width_send t _).bind fun _ ↦ width_stDataPhase t _

theorem width_st16 (address : ℕ) (value : UInt16) : Fixes width (st16 t address value) :=
  Fixes.read.bind fun _ ↦ (width_send t _).bind fun _ ↦ width_stDataPhase t _

theorem width_stPtr (address : ℕ) : Fixes width (stPtr t address) :=
  Fixes.read.bind fun _ ↦ (width_send t _).bind fun _ ↦ width_recvAck t

theorem width_repeatCount (count : ℕ) : Fixes width (repeatCount t count) :=
  .ite (fun _ ↦ .fail) fun _ ↦ width_send t _

theorem width_streamBytes (data : List UInt8) : Fixes width (streamBytes t data) := by
  induction data with
  | nil => exact .pure
  | cons b rest ih => exact (width_send t [b]).bind fun _ ↦ (width_recvAck t).bind fun _ ↦ ih

theorem width_stPtrInc (data : List UInt8) : Fixes width (stPtrInc t data) := by
  cases data with
  | nil => exact .fail
  | cons b rest =>
    exact (width_send t _).bind fun _ ↦ (width_recvAck t).bind fun _ ↦ width_streamBytes t rest

theorem width_stPtrInc16Block (data : List UInt8) : Fixes width (stPtrInc16Block t data) :=
  (width_disableAck t).bind fun _ ↦ (width_send t _).bind fun _ ↦
    (width_send t data).bind fun _ ↦ width_enableAck t

theorem width_sendKey (sizeIdx : UInt8) (k : List UInt8) : Fixes width (sendKey t sizeIdx k) :=
  .ite (fun _ ↦ .fail) fun _ ↦ .ite (fun _ ↦ .fail) fun _ ↦
    (width_send t _).bind fun _ ↦ width_send t _

theorem width_readData (address size : ℕ) : Fixes width (readData t address size) := by
  refine .ite (fun _ ↦ .fail) fun _ ↦ (width_stPtr t address).bind fun _ ↦ ?_
  have hload : Fixes width (ldPtrInc t size) := (width_send t _).bind fun _ ↦ width_recvAll t size
  by_cases h : 1 < size
  · simp only [if_pos h]
    exact (width_repeatCount t size).bind fun _ ↦ hload
  · simp only [if_neg h]
    exact hload

theorem width_writeDataWords (address : ℕ) (data : List UInt8) :
    Fixes width (writeDataWords t address data) := by
  refine .ite (fun _ ↦ .fail) fun _ ↦ ?_
  split
  · exact width_st16 t address _
  · refine .ite (fun _ ↦ .fail) fun _ ↦ (width_stPtr t address).bind fun _ ↦ ?_
    exact (width_repeatCount t _).bind fun _ ↦ width_stPtrInc16Block t _

theorem width_writeChunks (fuel address : ℕ) (data : List UInt8) :
    Fixes width (writeChunks t fuel address data) := by
  induction fuel generalizing address data with
  | zero => exact .pure
  | succ fuel ih =>
    refine .ite (fun _ ↦ .pure) fun _ ↦ (width_stPtr t address).bind fun _ ↦ ?_
    exact (width_repeatCount t _).bind fun _ ↦ (width_stPtrInc t _).bind fun _ ↦ ih _ _

theorem width_writeData (address : ℕ) (data : List UInt8) :
    Fixes width (writeData t address data) := by
  unfold writeData
  split
  · exact .fail
  · exact width_stByte t address _
  · exact (width_stByte t address _).bind fun _ ↦ width_stByte t _ _
  · exact width_writeChunks t _ address _

theorem width_inProgmode : Fixes width (inProgmode t) := by
  refine (width_ldcs t _).attempt.bind fun r ↦ ?_
  cases r with
  | ok s => exact .pure
  | error e => exact .pure

theorem width_waitUnlockedLoop (timeoutMs start : UInt32) (iters : ℕ) :
    Fixes width (waitUnlockedLoop t timeoutMs start iters) := by
  induction iters with
  | zero => exact .pure
  | succ iters ih =>
    refine (width_ldcs t _).attempt.bind fun r ↦ .ite (fun _ ↦ .pure) fun _ ↦ ?_
    exact (width_millis t).bind fun now ↦ .ite (fun _ ↦ .pure) fun _ ↦ ih

theorem width_waitUnlocked (timeoutMs : UInt32) : Fixes width (waitUnlocked t timeoutMs) :=
  (width_millis t).bind fun start ↦ width_waitUnlockedLoop t timeoutMs start nvmMaxPollIters

theorem width_nvmReset (apply : Bool) : Fixes width (nvmReset t apply) := width_stcs t _ _

theorem width_applyNvmprogKey : Fixes width (applyNvmprogKey t) := by
  refine (width_nvmReset t true).bind fun _ ↦ (width_sendKey t _ _).bind fun _ ↦ ?_
  refine (width_ldcs t _).bind fun keyStatus ↦ .ite (fun _ ↦ .fail) fun _ ↦ ?_
  exact (width_nvmReset t true).attempt.bind fun _ ↦ (width_nvmReset t false).attempt.bind fun _ ↦
    .pure

theorem width_enterProgmode : Fixes width (enterProgmode t) := by
  refine (width_inProgmode t).bind fun _ ↦ .ite (fun _ ↦ .pure) fun _ ↦ ?_
  refine (width_applyNvmprogKey t).bind fun _ ↦ (width_waitUnlocked t 100).bind fun _ ↦ ?_
  refine .ite (fun _ ↦ ?_) fun _ ↦ .fail
  exact (width_inProgmode t).bind fun _ ↦ .ite (fun _ ↦ .pure) fun _ ↦ .fail

theorem width_leaveProgmode : Fixes width (leaveProgmode t) :=
  (width_nvmReset t true).attempt.bind fun _ ↦ (width_nvmReset t false).attempt.bind fun _ ↦
    width_stcs t _ _

theorem width_unlock : Fixes width (UpdiNvm.unlock t) := by
  refine (width_sendKey t _ _).bind fun _ ↦ ?_
  refine (width_ldcs t _).bind fun keyStatus ↦ .ite (fun _ ↦ .fail) fun _ ↦ ?_
  refine (width_nvmReset t true).attempt.bind fun _ ↦ (width_nvmReset t false).attempt.bind fun _ ↦
    ?_
  exact (width_waitUnlocked t 500).bind fun _ ↦ .ite (fun _ ↦ .pure) fun _ ↦ .fail

theorem width_readChunks (fuel address size : ℕ) :
    Fixes width (readChunks t fuel address size) := by
  induction fuel generalizing address size with
  | zero => exact .pure
  | succ fuel ih =>
    refine .ite (fun _ ↦ .pure) fun _ ↦ (width_readData t address _).bind fun bytes ↦ ?_
    exact (ih _ _).bind fun rest ↦ .pure

variable (d : UpdiDevice)

theorem width_waitNvmReadyLoop (timeoutMs start : UInt32) (iters : ℕ) :
    Fixes width (waitNvmReadyLoop t d timeoutMs start iters) := by
  induction iters with
  | zero => exact .fail
  | succ iters ih =>
    refine (width_ldByte t _).bind fun status ↦ .ite (fun _ ↦ .fail) fun _ ↦
      .ite (fun _ ↦ .pure) fun _ ↦ ?_
    exact (width_millis t).bind fun now ↦ .ite (fun _ ↦ .fail) fun _ ↦ ih

theorem width_waitNvmReady (timeoutMs : UInt32) : Fixes width (waitNvmReady t d timeoutMs) :=
  (width_millis t).bind fun start ↦ width_waitNvmReadyLoop t d timeoutMs start nvmMaxPollIters

theorem width_executeNvmCommand (command : UInt8) : Fixes width (executeNvmCommand t d command) :=
  width_stByte t _ command

theorem width_finishCommand (timeoutMs : UInt32) (clear : Bool) :
    Fixes width (finishCommand t d timeoutMs clear) := by
  refine (width_waitNvmReady t d timeoutMs).attempt.bind fun ready ↦ ?_
  cases clear with
  | true => exact (width_executeNvmCommand t d _).attempt.bind fun _ ↦ .ofStatus
  | false => exact .ofStatus

theorem width_chipErase : Fixes width (UpdiNvm.chipErase t d) :=
  (width_waitNvmReady t d 100).bind fun _ ↦ (width_executeNvmCommand t d _).bind fun _ ↦
    width_finishCommand t d 500 _

theorem width_writeFlashPage (address : ℕ) (data : List UInt8) :
    Fixes width (writeFlashPage t d address data) := by
  refine .ite (fun _ ↦ .fail) fun _ ↦ .ite (fun _ ↦ .fail) fun _ ↦ ?_
  refine (width_waitNvmReady t d 100).bind fun _ ↦ (width_executeNvmCommand t d _).bind fun _ ↦ ?_
  refine (width_waitNvmReady t d 100).bind fun _ ↦
    (width_writeDataWords t address data).bind fun _ ↦ ?_
  exact (width_executeNvmCommand t d _).bind fun _ ↦ width_finishCommand t d 100 _

theorem width_writeFuse (index value : UInt8) :
    Fixes width (UpdiNvm.writeFuse t d index value) := by
  refine .ite (fun _ ↦ .fail) fun _ ↦ ?_
  refine .ite (fun _ ↦ ?_) fun _ ↦ ?_
  · refine (width_waitNvmReady t d 100).bind fun _ ↦ (width_executeNvmCommand t d _).bind fun _ ↦ ?_
    refine (width_waitNvmReady t d 100).bind fun _ ↦ (width_writeData t _ _).bind fun _ ↦ ?_
    exact (width_executeNvmCommand t d _).bind fun _ ↦ width_finishCommand t d 100 true
  · refine (width_waitNvmReady t d 100).bind fun _ ↦ (width_stByte t _ _).bind fun _ ↦ ?_
    refine (width_stByte t _ _).bind fun _ ↦ (width_stByte t _ _).bind fun _ ↦ ?_
    exact (width_executeNvmCommand t d _).bind fun _ ↦ width_waitNvmReady t d 100

theorem width_writePages (page fuel address : ℕ) (data : List UInt8) :
    Fixes width (writePages t d page fuel address data) := by
  induction fuel generalizing address data with
  | zero => exact .pure
  | succ fuel ih =>
    refine .ite (fun _ ↦ .pure) fun _ ↦ ?_
    by_cases h : (!allFf (padPage page (data.take page))) = true
    · simp only [if_pos h]
      exact (width_writeFlashPage t d address _).bind fun _ ↦ ih _ _
    · simp only [if_neg h]
      exact ih _ _

theorem width_verifyChunks (flashAddress fuel off : ℕ) (data : List UInt8) :
    Fixes width (verifyChunks t flashAddress fuel off data) := by
  induction fuel generalizing off data with
  | zero => exact .pure
  | succ fuel ih =>
    refine .ite (fun _ ↦ .pure) fun _ ↦ (width_readChunks t _ _ _).bind fun rb ↦ ?_
    cases firstDifference off data rb with
    | some m => exact .pure
    | none => exact ih _ _

theorem width_readFlashChunks (fuel address len : ℕ) :
    Fixes width (readFlashChunks t fuel address len) := by
  induction fuel generalizing address len with
  | zero => exact .pure
  | succ fuel ih =>
    refine .ite (fun _ ↦ .pure) fun _ ↦ (width_readChunks t _ address _).bind fun bytes ↦ ?_
    exact (ih _ _).bind fun rest ↦ .pure

theorem width_readFuseLoop (n i : ℕ) : Fixes width (readFuseLoop t d n i) := by
  induction n generalizing i with
  | zero => exact .pure
  | succ n ih =>
    have hfuse : Fixes width (UpdiNvm.readFuse t d (UInt8.ofNat i)) :=
      .ite (fun _ ↦ .fail) fun _ ↦ width_ldByte t _
    exact hfuse.bind fun b ↦ (ih _).bind fun rest ↦ .pure

end Width

section NeverParam

variable (t : UpdiTransport σ) (d : UpdiDevice)

theorem neverParam_send (data : List UInt8) : Never .param (UpdiLink.send t data) := by
  have hraw : Never .param (sendRaw t data) := fun _ _ ↦ trivial
  exact hraw.bind fun _ ↦ .ite (fun _ ↦ .pure) fun _ ↦ .fail (by decide)

theorem neverParam_recvRaw (len : ℕ) : Never .param (recvRaw t len) := fun _ _ ↦ trivial

theorem neverParam_millis : Never .param (millis t) := by
  intro s _
  rw [millis]
  cases t.millis with
  | none => trivial
  | some f => trivial

theorem neverParam_ldByte (address : ℕ) : Never .param (ldByte t address) := by
  refine Never.read.bind fun _ ↦ (neverParam_send t _).bind fun _ ↦
    (neverParam_recvRaw t 1).bind fun buf ↦ ?_
  split
  · exact .pure
  · exact .fail (by decide)

theorem neverParam_stByte (address : ℕ) (value : UInt8) :
    Never .param (stByte t address value) := by
  have hack : Never .param (recvAck t) :=
    (neverParam_recvRaw t 1).bind fun _ ↦ .ite (fun _ ↦ .pure) fun _ ↦ .fail (by decide)
  refine Never.read.bind fun _ ↦ (neverParam_send t _).bind fun _ ↦ ?_
  exact hack.bind fun _ ↦ (neverParam_send t _).bind fun _ ↦ hack

theorem neverParam_waitNvmReadyLoop (timeoutMs start : UInt32) (iters : ℕ) :
    Never .param (waitNvmReadyLoop t d timeoutMs start iters) := by
  induction iters with
  | zero => exact .fail (by decide)
  | succ iters ih =>
    refine (neverParam_ldByte t _).bind fun status ↦ .ite (fun _ ↦ .fail (by decide)) fun _ ↦ ?_
    refine .ite (fun _ ↦ .pure) fun _ ↦ (neverParam_millis t).bind fun now ↦ ?_
    exact .ite (fun _ ↦ .fail (by decide)) fun _ ↦ ih

theorem neverParam_waitNvmReady (timeoutMs : UInt32) : Never .param (waitNvmReady t d timeoutMs) :=
  (neverParam_millis t).bind fun start ↦
    neverParam_waitNvmReadyLoop t d timeoutMs start nvmMaxPollIters

theorem neverParam_finishCommand (timeoutMs : UInt32) (clear : Bool) :
    Never .param (finishCommand t d timeoutMs clear) := by
  have hclear (ready : UpdiStatus) (h : Never .param (Prog.ofStatus ready : LinkM σ Unit)) :
      Never .param (do
        if clear then
          let _ ← Prog.attempt (executeNvmCommand t d d.nvmDesc.cmdNocmd)
        Prog.ofStatus ready : LinkM σ Unit) := by
    cases clear with
    | true => exact Never.attempt.bind fun _ ↦ h
    | false => exact h
  refine (neverParam_waitNvmReady t d timeoutMs).attempt_bind (fun a ↦ ?_) fun e he ↦ ?_
  · exact hclear _ fun _ _ ↦ trivial
  · exact hclear _ fun _ _ ↦ he

theorem neverParam_chipErase : Never .param (UpdiNvm.chipErase t d) :=
  (neverParam_waitNvmReady t d 100).bind fun _ ↦ (neverParam_stByte t _ _).bind fun _ ↦
    neverParam_finishCommand t d 500 _

end NeverParam

end UpdiProgrammer.Updi

import UpdiProgrammer.Updi.Link
import UpdiProgrammer.Updi.Device
import Mathlib.Data.List.DropRight

namespace UpdiProgrammer.Updi

open Library.Program Prog UpdiLink

/-- The NVMCTRL registers, command codes and status masks of a variant. -/
structure NvmVariantDesc where
  regCtrla : ℕ
  regStatus : ℕ
  regData : ℕ
  regAddr : ℕ
  cmdChipErase : UInt8
  cmdPageBufferClear : UInt8
  cmdWritePage : UInt8
  cmdErasePage : UInt8
  cmdWriteFuse : UInt8
  cmdEepromBufferClear : UInt8
  cmdEepromEraseWrite : UInt8
  cmdNocmd : UInt8
  statusWrerrMask : UInt8
  statusBusyMask : UInt8
  clearCmdAfter : Bool
  fuseViaEeprom : Bool
  deriving DecidableEq, Repr

def nvmDescP0 : NvmVariantDesc where
  regCtrla := 0x00
  regStatus := 0x02
  regData := 0x06
  regAddr := 0x08
  cmdChipErase := 0x05
  cmdPageBufferClear := 0x04
  cmdWritePage := 0x01
  cmdErasePage := 0x02
  cmdWriteFuse := 0x07
  cmdEepromBufferClear := 0x00
  cmdEepromEraseWrite := 0x00
  cmdNocmd := 0x00
  statusWrerrMask := 0x04
  statusBusyMask := 0x03
  clearCmdAfter := false
  fuseViaEeprom := false

def nvmDescP3 : NvmVariantDesc where
  regCtrla := 0x00
  regStatus := 0x06
  regData := 0x08
  regAddr := 0x0C
  cmdChipErase := 0x20
  cmdPageBufferClear := 0x0F
  cmdWritePage := 0x04
  cmdErasePage := 0x08
  cmdWriteFuse := 0xFF
  cmdEepromBufferClear := 0x1F
  cmdEepromEraseWrite := 0x15
  cmdNocmd := 0x00
  statusWrerrMask := 0x70
  statusBusyMask := 0x03
  clearCmdAfter := true
  fuseViaEeprom := true

def UpdiDevice.nvmDesc (d : UpdiDevice) : NvmVariantDesc :=
  match d.nvmVariant with
  | .p3 => nvmDescP3
  | .p0 => nvmDescP0

structure UpdiSibInfo where
  family : List UInt8
  nvmVersion : UInt8
  deriving DecidableEq, Repr

def sigrowDefaultAddress : ℕ := 0x1100

/-- A backstop for the poll loops when the transport has no clock. -/
def nvmMaxPollIters : ℕ := 200000

namespace UpdiNvm

variable {σ : Type} (t : UpdiTransport σ)

def nvmReset (apply : Bool) : LinkM σ Unit :=
  stcs t asiResetReq (if apply then resetReqValue else 0x00)

def inProgmode : LinkM σ Bool := do
  match ← attempt (ldcs t asiSysStatus) with
  | .ok s => pure (s &&& sysStatusNvmprog != 0)
  | .error _ => pure false

/-- The loop of `wait_unlocked` with `iters` turns left. A failed read is
skipped, as the C code does. -/
def waitUnlockedLoop (timeoutMs start : UInt32) : (iters : ℕ) → LinkM σ Bool
  | 0 => pure false
  | iters + 1 => do
    let r ← attempt (ldcs t asiSysStatus)
    if (match r with | .ok s => s &&& sysStatusLockstatus == 0 | .error _ => false) then pure true
    else do
      let now ← millis t
      if timeoutMs ≤ now - start then pure false else waitUnlockedLoop timeoutMs start iters

def waitUnlocked (timeoutMs : UInt32) : LinkM σ Bool := do
  let start ← millis t
  waitUnlockedLoop t timeoutMs start nvmMaxPollIters

/-- The part of `updi_nvm_enter_progmode` that hands over the NVMPROG key
and toggles reset to apply it. -/
def applyNvmprogKey : LinkM σ Unit := do
  nvmReset t true
  sendKey t key64 keyNvm
  let keyStatus ← ldcs t asiKeyStatus
  if keyStatus &&& keyStatusNvmprog = 0 then fail .protocol
  else do
    let _ ← attempt (nvmReset t true)
    let _ ← attempt (nvmReset t false)

def enterProgmode : LinkM σ Unit := do
  if ← inProgmode t then pure ()
  else do
    applyNvmprogKey t
    if ← waitUnlocked t 100 then
      if ← inProgmode t then pure () else fail .protocol
    else fail .locked

def leaveProgmode : LinkM σ Unit := do
  let _ ← attempt (nvmReset t true)
  let _ ← attempt (nvmReset t false)
  stcs t csCtrlb (ctrlbUpdidis ||| ctrlbCcdetdis)

def unlock : LinkM σ Unit := do
  sendKey t key64 keyChiperase
  let keyStatus ← ldcs t asiKeyStatus
  if keyStatus &&& keyStatusChiperase = 0 then fail .protocol
  else do
    let _ ← attempt (nvmReset t true)
    let _ ← attempt (nvmReset t false)
    if ← waitUnlocked t 500 then pure () else fail .nvm

/-- The family is the first seven bytes less trailing blanks and zeros, and
the NVM version is the digit of the `P:x` field at byte 10. -/
def sibInfo (sib : List UInt8) : UpdiSibInfo where
  family := (sib.take 7).rdropWhile fun b ↦ b == 0x20 || b == 0
  nvmVersion :=
    let d := sib.getD 10 0
    if 0x30 ≤ d ∧ d ≤ 0x39 then d - 0x30 else 0xFF

def readSibInfo : LinkM σ UpdiSibInfo := do
  let sib ← readSib t 16
  if sib.length < 11 then fail .protocol else pure (sibInfo sib)

def readSignature (device : Option UpdiDevice) : LinkM σ (List UInt8) :=
  readData t (device.elim sigrowDefaultAddress UpdiDevice.sigrowAddress) 3

-- `d` is the device that the C code reaches through `nvm->device`
variable (d : UpdiDevice)

def executeNvmCommand (command : UInt8) : LinkM σ Unit :=
  stByte t (d.nvmctrlBase + d.nvmDesc.regCtrla) command

/-- The loop of `wait_nvm_ready` with `iters` turns left. -/
def waitNvmReadyLoop (timeoutMs start : UInt32) : (iters : ℕ) → LinkM σ Unit
  | 0 => fail .timeout
  | iters + 1 => do
    let status ← ldByte t (d.nvmctrlBase + d.nvmDesc.regStatus)
    if status &&& d.nvmDesc.statusWrerrMask ≠ 0 then fail .nvm
    else if status &&& d.nvmDesc.statusBusyMask = 0 then pure ()
    else do
      let now ← millis t
      if timeoutMs ≤ now - start then fail .timeout else waitNvmReadyLoop timeoutMs start iters

def waitNvmReady (timeoutMs : UInt32) : LinkM σ Unit := do
  let start ← millis t
  waitNvmReadyLoop t d timeoutMs start nvmMaxPollIters

/-- Wait for a command to finish, clear the command register on the
variants that need it, and return the status of the wait. -/
def finishCommand (timeoutMs : UInt32) (clear : Bool) : LinkM σ Unit := do
  let ready ← attempt (waitNvmReady t d timeoutMs)
  if clear then
    let _ ← attempt (executeNvmCommand t d d.nvmDesc.cmdNocmd)
  ofStatus ready

def chipErase : LinkM σ Unit := do
  waitNvmReady t d 100
  executeNvmCommand t d d.nvmDesc.cmdChipErase
  finishCommand t d 500 d.nvmDesc.clearCmdAfter

def eraseFlashPage (address : ℕ) : LinkM σ Unit := do
  waitNvmReady t d 100
  writeData t address [0xFF]
  executeNvmCommand t d d.nvmDesc.cmdErasePage
  finishCommand t d 100 d.nvmDesc.clearCmdAfter

/-- The chunk loop of `updi_nvm_read`, which ends within `fuel = size` turns. -/
def readChunks : (fuel address size : ℕ) → LinkM σ (List UInt8)
  | 0, _, _ => pure []
  | fuel + 1, address, size =>
    if size = 0 then pure []
    else do
      let chunk := min size maxRepeatSize
      let bytes ← readData t address chunk
      let rest ← readChunks fuel (address + chunk) (size - chunk)
      pure (bytes ++ rest)

def read (address size : ℕ) : LinkM σ (List UInt8) := readChunks t size address size

def writeFlashPage (address : ℕ) (data : List UInt8) : LinkM σ Unit :=
  if data.length = 0 ∨ data.length % 2 = 1 then fail .param
  else if d.flashPageSize < data.length then fail .param
  else do
    waitNvmReady t d 100
    executeNvmCommand t d d.nvmDesc.cmdPageBufferClear
    waitNvmReady t d 100
    writeDataWords t address data
    executeNvmCommand t d d.nvmDesc.cmdWritePage
    finishCommand t d 100 d.nvmDesc.clearCmdAfter

def readFuse (index : UInt8) : LinkM σ UInt8 :=
  if d.fusesSize ≤ index.toNat then fail .param
  else ldByte t (d.fusesAddress + index.toNat)

def writeFuse (index value : UInt8) : LinkM σ Unit :=
  if d.fusesSize ≤ index.toNat then fail .param
  else
    let address := d.fusesAddress + index.toNat
    if d.nvmDesc.fuseViaEeprom then do
      waitNvmReady t d 100
      executeNvmCommand t d d.nvmDesc.cmdEepromBufferClear
      waitNvmReady t d 100
      writeData t address [value]
      executeNvmCommand t d d.nvmDesc.cmdEepromEraseWrite
      finishCommand t d 100 true
    else do
      waitNvmReady t d 100
      stByte t (d.nvmctrlBase + d.nvmDesc.regAddr) (UInt8.ofNat address)
      stByte t (d.nvmctrlBase + d.nvmDesc.regAddr + 1) (UInt8.ofNat (address / 0x100))
      stByte t (d.nvmctrlBase + d.nvmDesc.regData) value
      executeNvmCommand t d d.nvmDesc.cmdWriteFuse
      waitNvmReady t d 100

end UpdiNvm

end UpdiProgrammer.Updi

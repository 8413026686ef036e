import UpdiProgrammer.Reference.Serialupdi

namespace UpdiProgrammer.Reference

open Library.Program Prog UpdiReadWrite Constants

/-- The device information of the stack, of which the methods below use this. -/
structure Dut where
  nvmctrlAddress : ℕ
  deriving DecidableEq, Repr

variable {σ : Type} (port : SerialPort σ)

-- Python bounds its polling loops by time alone, the model by `turns` as well
variable (dl : UpdiDatalink) (turns : ℕ) (dut : Dut)

namespace NvmUpdiP0

abbrev nvmctrlCtrla : ℕ := 0x00
abbrev nvmctrlStatus : ℕ := 0x02
abbrev nvmctrlData : ℕ := 0x06
abbrev nvmctrlAddr : ℕ := 0x08

abbrev nvmcmdWritePage : ℕ := 0x01
abbrev nvmcmdErasePage : ℕ := 0x02
abbrev nvmcmdEraseWritePage : ℕ := 0x03
abbrev nvmcmdPageBufferClr : ℕ := 0x04
abbrev nvmcmdChipErase : ℕ := 0x05
abbrev nvmcmdWriteFuse : ℕ := 0x07

abbrev statusWriteErrorBp : UInt8 := 2
abbrev statusEepromBusyBp : UInt8 := 1
abbrev statusFlashBusyBp : UInt8 := 0

def waitNvmReadyLoop (timeout : Timeout) : (turns : ℕ) → PyM σ Bool
  | 0 => fail .unfinished
  | turns + 1 => do
    if ← timeout.expired port then pure false
    else do
      let status ← readByte port dl (dut.nvmctrlAddress + nvmctrlStatus)
      if status &&& (1 <<< statusWriteErrorBp) ≠ 0 then fail (.nvm "NVM error" 1)
      else if status &&& (1 <<< statusEepromBusyBp ||| 1 <<< statusFlashBusyBp) = 0 then pure true
      else waitNvmReadyLoop timeout turns

def waitNvmReady : PyM σ Bool := do
  let timeout ← Timeout.start port 100
  waitNvmReadyLoop port dl dut timeout turns

def executeNvmCommand (command : ℕ) : PyM σ Unit :=
  writeByte port dl (dut.nvmctrlAddress + nvmctrlCtrla) command

def chipErase : PyM σ Unit := do
  orFail (waitNvmReady port dl turns dut)
    (.nvmTimeout "Timeout waiting for NVM controller to be ready before chip erase")
  executeNvmCommand port dl dut nvmcmdChipErase
  orFail (waitNvmReady port dl turns dut)
    (.nvmTimeout "Timeout waiting for NVM controller to be ready after chip erase")

def eraseFlashPage (address : ℕ) : PyM σ Unit := do
  orFail (waitNvmReady port dl turns dut)
    (.nvmTimeout "Timeout waiting for NVM controller to be ready before flash page erase")
  writeData port dl address [0xFF]
  executeNvmCommand port dl dut nvmcmdErasePage
  orFail (waitNvmReady port dl turns dut)
    (.nvmTimeout "Timeout waiting for NVM controller to be ready after flash page erase")

def writeNvm (address : ℕ) (data : List UInt8) (useWordAccess : Bool) (nvmcommand : ℕ) :
    PyM σ Unit := do
  orFail (waitNvmReady port dl turns dut)
    (.nvmTimeout "Timeout waiting for NVM controller to be ready before page buffer clear")
  executeNvmCommand port dl dut nvmcmdPageBufferClr
  orFail (waitNvmReady port dl turns dut)
    (.nvmTimeout "Timeout waiting for NVM controller to be ready after page buffer clear")
  if useWordAccess then writeDataWords port dl address data else writeData port dl address data
  executeNvmCommand port dl dut nvmcommand
  orFail (waitNvmReady port dl turns dut)
    (.nvmTimeout "Timeout waiting for NVM controller to be ready after page write")

def writeFlash (address : ℕ) (data : List UInt8) : PyM σ Unit :=
  writeNvm port dl turns dut address data true nvmcmdWritePage

def writeEeprom (address : ℕ) (data : List UInt8) : PyM σ Unit :=
  writeNvm port dl turns dut address data false nvmcmdEraseWritePage

def writeUserRow (address : ℕ) (data : List UInt8) : PyM σ Unit :=
  writeEeprom port dl turns dut address data

def writeFuse (address : ℕ) (data : List UInt8) : PyM σ Unit := do
  orFail (waitNvmReady port dl turns dut)
    (.nvmTimeout "Timeout waiting for NVM controller to be ready before fuse write")
  writeByte port dl (dut.nvmctrlAddress + nvmctrlAddr) (address &&& 0xFF)
  writeByte port dl (dut.nvmctrlAddress + nvmctrlAddr + 1) ((address >>> 8) &&& 0xFF)
  match data with
  | [] => fail .index
  | b :: _ => writeByte port dl (dut.nvmctrlAddress + nvmctrlData) (b.toNat &&& 0xFF)
  executeNvmCommand port dl dut nvmcmdWriteFuse
  orFail (waitNvmReady port dl turns dut)
    (.nvmTimeout "Timeout waiting for NVM controller to be ready after fuse write")

end NvmUpdiP0

namespace NvmUpdiP3

abbrev nvmctrlCtrla : ℕ := 0x00
abbrev nvmctrlStatus : ℕ := 0x06

abbrev nvmcmdNocmd : ℕ := 0x00
abbrev nvmcmdFlashPageWrite : ℕ := 0x04
abbrev nvmcmdFlashPageErase : ℕ := 0x08
abbrev nvmcmdFlashPageBufferClear : ℕ := 0x0F
abbrev nvmcmdEepromPageEraseWrite : ℕ := 0x15
abbrev nvmcmdEepromPageBufferClear : ℕ := 0x1F
abbrev nvmcmdChipErase : ℕ := 0x20

abbrev statusWriteErrorBm : UInt8 := 0x70
abbrev statusWriteErrorBp : UInt8 := 4
abbrev statusEepromBusyBp : UInt8 := 0
abbrev statusFlashBusyBp : UInt8 := 1

def waitNvmReadyLoop (timeout : Timeout) : (turns : ℕ) → PyM σ Bool
  | 0 => fail .unfinished
  | turns + 1 => do
    if ← timeout.expired port then pure false
    else do
      let status ← readByte port dl (dut.nvmctrlAddress + nvmctrlStatus)
      if status &&& statusWriteErrorBm ≠ 0 then
        fail (.nvm "NVM error" (status >>> statusWriteErrorBp).toNat)
      else if status &&& (1 <<< statusEepromBusyBp ||| 1 <<< statusFlashBusyBp) = 0 then pure true
      else waitNvmReadyLoop timeout turns

def waitNvmReady : PyM σ Bool := do
  let timeout ← Timeout.start port 100
  waitNvmReadyLoop port dl dut timeout turns

def executeNvmCommand (command : ℕ) : PyM σ Unit :=
  writeByte port dl (dut.nvmctrlAddress + nvmctrlCtrla) command

def chipErase : PyM σ Unit := do
  orFail (waitNvmReady port dl turns dut)
    (.nvmTimeout "Timeout waiting for NVM controller to be ready before chip erase")
  executeNvmCommand port dl dut nvmcmdChipErase
  let status ← waitNvmReady port dl turns dut
  executeNvmCommand port dl dut nvmcmdNocmd
  if status then pure ()
  else fail (.nvmTimeout "Timeout waiting for NVM controller to be ready after chip erase")

def eraseFlashPage (address : ℕ) : PyM σ Unit := do
  orFail (waitNvmReady port dl turns dut)
    (.nvmTimeout "Timeout waiting for NVM controller to be ready before flash page erase")
  writeData port dl address [0xFF]
  executeNvmCommand port dl dut nvmcmdFlashPageErase
  let status ← waitNvmReady port dl turns dut
  executeNvmCommand port dl dut nvmcmdNocmd
  if status then pure ()
  else fail (.nvmTimeout "Timeout waiting for NVM controller to be ready after flash page erase")

def writeNvm (address : ℕ) (data : List UInt8) (useWordAccess : Bool)
    (nvmcommand erasebufferCommand : ℕ) : PyM σ Unit := do
  orFail (waitNvmReady port dl turns dut)
    (.nvmTimeout "Timeout waiting for NVM controller to be ready before page buffer clear")
  executeNvmCommand port dl dut erasebufferCommand
  orFail (waitNvmReady port dl turns dut)
    (.nvmTimeout "Timeout waiting for NVM controller to be ready after page buffer clear")
  if useWordAccess then writeDataWords port dl address data else writeData port dl address data
  executeNvmCommand port dl dut nvmcommand
  orFail (waitNvmReady port dl turns dut)
    (.nvmTimeout "Timeout waiting for NVM controller to be ready after page write")
  executeNvmCommand port dl dut nvmcmdNocmd

def writeFlash (address : ℕ) (data : List UInt8) : PyM σ Unit :=
  writeNvm port dl turns dut address data true nvmcmdFlashPageWrite nvmcmdFlashPageBufferClear

def writeUserRow (address : ℕ) (data : List UInt8) : PyM σ Unit :=
  writeNvm port dl turns dut address data true nvmcmdFlashPageWrite nvmcmdFlashPageBufferClear

def writeEeprom (address : ℕ) (data : List UInt8) : PyM σ Unit :=
  writeNvm port dl turns dut address data false nvmcmdEepromPageEraseWrite
    nvmcmdEepromPageBufferClear

def writeFuse (address : ℕ) (data : List UInt8) : PyM σ Unit :=
  writeEeprom port dl turns dut address data

end NvmUpdiP3

namespace UpdiApplication

def inProgMode : PyM σ Bool := do
  let status ← readCs port asiSysStatus
  pure (status &&& (1 <<< sysStatusNvmprog) != 0)

def waitUnlockedLoop (timeout : Timeout) : (turns : ℕ) → PyM σ Bool
  | 0 => fail .unfinished
  | turns + 1 => do
    if ← timeout.expired port then pure false
    else do
      let status ← readCs port asiSysStatus
      if status &&& (1 <<< sysStatusLockstatus) = 0 then pure true else
        waitUnlockedLoop timeout turns

def waitUnlocked (timeoutMs : ℕ) : PyM σ Bool := do
  let timeout ← Timeout.start port timeoutMs
  waitUnlockedLoop port timeout turns

def reset (applyReset : Bool) : PyM σ Unit :=
  if applyReset then writeCs port asiResetReq resetReqValue else writeCs port asiResetReq 0x00

def unlock : PyM σ Unit := do
  writeKey port key64 keyChiperase
  let keyStatus ← readCs port asiKeyStatus
  if keyStatus &&& (1 <<< keyStatusChiperase) = 0 then fail (.serialUpdi "Key not accepted")
  else do
    reset port true
    reset port false
    orFail (waitUnlocked port turns 500) (.serialUpdi "Failed to chip erase using key")

/-- The part of `enter_progmode` that hands over the key and toggles reset. -/
def applyNvmKey : PyM σ Unit := do
  reset port true
  writeKey port key64 keyNvm
  let keyStatus ← readCs port asiKeyStatus
  if keyStatus &&& (1 <<< keyStatusNvmprog) = 0 then fail (.serialUpdi "Key not accepted")
  else do
    reset port true
    reset port false

def enterProgmode : PyM σ Unit := do
  if ← inProgMode port then pure ()
  else do
    applyNvmKey port
    orFail (waitUnlocked port turns 100)
      (.locked "Failed to enter NVM programming mode: device is locked")
    orFail (inProgMode port) (.serialUpdi "Failed to enter NVM programming mode")

def leaveProgmode : PyM σ Unit := do
  reset port true
  reset port false
  writeCs port csCtrlb (1 <<< ctrlbUpdidisBit ||| 1 <<< ctrlbCcdetdisBit)

end UpdiApplication

structure NvmDriver (σ : Type) where
  chipErase : PyM σ Unit
  writeFlash : ℕ → List UInt8 → PyM σ Unit
  writeUserRow : ℕ → List UInt8 → PyM σ Unit
  writeEeprom : ℕ → List UInt8 → PyM σ Unit
  writeFuse : ℕ → List UInt8 → PyM σ Unit

def NvmUpdiP0.driver : NvmDriver σ where
  chipErase := NvmUpdiP0.chipErase port dl turns dut
  writeFlash := NvmUpdiP0.writeFlash port dl turns dut
  writeUserRow := NvmUpdiP0.writeUserRow port dl turns dut
  writeEeprom := NvmUpdiP0.writeEeprom port dl turns dut
  writeFuse := NvmUpdiP0.writeFuse port dl turns dut

def NvmUpdiP3.driver : NvmDriver σ where
  chipErase := NvmUpdiP3.chipErase port dl turns dut
  writeFlash := NvmUpdiP3.writeFlash port dl turns dut
  writeUserRow := NvmUpdiP3.writeUserRow port dl turns dut
  writeEeprom := NvmUpdiP3.writeEeprom port dl turns dut
  writeFuse := NvmUpdiP3.writeFuse port dl turns dut

inductive MemoryName
  | flash
  | eeprom
  | fuses
  | lockbits
  | userRow
  | bootRow
  | other
  deriving DecidableEq, Repr

structure MemoryInfo where
  name : MemoryName
  address : ℕ
  pageSize : ℕ
  writeSize : ℕ
  deriving DecidableEq, Repr

namespace NvmAccessProviderSerial

section Write

variable (nvm : NvmDriver σ)

def writeChunk (name : MemoryName) (offset : ℕ) (chunk : List UInt8) : PyM σ Unit :=
  match name with
  | .fuses => nvm.writeFuse offset chunk
  | .lockbits => nvm.writeFuse offset chunk
  | .eeprom => nvm.writeEeprom offset chunk
  | .userRow => nvm.writeUserRow offset chunk
  | .bootRow => nvm.writeUserRow offset chunk
  | .flash => nvm.writeFlash offset chunk
  | .other => nvm.writeFlash offset chunk

/-- The loop of `write`, whose chunk shrinks to what is left. -/
def writeLoop (name : MemoryName) : (turns offset chunkSize : ℕ) → List UInt8 → PyM σ Unit
  | 0, _, _, _ => fail .unfinished
  | turns + 1, offset, chunkSize, data =>
    if data = [] then pure ()
    else do
      let chunkSize := if data.length < chunkSize then data.length else chunkSize
      writeChunk nvm name offset (data.take chunkSize)
      writeLoop name turns (offset + chunkSize) chunkSize (data.drop chunkSize)

/-- With `utils.pagealign` a parameter; no options are set. -/
def write (pagealign : List UInt8 → (offset pageSize writeSize : ℕ) → List UInt8 × ℕ)
    (memory : MemoryInfo) (offset : ℕ) (data : List UInt8) : PyM σ Unit :=
  let (dataAligned, offsetAligned) := pagealign data offset memory.pageSize memory.writeSize
  let writeChunkSize :=
    if memory.name ∈ [.flash, .eeprom, .fuses, .lockbits] then memory.pageSize else
      dataAligned.length
  writeLoop nvm memory.name (dataAligned.length + 1) (offsetAligned + memory.address)
    writeChunkSize dataAligned

end Write

abbrev readChunkSize : ℕ := 0x100

/-- The loop of `read`, whose chunk shrinks to what is left. Each turn takes at
least one byte, so `fuel = numbytes` turns are enough. -/
def readLoop : (fuel offset numbytes chunkSize : ℕ) → PyM σ (List UInt8)
  | 0, _, _, _ => pure []
  | fuel + 1, offset, numbytes, chunkSize =>
    if numbytes = 0 then pure []
    else do
      let chunkSize := if numbytes < chunkSize then numbytes else chunkSize
      let data ← readData port dl offset chunkSize
      let rest ← readLoop fuel (offset + chunkSize) (numbytes - chunkSize) chunkSize
      pure (data ++ rest)

def read (memoryAddress offset numbytes : ℕ) : PyM σ (List UInt8) :=
  readLoop port dl numbytes (offset + memoryAddress) numbytes readChunkSize

end NvmAccessProviderSerial

end UpdiProgrammer.Reference

import UpdiProgrammer.Updi.Session

namespace UpdiProgrammer.HostTest

open Updi

inductive DecoderState
  | idle
  | opcode
  | stcsVal
  | repeatVal
  | ldsAddr
  | stsAddr
  | stsData
  | stptrAddr
  | stinc8
  | stinc16
  | key
  deriving DecidableEq, Repr

def emuFlashSize : ℕ := 0x10000
def emuIoBase : ℕ := 0x1000
def emuIoSize : ℕ := 0x0600

/-- One slot of the ring buffer always stays free. -/
def emuRxCap : ℕ := 2048

/-- The configuration and the memories of the emulator, with its two key
latches. The arrays are functions of the index, and `sib` holds its first
`sib_len` bytes. -/
structure EmuMem where
  flashBase : ℕ
  nvmctrlBase : ℕ
  statusOffset : ℕ
  ctrlaOffset : ℕ
  fuseDataOffset : ℕ
  fuseAddrOffset : ℕ
  cmdWriteFuse : UInt8
  cmdChipErase : UInt8
  sib : List UInt8
  flash : ℕ → UInt8
  io : ℕ → UInt8
  cs : UInt8 → UInt8
  nvmKey : Bool
  eraseKey : Bool

/-- The target emulator, less its transmit log: `acc` holds its first
`acclen` bytes and `rx` the unread part of the receive ring. -/
structure UpdiEmu where
  mem : EmuMem
  state : DecoderState
  acc : List UInt8
  need : ℕ
  pendingCsAddr : UInt8
  curAddr : ℕ
  dataSize : ℕ
  ptr : ℕ
  repeatNext : ℕ
  incLeft : ℕ
  rx : List UInt8
  nowMs : UInt32

/-- When a target answers a store with an ACK, by the value of CTRLA:
for the addressed and byte-wise stores, and for each word of a block. -/
structure AckPolicy where
  store : UInt8 → Bool
  word : UInt8 → Bool
  store_ibdly : store ctrlaIbdly = true
  word_rsd : word (ctrlaIbdly ||| ctrlaRsd) = false

/-- The emulator acknowledges every store but the words of a block. -/
def AckPolicy.emulator : AckPolicy := ⟨fun _ ↦ true, fun _ ↦ false, rfl, rfl⟩

/-- A target that acknowledges stores exactly when CTRLA.RSD is clear. -/
def AckPolicy.rsd : AckPolicy :=
  ⟨fun ctrla ↦ ctrla &&& ctrlaRsd == 0, fun ctrla ↦ ctrla &&& ctrlaRsd == 0, rfl, rfl⟩

def leValue : List UInt8 → ℕ
  | [] => 0
  | b :: rest => b.toNat + 0x100 * leValue rest

namespace EmuMem

variable (m : EmuMem)

def InFlash (addr : ℕ) : Prop := m.flashBase ≤ addr ∧ addr < m.flashBase + emuFlashSize

def InIo (addr : ℕ) : Prop := emuIoBase ≤ addr ∧ addr < emuIoBase + emuIoSize

instance (addr : ℕ) : Decidable (m.InFlash addr) := by unfold InFlash; infer_instance
instance (addr : ℕ) : Decidable (InIo addr) := by unfold InIo; infer_instance

def memRead (addr : ℕ) : UInt8 :=
  if addr = m.nvmctrlBase + m.statusOffset then 0x00
  else if m.InFlash addr then m.flash (addr - m.flashBase)
  else if InIo addr then m.io (addr - emuIoBase)
  else 0x00

def setFlash (addr : ℕ) (val : UInt8) : EmuMem :=
  { m with flash := Function.update m.flash (addr - m.flashBase) val }

def setIo (addr : ℕ) (val : UInt8) : EmuMem :=
  if InIo addr then { m with io := Function.update m.io (addr - emuIoBase) val } else m

def eraseEffect (val : UInt8) : EmuMem :=
  if m.cmdChipErase ≠ 0x00 ∧ val = m.cmdChipErase then { m with flash := fun _ ↦ 0xFF } else m

def fuseEffect (val : UInt8) : EmuMem :=
  if m.cmdWriteFuse ≠ 0xFF ∧ val = m.cmdWriteFuse then
    m.setIo ((m.io m.fuseAddrOffset).toNat + 0x100 * (m.io (m.fuseAddrOffset + 1)).toNat)
      (m.io m.fuseDataOffset)
  else m

def memWrite (addr : ℕ) (val : UInt8) : EmuMem :=
  if m.InFlash addr then m.setFlash addr val
  else if addr = m.nvmctrlBase + m.ctrlaOffset then
    ((m.eraseEffect val).fuseEffect val).setIo addr val
  else m.setIo addr val

def writeAll : EmuMem → ℕ → List UInt8 → EmuMem
  | m, _, [] => m
  | m, addr, b :: rest => writeAll (m.memWrite addr b) (addr + 1) rest

def setCs (addr val : UInt8) : EmuMem := { m with cs := Function.update m.cs addr val }

def applyStcs (addr val : UInt8) : EmuMem :=
  let m := m.setCs (addr &&& 0x0F) val
  if addr = asiResetReq ∧ val = 0x00 then
    let m := if m.nvmKey then
        m.setCs asiSysStatus ((m.cs asiSysStatus ||| sysStatusNvmprog) &&& ~~~sysStatusLockstatus)
      else m
    if m.eraseKey then m.setCs asiSysStatus (m.cs asiSysStatus &&& ~~~sysStatusLockstatus) else m
  else m

def applyKey (k : List UInt8) : EmuMem :=
  if k = keyNvm then
    { m.setCs asiKeyStatus (m.cs asiKeyStatus ||| keyStatusNvmprog) with nvmKey := true }
  else if k = keyChiperase then
    { m.setCs asiKeyStatus (m.cs asiKeyStatus ||| keyStatusChiperase) with eraseKey := true }
  else m

end EmuMem

namespace UpdiEmu

variable (e : UpdiEmu)

def rxPush (b : UInt8) : UpdiEmu :=
  if e.rx.length + 1 = emuRxCap then e else { e with rx := e.rx ++ [b] }

def rxPushAll (l : List UInt8) : UpdiEmu := l.foldl rxPush e

/-- `rx_push(e, UPDI_PHY_ACK)` of a target with the given policy. -/
def pushAck (P : AckPolicy) : UpdiEmu := if P.store (e.mem.cs csCtrla) then e.rxPush phyAck else e

def ldLoop : ℕ → UpdiEmu → UpdiEmu
  | 0, e => e
  | n + 1, e => ldLoop n { e.rxPush (e.mem.memRead e.ptr) with ptr := (e.ptr + 1) % 2 ^ 32 }

def feedOpcode (op : UInt8) : UpdiEmu :=
  match (op >>> 5).toNat with
  | 4 => { e.rxPush (e.mem.cs (op &&& 0x0F)) with state := .idle }
  | 6 => { e with pendingCsAddr := op &&& 0x0F, state := .stcsVal }
  | 0 => { e with
      dataSize := if op &&& 0x01 ≠ 0 then 2 else 1
      need := if op &&& address24 ≠ 0 then 3 else 2
      acc := []
      state := .ldsAddr }
  | 2 => { e with
      dataSize := if op &&& 0x01 ≠ 0 then 2 else 1
      need := if op &&& address24 ≠ 0 then 3 else 2
      acc := []
      state := .stsAddr }
  | 3 =>
    if op &&& 0x0C = ptrAddress then
      { e with need := if op &&& 0x02 ≠ 0 then 3 else 2, acc := [], state := .stptrAddr }
    else if op &&& 0x0C = ptrInc then
      if op &&& 0x03 = data16 then
        { e with repeatNext := 0, incLeft := (e.repeatNext + 1) * 2, state := .stinc16 }
      else { e with repeatNext := 0, incLeft := e.repeatNext + 1, state := .stinc8 }
    else { e with state := .idle }
  | 1 =>
    if op &&& 0x0C = ptrInc then
      let per := if op &&& 0x03 = data16 then 2 else 1
      { ldLoop ((e.repeatNext + 1) * per) { e with repeatNext := 0 } with state := .idle }
    else { e with state := .idle }
  | 5 => { e with state := .repeatVal }
  | _ =>
    if op &&& keySib ≠ 0 then
      let n := if op &&& 0x03 = 2 then 32 else if op &&& 0x03 = 1 then 16 else 8
      { e.rxPushAll ((List.range n).map fun i ↦ e.mem.sib.getD i 0) with state := .idle }
    else { e with need := 8 <<< (op &&& 0x03).toNat, acc := [], state := .key }

def feedByte (P : AckPolicy) (b : UInt8) : UpdiEmu :=
  match e.state with
  | .idle => if b = phySync then { e with state := .opcode } else e
  | .opcode => e.feedOpcode b
  | .stcsVal => { e with mem := e.mem.applyStcs e.pendingCsAddr b, state := .idle }
  | .repeatVal => { e with repeatNext := b.toNat, state := .idle }
  | .ldsAddr =>
    let e := { e with acc := e.acc ++ [b] }
    if e.need ≤ e.acc.length then
      let addr := leValue e.acc
      { { e with curAddr := addr }.rxPushAll
          ((List.range e.dataSize).map fun i ↦ e.mem.memRead (addr + i)) with state := .idle }
    else e
  | .stsAddr =>
    let e := { e with acc := e.acc ++ [b] }
    if e.need ≤ e.acc.length then
      { { e with curAddr := leValue e.acc }.pushAck P with
        acc := [], need := e.dataSize, state := .stsData }
    else e
  | .stsData =>
    let e := { e with acc := e.acc ++ [b] }
    if e.need ≤ e.acc.length then
      { { e with mem := e.mem.writeAll e.curAddr e.acc }.pushAck P with state := .idle }
    else e
  | .stptrAddr =>
    let e := { e with acc := e.acc ++ [b] }
    if e.need ≤ e.acc.length then
      { { e with ptr := leValue e.acc }.pushAck P with state := .idle }
    else e
  | .stinc8 =>
    let e := { e with
      mem := e.mem.memWrite e.ptr b, ptr := (e.ptr + 1) % 2 ^ 32, incLeft :=
        e.incLeft - 1 }.pushAck P
    if e.incLeft = 0 then { e with state := .idle } else e
  | .stinc16 =>
    let e := { e with
      mem := e.mem.memWrite e.ptr b, ptr := (e.ptr + 1) % 2 ^ 32, incLeft := e.incLeft - 1 }
    let e := if e.incLeft % 2 = 0 ∧ P.word (e.mem.cs csCtrla) then e.rxPush phyAck else e
    if e.incLeft = 0 then { e with state := .idle } else e
  | .key =>
    let e := { e with acc := e.acc ++ [b] }
    if e.need ≤ e.acc.length then
      { e with
        mem := if e.need = 8 then e.mem.applyKey (e.acc.take e.need).reverse else e.mem
        state := .idle }
    else e

def feed (P : AckPolicy) (data : List UInt8) : UpdiEmu := data.foldl (feedByte · P ·) e

end UpdiEmu

/-- The transport vtable of the emulator. -/
def emuTransport (P : AckPolicy) : UpdiTransport UpdiEmu where
  send data e := (true, e.feed P data)
  recv len _ e := (e.rx.take len, { e with rx := e.rx.drop len })
  recv_length len _ e := List.length_take_le len e.rx
  doubleBreak := some fun e ↦ { e with state := .idle }
  millis := some fun e ↦ (e.nowMs + 1, { e with nowMs := e.nowMs + 1 })

namespace UpdiEmu

def init : UpdiEmu where
  mem := {
    flashBase := 0
    nvmctrlBase := 0
    statusOffset := 0
    ctrlaOffset := 0
    fuseDataOffset := 0
    fuseAddrOffset := 0
    cmdWriteFuse := 0xFF
    cmdChipErase := 0
    sib := []
    flash := fun _ ↦ 0xFF
    io := fun _ ↦ 0
    cs := Function.update (fun _ ↦ 0) csStatusa 0x30
    nvmKey := false
    eraseKey := false }
  state := .idle
  acc := []
  need := 0
  pendingCsAddr := 0
  curAddr := 0
  dataSize := 0
  ptr := 0
  repeatNext := 0
  incLeft := 0
  rx := []
  nowMs := 0

def sibOf (family : List UInt8) (nvmDigit : UInt8) : List UInt8 :=
  family.take 7 ++ List.replicate (7 - family.length) 0 ++
    [0x20, 0x50, 0x3A, nvmDigit, 0x44, 0x3A, 0x30, 0, 0]

def placeSig (sig : List UInt8) (io : ℕ → UInt8) : ℕ → UInt8 := fun i ↦
  if 0x1100 - emuIoBase ≤ i ∧ i < 0x1100 - emuIoBase + 3 then sig.getD (i - (0x1100 - emuIoBase)) 0
  else io i

def configP0 (e : UpdiEmu) (sig family : List UInt8) : UpdiEmu :=
  { e with mem := { e.mem with
    flashBase := 0x8000
    nvmctrlBase := 0x1000
    statusOffset := 0x02
    ctrlaOffset := 0x00
    fuseDataOffset := 0x06
    fuseAddrOffset := 0x08
    cmdWriteFuse := 0x07
    cmdChipErase := 0x05
    io := placeSig sig e.mem.io
    sib := sibOf family 0x30 } }

def configP3 (e : UpdiEmu) (sig family : List UInt8) : UpdiEmu :=
  { e with mem := { e.mem with
    flashBase := 0x800000
    nvmctrlBase := 0x1000
    statusOffset := 0x06
    ctrlaOffset := 0x00
    fuseDataOffset := 0x08
    fuseAddrOffset := 0x0C
    cmdWriteFuse := 0xFF
    cmdChipErase := 0x20
    io := placeSig sig e.mem.io
    sib := sibOf family 0x33 } }

end UpdiEmu

end UpdiProgrammer.HostTest

import UpdiProgrammer.Library.Program
import Mathlib.Data.Rat.Defs

namespace UpdiProgrammer.Reference

open Library.Program Prog

/-- What pymcuprog calls outside itself: an open port of pyserial, and `time.time()`. -/
structure SerialPort (σ : Type) where
  write : List UInt8 → σ → σ
  read : (size : ℕ) → σ → List UInt8 × σ
  time : σ → ℚ × σ

/-- The exceptions of the stack, and the `IndexError` of an empty response.
`unfinished` is none of them: a loop of the model was cut off. -/
inductive PymcuprogError
  | serialUpdi (msg : String)
  | protocol (msg : String)
  | nvmTimeout (msg : String)
  | nvm (msg : String) (code : ℕ)
  | locked (msg : String)
  | index
  | unfinished
  deriving DecidableEq, Repr

abbrev PyM (σ : Type) := Prog σ PymcuprogError

namespace Constants

abbrev updiLds : UInt8 := 0x00
abbrev updiSts : UInt8 := 0x40
abbrev updiLd : UInt8 := 0x20
abbrev updiSt : UInt8 := 0x60
abbrev updiLdcs : UInt8 := 0x80
abbrev updiStcs : UInt8 := 0xC0
abbrev updiRepeat : UInt8 := 0xA0
abbrev updiKey : UInt8 := 0xE0

abbrev ptrInc : UInt8 := 0x04
abbrev ptrAddress : UInt8 := 0x08
abbrev address16 : UInt8 := 0x04
abbrev address24 : UInt8 := 0x08
abbrev data8 : UInt8 := 0x00
abbrev data16 : UInt8 := 0x01
abbrev data24 : UInt8 := 0x02
abbrev keyKey : UInt8 := 0x00
abbrev key64 : UInt8 := 0x00
abbrev repeatByte : UInt8 := 0x00

abbrev phySync : UInt8 := 0x55
abbrev phyAck : UInt8 := 0x40

abbrev maxRepeatSize : ℕ := 0xFF + 1

abbrev csCtrla : UInt8 := 0x02
abbrev csCtrlb : UInt8 := 0x03
abbrev asiKeyStatus : UInt8 := 0x07
abbrev asiResetReq : UInt8 := 0x08
abbrev asiSysStatus : UInt8 := 0x0B

abbrev ctrlaIbdlyBit : UInt8 := 7
abbrev ctrlaRsdBit : UInt8 := 3
abbrev ctrlbCcdetdisBit : UInt8 := 3
abbrev ctrlbUpdidisBit : UInt8 := 2

def keyNvm : List UInt8 := [0x4E, 0x56, 0x4D, 0x50, 0x72, 0x6F, 0x67, 0x20]
def keyChiperase : List UInt8 := [0x4E, 0x56, 0x4D, 0x45, 0x72, 0x61, 0x73, 0x65]

abbrev keyStatusChiperase : UInt8 := 3
abbrev keyStatusNvmprog : UInt8 := 4
abbrev sysStatusNvmprog : UInt8 := 3
abbrev sysStatusLockstatus : UInt8 := 0

abbrev resetReqValue : UInt8 := 0x59

end Constants

open Constants

variable {σ : Type} (port : SerialPort σ)

structure Timeout where
  timeoutMs : ℕ
  startTime : ℚ

def time : PyM σ ℚ := fun s ↦ (.ok (port.time s).1, (port.time s).2)

def Timeout.start (timeoutMs : ℕ) : PyM σ Timeout := do
  let now ← time port
  pure ⟨timeoutMs, now⟩

def Timeout.expired (timeout : Timeout) : PyM σ Bool := do
  let now ← time port
  pure (decide ((timeout.timeoutMs : ℚ) / 1000 < now - timeout.startTime))

namespace UpdiPhysical

def read (size : ℕ) : PyM σ (List UInt8) := fun s ↦ (.ok (port.read size s).1, (port.read size s).2)

/-- What is written comes back as an echo, which is read and dropped. -/
def send (command : List UInt8) : PyM σ Unit := do
  Prog.modify (port.write command)
  let _ ← read port command.length

/-- Byte by byte, up to the first that does not come in time. -/
def receive : (size : ℕ) → PyM σ (List UInt8)
  | 0 => pure []
  | size + 1 => do
    match ← read port 1 with
    | character :: _ => do
      let response ← receive size
      pure (character :: response)
    | [] => pure []

end UpdiPhysical

open UpdiPhysical

inductive UpdiDatalink
  | bit16
  | bit24
  deriving DecidableEq, Repr

def byte0 (address : ℕ) : UInt8 := UInt8.ofNat (address &&& 0xFF)

def byte1 (address : ℕ) : UInt8 := UInt8.ofNat ((address >>> 8) &&& 0xFF)

def byte2 (address : ℕ) : UInt8 := UInt8.ofNat ((address >>> 16) &&& 0xFF)

namespace UpdiDatalink

def ldcs (address : UInt8) : PyM σ UInt8 := do
  send port [phySync, updiLdcs ||| (address &&& 0x0F)]
  let response ← receive port 1
  match response with
  | [value] => pure value
  | _ => fail (.protocol
    s!"Unexpected number of bytes in response: {response.length} byte(s), expected 1 byte(s)")

def stcs (address value : UInt8) : PyM σ Unit :=
  send port [phySync, updiStcs ||| (address &&& 0x0F), value]

def disableAck : PyM σ Unit := stcs port csCtrla (1 <<< ctrlaIbdlyBit ||| 1 <<< ctrlaRsdBit)

def enableAck : PyM σ Unit := stcs port csCtrla (1 <<< ctrlaIbdlyBit)

def ldPtrInc (size : ℕ) : PyM σ (List UInt8) := do
  send port [phySync, updiLd ||| ptrInc ||| data8]
  receive port size

def ldPtrInc16 (words : ℕ) : PyM σ (List UInt8) := do
  send port [phySync, updiLd ||| ptrInc ||| data16]
  receive port (words <<< 1)

/-- The check of an acknowledge that several methods make, with their message. -/
def checkAck (msg : String) : PyM σ Unit := do
  if (← receive port 1) = [phyAck] then pure () else fail (.protocol msg)

def stPtrIncRest : List UInt8 → PyM σ Unit
  | [] => pure ()
  | b :: data => do
    send port [b]
    checkAck port "Error with st_ptr_inc"
    stPtrIncRest data

def stPtrInc (data : List UInt8) : PyM σ Unit :=
  match data with
  | [] => fail .index
  | b :: data => do
    send port [phySync, updiSt ||| ptrInc ||| data8, b]
    checkAck port "ACK error with st_ptr_inc"
    stPtrIncRest port data

def stPtrInc16 (data : List UInt8) : PyM σ Unit :=
  match data with
  | [b₀, b₁] => do
    send port [phySync, updiSt ||| ptrInc ||| data16, b₀, b₁]
    checkAck port "ACK error with st_ptr_inc16"
  | _ => do
    disableAck port
    send port [phySync, updiSt ||| ptrInc ||| data16]
    send port data
    enableAck port

def repeats (count : ℤ) : PyM σ Unit :=
  if maxRepeatSize < count - 1 then fail (.protocol "Invalid repeat count!")
  else send port [phySync, updiRepeat ||| repeatByte, UInt8.ofInt (count - 1)]

def key (size : UInt8) (k : List UInt8) : PyM σ Unit :=
  if k.length ≠ 8 <<< size.toNat then fail (.protocol "Invalid KEY length!")
  else do
    send port [phySync, updiKey ||| keyKey ||| size]
    send port k.reverse

def stDataPhase (values : List UInt8) : PyM σ Unit := do
  checkAck port "Error with st"
  send port values
  checkAck port "Error with st"

variable (dl : UpdiDatalink)

def ld (address : ℕ) : PyM σ UInt8 := do
  match dl with
  | bit16 => send port [phySync, updiLds ||| address16 ||| data8, byte0 address, byte1 address]
  | bit24 => send port [phySync, updiLds ||| address24 ||| data8, byte0 address, byte1 address,
    byte2 address]
  match ← receive port 1 with
  | value :: _ => pure value
  | [] => fail .index

def st (address value : ℕ) : PyM σ Unit := do
  match dl with
  | bit16 => send port [phySync, updiSts ||| address16 ||| data8, byte0 address, byte1 address]
  | bit24 => send port [phySync, updiSts ||| address24 ||| data8, byte0 address, byte1 address,
    byte2 address]
  stDataPhase port [byte0 value]

def st16 (address value : ℕ) : PyM σ Unit := do
  match dl with
  | bit16 => send port [phySync, updiSts ||| address16 ||| data16, byte0 address, byte1 address]
  | bit24 => send port [phySync, updiSts ||| address24 ||| data16, byte0 address, byte1 address,
    byte2 address]
  stDataPhase port [byte0 value, byte1 value]

def stPtr (address : ℕ) : PyM σ Unit := do
  match dl with
  | bit16 => send port [phySync, updiSt ||| ptrAddress ||| data16, byte0 address, byte1 address]
  | bit24 => send port [phySync, updiSt ||| ptrAddress ||| data24, byte0 address, byte1 address,
    byte2 address]
  checkAck port "Error with st_ptr"

end UpdiDatalink

namespace UpdiReadWrite

def readCs (address : UInt8) : PyM σ UInt8 := UpdiDatalink.ldcs port address

def writeCs (address value : UInt8) : PyM σ Unit := UpdiDatalink.stcs port address value

def writeKey (size : UInt8) (k : List UInt8) : PyM σ Unit := UpdiDatalink.key port size k

variable (dl : UpdiDatalink)

def readByte (address : ℕ) : PyM σ UInt8 := dl.ld port address

def writeByte (address value : ℕ) : PyM σ Unit := dl.st port address value

def readData (address size : ℕ) : PyM σ (List UInt8) :=
  if maxRepeatSize < size then fail (.protocol s!"UPDI cannot read {size} bytes in one go")
  else do
    dl.stPtr port address
    if 1 < size then UpdiDatalink.repeats port size
    UpdiDatalink.ldPtrInc port size

def readDataWords (address words : ℕ) : PyM σ (List UInt8) :=
  if maxRepeatSize >>> 1 < words then fail (.protocol s!"UPDI cannot read {words} words in one go")
  else do
    dl.stPtr port address
    if 1 < words then UpdiDatalink.repeats port words
    UpdiDatalink.ldPtrInc16 port words

def writeDataWords (address : ℕ) (data : List UInt8) : PyM σ Unit :=
  match data with
  | [b₀, b₁] => dl.st16 port address (b₀.toNat + (b₁.toNat <<< 8))
  | _ =>
    if maxRepeatSize <<< 1 < data.length then
      fail (.protocol s!"UPDI cannot write {data.length} bytes in one go")
    else do
      dl.stPtr port address
      UpdiDatalink.repeats port (data.length >>> 1 : ℕ)
      UpdiDatalink.stPtrInc16 port data

theorem writeDataWords_block (address : ℕ) {data : List UInt8} (hlen : data.length ≠ 2) :
    writeDataWords port dl address data =
      if maxRepeatSize <<< 1 < data.length then
        fail (.protocol s!"UPDI cannot write {data.length} bytes in one go")
      else (do
        dl.stPtr port address
        UpdiDatalink.repeats port (data.length >>> 1 : ℕ)
        UpdiDatalink.stPtrInc16 port data) := by
  unfold writeDataWords
  split
  · exact absurd rfl hlen
  · rfl

/-- The chunk loop of `write_data`. Each turn takes at least one byte, so
`fuel = data.length` turns are enough. -/
def writeChunks : (fuel address : ℕ) → List UInt8 → PyM σ Unit
  | 0, _, _ => pure ()
  | fuel + 1, address, data =>
    if data.length = 0 then pure ()
    else do
      let chunkSize := if maxRepeatSize < data.length then maxRepeatSize else data.length
      dl.stPtr port address
      UpdiDatalink.repeats port chunkSize
      UpdiDatalink.stPtrInc port (data.take chunkSize)
      writeChunks fuel (address + chunkSize) (data.drop chunkSize)

def writeData (address : ℕ) (data : List UInt8) : PyM σ Unit :=
  match data with
  | [b] => dl.st port address b.toNat
  | [b₀, b₁] => do
    dl.st port address b₀.toNat
    dl.st port (address + 1) b₁.toNat
  | _ => writeChunks port dl data.length address data

end UpdiReadWrite

end UpdiProgrammer.Reference

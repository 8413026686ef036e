import UpdiProgrammer.Library.Program
import UpdiProgrammer.Updi.Constants
import UpdiProgrammer.Updi.Transport

namespace UpdiProgrammer.Updi

open Library.Program Prog

/-- The status codes of the stack other than `UpdiOk`, which is a normal
return here. -/
inductive UpdiErr
  | timeout
  | nack
  | protocol
  | param
  | verify
  | nvm
  | locked
  | unsupported
  | transport
  deriving DecidableEq, Repr

abbrev UpdiStatus := Except UpdiErr Unit

/-- The link without its transport pointer, which every function of the
layer dereferences and takes as its first argument here. -/
structure UpdiLink where
  addressBytes : ℕ
  timeoutMs : ℕ
  ackEnabled : Bool
  deriving DecidableEq, Repr

/-- A link and the context behind its transport. -/
structure LinkState (σ : Type) where
  link : UpdiLink
  ctx : σ

abbrev LinkM (σ : Type) := Prog (LinkState σ) UpdiErr

namespace UpdiLink

variable {σ : Type} (t : UpdiTransport σ)

def init : UpdiLink := ⟨2, 300, true⟩

def setAddressSize (addressBytes : ℕ) (l : UpdiLink) : UpdiLink :=
  { l with addressBytes := if addressBytes = 3 then 3 else 2 }

def sendRaw (data : List UInt8) : LinkM σ Bool := fun s ↦
  (.ok (t.send data s.ctx).1, { s with ctx := (t.send data s.ctx).2 })

def recvRaw (len : ℕ) : LinkM σ (List UInt8) := fun s ↦
  (.ok (t.recv len s.link.timeoutMs s.ctx).1,
    { s with ctx := (t.recv len s.link.timeoutMs s.ctx).2 })

def send (data : List UInt8) : LinkM σ Unit := do
  if ← sendRaw t data then pure () else fail .transport

def recvByte : LinkM σ UInt8 := do
  match ← recvRaw t 1 with
  | [resp] => pure resp
  | _ => fail .timeout

def recvAck : LinkM σ Unit := do
  if (← recvRaw t 1) = [phyAck] then pure () else fail .nack

def recvAll (len : ℕ) : LinkM σ (List UInt8) := do
  let buf ← recvRaw t len
  if buf.length = len then pure buf else fail .timeout

def addr24 : LinkM σ Bool := Prog.read fun s ↦ s.link.addressBytes == 3

/-- The 2 or 3 bytes of an address, least significant first. Only the low
24 bits of the address reach the wire. -/
def putAddress (addr24 : Bool) (address : ℕ) : List UInt8 :=
  [UInt8.ofNat address, UInt8.ofNat (address / 0x100)] ++
    if addr24 then [UInt8.ofNat (address / 0x10000)] else []

def ldcs (address : UInt8) : LinkM σ UInt8 := do
  send t [phySync, updiLdcs ||| (address &&& 0x0F)]
  recvByte t

def stcs (address value : UInt8) : LinkM σ Unit :=
  send t [phySync, updiStcs ||| (address &&& 0x0F), value]

def setAckEnabled (b : Bool) : LinkM σ Unit :=
  Prog.modify fun s ↦ { s with link := { s.link with ackEnabled := b } }

def enableAck : LinkM σ Unit := do
  stcs t csCtrla ctrlaIbdly
  setAckEnabled true

def disableAck : LinkM σ Unit := do
  stcs t csCtrla (ctrlaIbdly ||| ctrlaRsd)
  setAckEnabled false

def doubleBreak : LinkM σ Unit := fun s ↦
  (.ok (), ⟨{ s.link with ackEnabled := true },
    match t.doubleBreak with
    | some f => f s.ctx
    | none => s.ctx⟩)

def millis : LinkM σ UInt32 := fun s ↦
  match t.millis with
  | some f => (.ok (f s.ctx).1, { s with ctx := (f s.ctx).2 })
  | none => (.ok 0, s)

def initSessionParams : LinkM σ Unit := do
  stcs t csCtrlb ctrlbCcdetdis
  enableAck t

def checkDatalink : LinkM σ Bool := do
  match ← attempt (ldcs t csStatusa) with
  | .ok statusa => pure (statusa != 0)
  | .error _ => pure false

def activate : LinkM σ Unit := do
  let _ ← sendRaw t [updiBreak]
  let _ ← attempt (initSessionParams t)
  if ← checkDatalink t then pure () else do
    doubleBreak t
    let _ ← attempt (initSessionParams t)
    if ← checkDatalink t then pure () else fail .timeout

def ldByte (address : ℕ) : LinkM σ UInt8 := do
  let a24 ← addr24
  send t ([phySync, updiLds ||| (if a24 then address24 else address16) ||| data8] ++
    putAddress a24 address)
  recvByte t

def stDataPhase (values : List UInt8) : LinkM σ Unit := do
  recvAck t
  send t values
  recvAck t

def stByte (address : ℕ) (value : UInt8) : LinkM σ Unit := do
  let a24 ← addr24
  send t ([phySync, updiSts ||| (if a24 then address24 else address16) ||| data8] ++
    putAddress a24 address)
  stDataPhase t [value]

def st16 (address : ℕ) (value : UInt16) : LinkM σ Unit := do
  let a24 ← addr24
  send t ([phySync, updiSts ||| (if a24 then address24 else address16) ||| data16] ++
    putAddress a24 address)
  stDataPhase t [value.toUInt8, (value >>> 8).toUInt8]

def stPtr (address : ℕ) : LinkM σ Unit := do
  let a24 ← addr24
  send t ([phySync, updiSt ||| ptrAddress ||| (if a24 then data24 else data16)] ++
    putAddress a24 address)
  recvAck t

def ldPtrInc (size : ℕ) : LinkM σ (List UInt8) := do
  send t [phySync, updiLd ||| ptrInc ||| data8]
  recvAll t size

def ldPtrInc16 (words : ℕ) : LinkM σ (List UInt8) := do
  send t [phySync, updiLd ||| ptrInc ||| data16]
  recvAll t (2 * words)

def streamBytes : List UInt8 → LinkM σ Unit
  | [] => pure ()
  | b :: rest => do
    send t [b]
    recvAck t
    streamBytes rest

def stPtrInc : List UInt8 → LinkM σ Unit
  | [] => fail .param
  | b :: rest => do
    send t [phySync, updiSt ||| ptrInc ||| data8, b]
    recvAck t
    streamBytes t rest

def stPtrInc16Block (data : List UInt8) : LinkM σ Unit := do
  disableAck t
  send t [phySync, updiSt ||| ptrInc ||| data16]
  send t data
  enableAck t

def repeatCount (count : ℕ) : LinkM σ Unit :=
  if count < 1 ∨ maxRepeatSize < count then fail .param
  else send t [phySync, updiRepeat ||| repeatByte, UInt8.ofNat (count - 1)]

def sendKey (sizeIdx : UInt8) (k : List UInt8) : LinkM σ Unit :=
  if k.length ≠ 8 <<< sizeIdx.toNat then fail .param
  else if 32 < k.length then fail .param
  else do
    send t [phySync, updiKey ||| keyKey ||| sizeIdx]
    send t k.reverse

def sibSelector (size : ℕ) : UInt8 :=
  if 32 ≤ size then sib32Bytes else if 16 ≤ size then sib16Bytes else sib8Bytes

def readSib (size : ℕ) : LinkM σ (List UInt8) := do
  send t [phySync, updiKey ||| keySib ||| sibSelector size]
  let buf ← recvRaw t size
  if 0 < buf.length then pure buf else fail .timeout

def readData (address size : ℕ) : LinkM σ (List UInt8) :=
  if maxRepeatSize < size then fail .param
  else do
    stPtr t address
    if 1 < size then repeatCount t size
    ldPtrInc t size

def readDataWords (address words : ℕ) : LinkM σ (List UInt8) :=
  if maxRepeatSize / 2 < words then fail .param
  else do
    stPtr t address
    if 1 < words then repeatCount t words
    ldPtrInc16 t words

def writeDataWords (address : ℕ) (data : List UInt8) : LinkM σ Unit :=
  if data.length = 0 ∨ data.length % 2 = 1 then fail .param
  else match data with
    | [lo, hi] => st16 t address (lo.toUInt16 ||| (hi.toUInt16 <<< 8))
    | _ =>
      if maxRepeatSize * 2 < data.length then fail .param
      else do
        stPtr t address
        repeatCount t (data.length / 2)
        stPtrInc16Block t data

/-- The chunk loop of `updi_link_write_data`. Each turn takes at least one
byte, so `fuel = data.length` turns are enough. -/
def writeChunks : (fuel address : ℕ) → List UInt8 → LinkM σ Unit
  | 0, _, _ => pure ()
  | fuel + 1, address, data =>
    if data.length = 0 then pure ()
    else do
      let chunk := min data.length maxRepeatSize
      stPtr t address
      repeatCount t chunk
      stPtrInc t (data.take chunk)
      writeChunks fuel (address + chunk) (data.drop chunk)

def writeData (address : ℕ) (data : List UInt8) : LinkM σ Unit :=
  match data with
  | [] => fail .param
  | [b] => stByte t address b
  | [b₀, b₁] => do
    stByte t address b₀
    stByte t (address + 1) b₁
  | _ => writeChunks t data.length address data

end UpdiLink

end UpdiProgrammer.Updi

import UpdiProgrammer.Updi.Nvm

namespace UpdiProgrammer.Updi

open Library.Program Prog

structure UpdiSession where
  link : UpdiLink
  nvmDevice : Option UpdiDevice
  device : Option UpdiDevice
  sib : UpdiSibInfo
  sig : List UInt8
  connected : Bool
  deriving DecidableEq, Repr

structure SessionState (σ : Type) where
  session : UpdiSession
  ctx : σ

/-- How a call ends other than in `UpdiOk`: with a status, or with the use
of a null pointer, which C leaves undefined. -/
inductive Halt
  | status (e : UpdiErr)
  | nullDevice
  | nullTransport
  deriving DecidableEq, Repr

abbrev SessionM (σ : Type) := Prog (SessionState σ) Halt

structure UpdiVerifyMismatch where
  offset : ℕ
  expected : UInt8
  actual : UInt8
  deriving DecidableEq, Repr

namespace UpdiSession

variable {σ : Type} (t : UpdiTransport σ)

def maxPage : ℕ := 256
def readChunk : ℕ := 256

def init : UpdiSession where
  link := UpdiLink.init
  nvmDevice := none
  device := none
  sib := ⟨[], 0⟩
  sig := [0, 0, 0]
  connected := false

def onLink {α : Type} (m : LinkM σ α) : SessionM σ α :=
  zoom (fun s ↦ ⟨s.session.link, s.ctx⟩)
    (fun l s ↦ { s with session := { s.session with link := l.link }, ctx := l.ctx }) .status m

theorem onLink_ok {α : Type} {m : LinkM σ α} {a : α} {s : SessionState σ} {l : LinkState σ}
    (h : m ⟨s.session.link, s.ctx⟩ = (.ok a, l)) :
    onLink m s = (.ok a, ⟨{ s.session with link := l.link }, l.ctx⟩) := by
  rw [onLink, zoom_run, h]
  rfl

def update (f : UpdiSession → UpdiSession) : SessionM σ Unit :=
  Prog.modify fun s ↦ { s with session := f s.session }

theorem update_run (f : UpdiSession → UpdiSession) (s : SessionState σ) :
    update f s = (.ok (), ⟨f s.session, s.ctx⟩) := rfl

theorem update_bind_run {α : Type} (f : UpdiSession → UpdiSession) (k : Unit → SessionM σ α)
    (s : SessionState σ) :
    (update f >>= k) s = k () ⟨f s.session, s.ctx⟩ := rfl

/-- Read `s->nvm.device`, which must not be null. -/
def boundDevice : SessionM σ UpdiDevice := fun s ↦
  match s.session.nvmDevice with
  | some d => (.ok d, s)
  | none => (.error .nullDevice, s)

def connect : SessionM σ Unit := do
  update fun s ↦ { s with connected := false, device := none }
  onLink (UpdiLink.activate t)
  let sib ← onLink (UpdiNvm.readSibInfo t)
  update fun s ↦ { s with sib := sib }
  update fun s ↦ { s with link := s.link.setAddressSize (if s.sib.nvmVersion = 0 then 2 else 3) }
  update fun s ↦ { s with nvmDevice := none }
  onLink (UpdiNvm.enterProgmode t)
  let sig ← onLink (UpdiNvm.readSignature t none)
  update fun s ↦ { s with sig := sig }
  match UpdiDevice.findById (UpdiDevice.idFromSig sig) with
  | none => fail (.status .unsupported)
  | some d => update fun s ↦ { s with nvmDevice := some d, device := some d, connected := true }

def unlock : SessionM σ Unit := onLink (UpdiNvm.unlock t)

def disconnect : SessionM σ Unit := do
  let _ ← attempt (onLink (UpdiNvm.leaveProgmode t))
  update fun s ↦ { s with connected := false }

/-- `if(!s->connected || !s->device) return UpdiErrParam;` -/
def connectedDevice : SessionM σ UpdiDevice := fun s ↦
  match s.session.connected, s.session.device with
  | true, some d => (.ok d, s)
  | _, _ => (.error (.status .param), s)

def chipErase : SessionM σ Unit := do
  let device ← Prog.read fun s : SessionState σ ↦ s.session.device
  if device.isNone then fail (.status .param)
  else do
    let d ← boundDevice
    onLink (UpdiNvm.chipErase t d)

def allFf (p : List UInt8) : Bool := p.all (· == 0xFF)

def padPage (page : ℕ) (chunk : List UInt8) : List UInt8 :=
  chunk ++ List.replicate (page - chunk.length) 0xFF

/-- The page loop of `updi_session_write_flash` from the offset where
`data` starts. A page has at least one byte, so `fuel = data.length` turns
are enough. -/
def writePages (d : UpdiDevice) (page : ℕ) : (fuel address : ℕ) → List UInt8 → LinkM σ Unit
  | 0, _, _ => pure ()
  | fuel + 1, address, data =>
    if data.length = 0 then pure ()
    else do
      let pagebuf := padPage page (data.take page)
      if !allFf pagebuf then UpdiNvm.writeFlashPage t d address pagebuf
      writePages d page fuel (address + page) (data.drop page)

def writeFlash (data : List UInt8) : SessionM σ Unit := do
  let dev ← connectedDevice
  let page := dev.flashPageSize
  if page = 0 ∨ maxPage < page then fail (.status .param)
  else do
    let d ← boundDevice
    onLink (writePages t d page data.length dev.flashAddress data)

/-- The first index at which two lists differ, with the two bytes there. -/
def firstDifference : (off : ℕ) → (data rb : List UInt8) → Option UpdiVerifyMismatch
  | off, expected :: data, actual :: rb =>
    if actual ≠ expected then some ⟨off, expected, actual⟩ else firstDifference (off + 1) data rb
  | _, _, _ => none

/-- The chunk loop of `updi_session_verify_flash`. A mismatch is the
return of `UpdiErrVerify`, with the details it stores. -/
def verifyChunks (flashAddress : ℕ) :
    (fuel off : ℕ) → List UInt8 → LinkM σ (Option UpdiVerifyMismatch)
  | 0, _, _ => pure none
  | fuel + 1, off, data =>
    if data.length = 0 then pure none
    else do
      let chunk := min data.length readChunk
      let rb ← UpdiNvm.read t (flashAddress + off) chunk
      match firstDifference off data rb with
      | some m => pure (some m)
      | none => verifyChunks flashAddress fuel (off + chunk) (data.drop chunk)

def verifyFlash (data : List UInt8) : SessionM σ (Option UpdiVerifyMismatch) := do
  let dev ← connectedDevice
  onLink (verifyChunks t dev.flashAddress data.length 0 data)

def readFlashChunks : (fuel address len : ℕ) → LinkM σ (List UInt8)
  | 0, _, _ => pure []
  | fuel + 1, address, len =>
    if len = 0 then pure []
    else do
      let chunk := min len readChunk
      let bytes ← UpdiNvm.read t address chunk
      let rest ← readFlashChunks fuel (address + chunk) (len - chunk)
      pure (bytes ++ rest)

def readFlash (len : ℕ) : SessionM σ (List UInt8) := do
  let dev ← connectedDevice
  onLink (readFlashChunks t len dev.flashAddress len)

def readFuseLoop (d : UpdiDevice) : (n i : ℕ) → LinkM σ (List UInt8)
  | 0, _ => pure []
  | n + 1, i => do
    let b ← UpdiNvm.readFuse t d (UInt8.ofNat i)
    let rest ← readFuseLoop d n (i + 1)
    pure (b :: rest)

def readFuses (count : ℕ) : SessionM σ (List UInt8) := do
  let dev ← connectedDevice
  let count := if dev.fusesSize < count then dev.fusesSize else count
  let d ← boundDevice
  onLink (readFuseLoop t d count 0)

def writeFuse (index value : UInt8) : SessionM σ Unit := do
  let _ ← connectedDevice
  let d ← boundDevice
  onLink (UpdiNvm.writeFuse t d index value)

end UpdiSession

end UpdiProgrammer.Updi

import UpdiProgrammer.Updi.Session
import UpdiProgrammer.Hex.IntelHex

namespace UpdiProgrammer.Ui

open Updi Hex Library.Program Prog

inductive UpdiOp
  | connect
  | chipErase
  | flash
  | verify
  | dump
  | readFuses
  deriving DecidableEq, Repr

/-- What the system around the worker answers during one operation: whether
the serial port can be acquired, whether the image buffer can be allocated,
the HEX file as the storage layer hands it out, whether the dump file can
be created, and how much of the `n`-th line of a dump gets written. -/
structure Env where
  acquire : Bool
  malloc : Bool
  hexFile : Option (List (List UInt8))
  dumpOpens : Bool
  storageWrite : ℕ → List UInt8 → ℕ

/-- The worker's part of the app. `transport` says whether the transport has
its serial handle, once there is one, and `linkTransport` whether the
transport pointer of the session's link is set. -/
structure UpdiApp where
  transport : Option Bool
  linkTransport : Bool
  session : UpdiSession
  haveDevice : Bool
  verifyMismatch : Option UpdiVerifyMismatch
  fuses : List UInt8
  dumpFile : List UInt8
  deriving DecidableEq, Repr

/-- A freshly allocated app is zeroed. -/
def UpdiApp.alloc : UpdiApp where
  transport := none
  linkTransport := false
  session := ⟨⟨0, 0, false⟩, none, none, ⟨[], 0⟩, [0, 0, 0], false⟩
  haveDevice := false
  verifyMismatch := none
  fuses := []
  dumpFile := []

structure WorkerState (σ : Type) where
  app : UpdiApp
  ctx : σ

abbrev WorkerM (σ : Type) := Prog (WorkerState σ) Halt

def hexLineMax : ℕ := 300

/-- The line reader of `parse_hex_file`: the image, the first `llen` bytes of
the line, and the error flag. -/
structure HexReader where
  img : IntelHexImage
  line : List UInt8
  parseError : Bool

def HexReader.endLine (r : HexReader) : HexReader :=
  if r.line.length = 0 then r
  else
    let (status, img) := r.img.parseLine 32 r.line
    if status ≠ .ok then { r with img := img, parseError := true }
    else { r with img := img, line := [] }

def HexReader.char (r : HexReader) (c : UInt8) : HexReader :=
  if r.parseError then r
  else if c = 0x0A then r.endLine
  else if c ≠ 0x0D ∧ r.line.length < hexLineMax - 1 then { r with line := r.line ++ [c] }
  else r

/-- The read loop of `parse_hex_file`, which an empty read or a parse error ends. -/
def HexReader.chunks : List (List UInt8) → HexReader → HexReader
  | [], r => r
  | chunk :: rest, r =>
    if chunk.length = 0 then r
    else
      let r := chunk.foldl HexReader.char r
      if r.parseError then r else chunks rest r

def parseHexFile (file : Option (List (List UInt8))) (img : IntelHexImage) :
    UpdiStatus × IntelHexImage :=
  match file with
  | none => (.error .param, img)
  | some chunks =>
    let r := HexReader.chunks chunks ⟨img, [], false⟩
    let r := if r.parseError then r else r.endLine
    if r.parseError ∨ !r.img.any then (.error .param, r.img) else (.ok (), r.img)

structure HexFileSink where
  file : List UInt8
  calls : ℕ
  ok : Bool

def hexFileSink (storageWrite : ℕ → List UInt8 → ℕ) : IntelHexWriteFn HexFileSink := fun str s ↦
  if !s.ok then (false, s)
  else
    let written := min (storageWrite s.calls str) str.length
    let ok := written == str.length
    (ok, ⟨s.file ++ str.take written, s.calls + 1, ok⟩)

namespace Worker

variable {σ : Type} (t : UpdiTransport σ) (env : Env)

/-- Call a function of the session, which goes through the transport pointer. -/
def onSession {α : Type} (m : SessionM σ α) : WorkerM σ α := fun s ↦
  if s.app.linkTransport then
    zoom (fun s : WorkerState σ ↦ ⟨s.app.session, s.ctx⟩)
      (fun u s ↦ { s with app := { s.app with session := u.session }, ctx := u.ctx }) id m s
  else (.error .nullTransport, s)

def updateApp (f : UpdiApp → UpdiApp) : WorkerM σ Unit :=
  Prog.modify fun s ↦ { s with app := f s.app }

def ensureTransport : WorkerM σ Unit := do
  let transport ← Prog.read fun s : WorkerState σ ↦ s.app.transport
  if transport.isNone then
    updateApp fun a ↦ { a with transport := some env.acquire }
    if !env.acquire then fail (.status .transport)
    else updateApp fun a ↦ { a with linkTransport := true, session := UpdiSession.init }
  else pure ()

/-- `updi_session_connect`, and once more after an unlock if that is allowed
and the part turns out to be locked. -/
def connectSession (allowErase : Bool) : WorkerM σ Unit := do
  match ← attempt (onSession (UpdiSession.connect t)) with
  | .error (.status .locked) =>
    if allowErase then
      onSession (UpdiSession.unlock t)
      onSession (UpdiSession.connect t)
    else fail (.status .locked)
  | r => ofStatus r

def doConnect (allowErase : Bool) : WorkerM σ Unit := do
  ensureTransport env
  connectSession t allowErase
  updateApp fun a ↦ { a with haveDevice := true }

def sessionDevice : WorkerM σ UpdiDevice := fun s ↦
  match s.app.session.device with
  | some d => (.ok d, s)
  | none => (.error .nullDevice, s)

/-- Read the HEX file into a fresh image of the size of the flash. -/
def readImage (d : UpdiDevice) : WorkerM σ (List UInt8) :=
  if !env.malloc then fail (.status .param)
  else
    match parseHexFile env.hexFile (IntelHexImage.init (fun _ ↦ 0xFF) d.flashSize 0 0xFF) with
    | (.error e, _) => fail (.status e)
    | (.ok _, img) => pure ((List.range img.maxOffset).map img.data)

/-- `updi_session_verify_flash` with the mismatch kept in the app. -/
def verifyImage (image : List UInt8) : WorkerM σ Unit := do
  match ← onSession (UpdiSession.verifyFlash t image) with
  | none => pure ()
  | some m => do
    updateApp fun a ↦ { a with verifyMismatch := some m }
    fail (.status .verify)

def opFlash : WorkerM σ Unit := do
  doConnect t env true
  let dev ← sessionDevice
  let image ← readImage env dev
  onSession (UpdiSession.chipErase t)
  onSession (UpdiSession.writeFlash t image)
  let st ← attempt (verifyImage t image)
  onSession (UpdiSession.disconnect t)
  ofStatus st

def opVerify : WorkerM σ Unit := do
  doConnect t env false
  let dev ← sessionDevice
  let image ← readImage env dev
  let st ← attempt (verifyImage t image)
  onSession (UpdiSession.disconnect t)
  ofStatus st

def opDump : WorkerM σ Unit := do
  doConnect t env false
  let dev ← sessionDevice
  if !env.malloc then fail (.status .param)
  else do
    let buf ← onSession (UpdiSession.readFlash t dev.flashSize)
    if !env.dumpOpens then fail (.status .param)
    else do
      let (hs, sink) := Hex.write buf 0 32 (hexFileSink env.storageWrite) ⟨[], 0, true⟩
      updateApp fun a ↦ { a with dumpFile := sink.file }
      onSession (UpdiSession.disconnect t)
      if hs = .ok ∧ sink.ok then pure () else fail (.status .param)

def opChipErase : WorkerM σ Unit := do
  doConnect t env true
  let st ← attempt (onSession (UpdiSession.chipErase t))
  onSession (UpdiSession.disconnect t)
  ofStatus st

def opConnect : WorkerM σ Unit := do
  doConnect t env false
  onSession (UpdiSession.disconnect t)

/-- The number of fuse bytes the app keeps. -/
def fusesMax : ℕ := 16

def opReadFuses : WorkerM σ Unit := do
  doConnect t env false
  let dev ← sessionDevice
  let st ← attempt (onSession (UpdiSession.readFuses t
    (if dev.fusesSize < fusesMax then dev.fusesSize else fusesMax)))
  updateApp fun a ↦ { a with fuses := match st with | .ok l => l | .error _ => a.fuses }
  onSession (UpdiSession.disconnect t)
  ofStatus (st.map fun _ ↦ ())

def runOp : UpdiOp → WorkerM σ Unit
  | .connect => opConnect t env
  | .chipErase => opChipErase t env
  | .flash => opFlash t env
  | .verify => opVerify t env
  | .dump => opDump t env
  | .readFuses => opReadFuses t env

def runOps (ops : List (UpdiOp × Env)) (s : WorkerState σ) : WorkerState σ :=
  ops.foldl (fun s op ↦ (runOp t op.2 op.1 s).2) s

end Worker

end UpdiProgrammer.Ui

import UpdiProgrammer.Ui.WorkerSeam
import UpdiProgrammer.Ui.Programmer

namespace UpdiProgrammer.Updi

open Library.Program Prog

variable {σ ρ α : Type}

/-- The same transport, with something beside its context that it does not touch. -/
def UpdiTransport.beside (t : UpdiTransport σ) (ρ : Type) : UpdiTransport (σ × ρ) where
  send data c := ((t.send data c.1).1, ((t.send data c.1).2, c.2))
  recv len timeoutMs c := ((t.recv len timeoutMs c.1).1, ((t.recv len timeoutMs c.1).2, c.2))
  recv_length len timeoutMs c := t.recv_length len timeoutMs c.1
  doubleBreak := t.doubleBreak.map fun f c ↦ (f c.1, c.2)
  millis := t.millis.map fun f c ↦ ((f c.1).1, ((f c.1).2, c.2))

def Beside (r : ρ) (c : σ) (c' : σ × ρ) : Prop := c' = (c, r)

theorem UpdiTransport.alike_beside (t : UpdiTransport σ) (r : ρ) :
    t.Alike (Beside r) (t.beside ρ) where
  send data c c' hR := by
    subst hR
    exact ⟨rfl, rfl⟩
  recv len timeoutMs c c' hR := by
    subst hR
    exact ⟨rfl, rfl⟩
  broken c c' hR := by
    subst hR
    unfold UpdiTransport.broken UpdiTransport.beside
    cases t.doubleBreak <;> rfl
  clocked c c' hR := by
    subst hR
    unfold UpdiTransport.clocked UpdiTransport.beside
    cases t.millis <;> exact ⟨rfl, rfl⟩

/-- A progress callback, which has its own context beside that of the transport. -/
abbrev UpdiProgressCb (σ : Type) := (done total : ℕ) → σ → σ

namespace UpdiSession

variable (t : UpdiTransport σ) (cb : UpdiProgressCb σ)

def callBack (done total : ℕ) : LinkM σ Unit :=
  Prog.modify fun s ↦ { s with ctx := cb done total s.ctx }

/-- The page loop of `updi_session_write_flash` with its callback; `len` is the
length of the whole image. -/
def writePagesCb (d : UpdiDevice) (page flashAddress len : ℕ) :
    (fuel off : ℕ) → List UInt8 → LinkM σ Unit
  | 0, _, _ => pure ()
  | fuel + 1, off, data =>
    if data.length = 0 then pure ()
    else do
      let chunk := min data.length page
      let pagebuf := padPage page (data.take page)
      if !allFf pagebuf then UpdiNvm.writeFlashPage t d (flashAddress + off) pagebuf
      callBack cb (off + chunk) len
      writePagesCb d page flashAddress len fuel (off + page) (data.drop page)

def writeFlashCb (data : List UInt8) : SessionM σ Unit := do
  let dev ← connectedDevice
  let page := dev.flashPageSize
  if page = 0 ∨ maxPage < page then fail (.status .param)
  else do
    let d ← boundDevice
    onLink (writePagesCb t cb d page dev.flashAddress data.length data.length 0 data)

def verifyChunksCb (flashAddress len : ℕ) :
    (fuel off : ℕ) → List UInt8 → LinkM σ (Option UpdiVerifyMismatch)
  | 0, _, _ => pure none
  | fuel + 1, off, data =>
    if data.length = 0 then pure none
    else do
      let chunk := min data.length readChunk
      let rb ← UpdiNvm.read t (flashAddress + off) chunk
      match firstDifference off data rb with
      | some m => pure (some m)
      | none => do
        callBack cb (off + chunk) len
        verifyChunksCb flashAddress len fuel (off + chunk) (data.drop chunk)

def verifyFlashCb (data : List UInt8) : SessionM σ (Option UpdiVerifyMismatch) := do
  let dev ← connectedDevice
  onLink (verifyChunksCb t cb dev.flashAddress data.length data.length 0 data)

/-- The loop of `updi_session_read_flash` with `left` bytes to go. -/
def readFlashChunksCb (flashAddress len : ℕ) : (fuel off left : ℕ) → LinkM σ (List UInt8)
  | 0, _, _ => pure []
  | fuel + 1, off, left =>
    if left = 0 then pure []
    else do
      let chunk := min left readChunk
      let bytes ← UpdiNvm.read t (flashAddress + off) chunk
      callBack cb (off + chunk) len
      let rest ← readFlashChunksCb flashAddress len fuel (off + chunk) (left - chunk)
      pure (bytes ++ rest)

def readFlashCb (len : ℕ) : SessionM σ (List UInt8) := do
  let dev ← connectedDevice
  onLink (readFlashChunksCb t cb dev.flashAddress len len 0 len)

end UpdiSession

end UpdiProgrammer.Updi

namespace UpdiProgrammer.Ui

open Updi Hex Library.Program Prog

inductive UpdiPhase
  | connecting
  | readingFile
  | erasing
  | writing
  | verifying
  | reading
  | done
  deriving DecidableEq, Repr

/-- The fields behind the lock that the progress screen reads. -/
structure Progress where
  phase : UpdiPhase
  progDone : ℕ
  progTotal : ℕ
  deriving DecidableEq, Repr

def Progress.start : Progress := ⟨.connecting, 0, 0⟩

/-- The fields after all that was written to them, oldest first. -/
def current (log : List Progress) : Progress := log.getLastD .start

def phaseName : UpdiPhase → String
  | .connecting => "Connecting"
  | .readingFile => "Reading file"
  | .erasing => "Erasing"
  | .writing => "Writing"
  | .verifying => "Verifying"
  | .reading => "Reading"
  | .done => "Done"

/-- The percentage of the popup, in the 32 bits of a `size_t` of the device. -/
def Progress.percent (p : Progress) : ℕ := p.progDone * 100 % 2 ^ 32 / p.progTotal

/-- What a tick writes into the popup's buffer of 48 bytes. -/
def Progress.popupText (p : Progress) : String :=
  if 0 < p.progTotal then phaseName p.phase ++ "\n" ++ toString p.percent ++ "%" else
    phaseName p.phase ++ "..."

namespace Worker

variable {σ : Type} (t : UpdiTransport σ) (env : Env)

def setPhase (phase : UpdiPhase) (done total : ℕ) : WorkerM (σ × List Progress) Unit :=
  Prog.modify fun s ↦ { s with ctx := (s.ctx.1, s.ctx.2 ++ [⟨phase, done, total⟩]) }

/-- The callback of the worker, which leaves the phase alone. -/
def workerProgress : UpdiProgressCb (σ × List Progress) := fun done total c ↦
  (c.1, c.2 ++ [{ current c.2 with progDone := done, progTotal := total }])

def verifyImageCb (image : List UInt8) : WorkerM (σ × List Progress) Unit := do
  match ← onSession (UpdiSession.verifyFlashCb (t.beside _) workerProgress image) with
  | none => pure ()
  | some m => do
    updateApp fun a ↦ { a with verifyMismatch := some m }
    fail (.status .verify)

def opFlashCb : WorkerM (σ × List Progress) Unit := do
  setPhase .connecting 0 0
  doConnect (t.beside _) env true
  let dev ← sessionDevice
  if !env.malloc then fail (.status .param)
  else do
    setPhase .readingFile 0 0
    let image ← readImage env dev
    setPhase .erasing 0 0
    onSession (UpdiSession.chipErase (t.beside _))
    setPhase .writing 0 image.length
    onSession (UpdiSession.writeFlashCb (t.beside _) workerProgress image)
    setPhase .verifying 0 image.length
    let st ← attempt (verifyImageCb t image)
    onSession (UpdiSession.disconnect (t.beside _))
    ofStatus st

def opVerifyCb : WorkerM (σ × List Progress) Unit := do
  setPhase .connecting 0 0
  doConnect (t.beside _) env false
  let dev ← sessionDevice
  if !env.malloc then fail (.status .param)
  else do
    setPhase .readingFile 0 0
    let image ← readImage env dev
    setPhase .verifying 0 image.length
    let st ← attempt (verifyImageCb t image)
    onSession (UpdiSession.disconnect (t.beside _))
    ofStatus st

def opDumpCb : WorkerM (σ × List Progress) Unit := do
  setPhase .connecting 0 0
  doConnect (t.beside _) env false
  let dev ← sessionDevice
  if !env.malloc then fail (.status .param)
  else do
    setPhase .reading 0 dev.flashSize
    let buf ← onSession (UpdiSession.readFlashCb (t.beside _) workerProgress dev.flashSize)
    if !env.dumpOpens then fail (.status .param)
    else do
      let (hs, sink) := Hex.write buf 0 32 (hexFileSink env.storageWrite) ⟨[], 0, true⟩
      updateApp fun a ↦ { a with dumpFile := sink.file }
      onSession (UpdiSession.disconnect (t.beside _))
      if hs = .ok ∧ sink.ok then pure () else fail (.status .param)

def opChipEraseCb : WorkerM (σ × List Progress) Unit := do
  setPhase .connecting 0 0
  doConnect (t.beside _) env true
  setPhase .erasing 0 0
  let st ← attempt (onSession (UpdiSession.chipErase (t.beside _)))
  onSession (UpdiSession.disconnect (t.beside _))
  ofStatus st

def opConnectCb : WorkerM (σ × List Progress) Unit := do
  setPhase .connecting 0 0
  opConnect (t.beside _) env

def opReadFusesCb : WorkerM (σ × List Progress) Unit := do
  setPhase .connecting 0 0
  opReadFuses (t.beside _) env

/-- An operation with all that it reports. -/
def runOpCb : UpdiOp → WorkerM (σ × List Progress) Unit
  | .connect => opConnectCb t env
  | .chipErase => opChipEraseCb t env
  | .flash => opFlashCb t env
  | .verify => opVerifyCb t env
  | .dump => opDumpCb t env
  | .readFuses => opReadFusesCb t env

def publishDone : WorkerM (σ × List Progress) Unit :=
  Prog.modify fun s ↦
    { s with ctx := (s.ctx.1, s.ctx.2 ++ [{ current s.ctx.2 with phase := .done }]) }

/-- The thread publishes the end of its operation, unless a null pointer has stopped it. -/
def updiWorkerThread (op : UpdiOp) : WorkerM (σ × List Progress) Unit := do
  match ← attempt (runOpCb t env op) with
  | .ok _ => publishDone
  | .error (.status e) => do
    publishDone
    fail (.status e)
  | .error e => fail e

end Worker

end UpdiProgrammer.Ui

namespace UpdiProgrammer.Updi

open Library.Program Prog UpdiSession

variable {σ ρ α : Type} {t : UpdiTransport σ}

def Erased (c : σ) (c' : σ × ρ) : Prop := ∃ r, Beside r c c'

theorem UpdiTransport.alike_erased (t : UpdiTransport σ) : t.Alike Erased (t.beside ρ) where
  send data c c' hR := by
    obtain ⟨r, hr⟩ := hR
    exact ((t.alike_beside r).send data c c' hr).imp_right fun h ↦ ⟨r, h⟩
  recv len timeoutMs c c' hR := by
    obtain ⟨r, hr⟩ := hR
    exact ((t.alike_beside r).recv len timeoutMs c c' hr).imp_right fun h ↦ ⟨r, h⟩
  broken c c' hR := by
    obtain ⟨r, hr⟩ := hR
    exact ⟨r, (t.alike_beside r).broken c c' hr⟩
  clocked c c' hR := by
    obtain ⟨r, hr⟩ := hR
    exact ((t.alike_beside r).clocked c c' hr).imp_right fun h ↦ ⟨r, h⟩

def KeepsOff (cb : UpdiProgressCb (σ × ρ)) : Prop := ∀ done total c, (cb done total c).1 = c.1

variable {cb : UpdiProgressCb (σ × ρ)} (hcb : KeepsOff cb)
include hcb

theorem erases_callBack {m : LinkM σ α} {p : LinkM (σ × ρ) α} (h : Agrees (OverLine Erased) m p)
    (done total : ℕ) :
    Agrees (OverLine Erased) m (callBack cb done total >>= fun _ ↦ p) := by
  apply Agrees.silent
  intro s u hR
  refine ⟨(), _, rfl, ⟨hR.1, ?_⟩, h⟩
  obtain ⟨r, hr⟩ := hR.2
  have hsame : u.ctx.1 = s.ctx := congrArg Prod.fst hr
  exact ⟨(cb done total u.ctx).2, Prod.ext ((hcb done total u.ctx).trans hsame) rfl⟩

theorem erases_writePages (d : UpdiDevice) (page flashAddress len fuel off : ℕ)
    (data : List UInt8) :
    Agrees (OverLine Erased) (writePages t d page fuel (flashAddress + off) data)
      (writePagesCb (t.beside ρ) cb d page flashAddress len fuel off data) := by
  induction fuel generalizing off data with
  | zero => exact .pure
  | succ fuel ih =>
    have hrest := ih (off + page) (data.drop page)
    rw [← Nat.add_assoc] at hrest
    refine .ite (fun _ ↦ .pure) fun _ ↦ .ite (fun _ ↦ ?_) fun _ ↦ erases_callBack hcb hrest _ _
    exact (compares_writeFlashPage t.alike_erased.compared d _ _).bind fun _ ↦
      erases_callBack hcb hrest _ _

theorem erases_writeFlash (data : List UInt8) :
    Agrees (OverSession (OverLine Erased)) (writeFlash t data)
      (writeFlashCb (t.beside ρ) cb data) := by
  refine agrees_connectedDevice.bind fun dev ↦ .ite (fun _ ↦ .fail) fun _ ↦ ?_
  refine agrees_boundDevice.bind fun d ↦ agrees_onLink t.alike_erased.link ?_
  exact erases_writePages hcb d _ _ _ _ 0 data

theorem erases_verifyChunks (flashAddress len fuel off : ℕ) (data : List UInt8) :
    Agrees (OverLine Erased) (verifyChunks t flashAddress fuel off data)
      (verifyChunksCb (t.beside ρ) cb flashAddress len fuel off data) := by
  induction fuel generalizing off data with
  | zero => exact .pure
  | succ fuel ih =>
    refine .ite (fun _ ↦ .pure) fun _ ↦ ?_
    refine (agrees_readChunks t.alike_erased.link _ _ _).bind fun rb ↦ ?_
    cases firstDifference off data rb with
    | some m => exact .pure
    | none => exact erases_callBack hcb (ih _ _) _ _

theorem erases_verifyFlash (data : List UInt8) :
    Agrees (OverSession (OverLine Erased)) (verifyFlash t data)
      (verifyFlashCb (t.beside ρ) cb data) :=
  agrees_connectedDevice.bind fun _ ↦
    agrees_onLink t.alike_erased.link (erases_verifyChunks hcb _ _ _ 0 data)

theorem erases_readFlashChunks (flashAddress len fuel off left : ℕ) :
    Agrees (OverLine Erased) (readFlashChunks t fuel (flashAddress + off) left)
      (readFlashChunksCb (t.beside ρ) cb flashAddress len fuel off left) := by
  induction fuel generalizing off left with
  | zero => exact .pure
  | succ fuel ih =>
    have hrest := ih (off + min left readChunk) (left - min left readChunk)
    rw [← Nat.add_assoc] at hrest
    refine .ite (fun _ ↦ .pure) fun _ ↦ ?_
    refine (agrees_readChunks t.alike_erased.link _ _ _).bind fun bytes ↦ ?_
    exact erases_callBack hcb (hrest.bind fun _ ↦ .pure) _ _

theorem erases_readFlash (len : ℕ) :
    Agrees (OverSession (OverLine Erased)) (readFlash t len) (readFlashCb (t.beside ρ) cb len) :=
  agrees_connectedDevice.bind fun _ ↦
    agrees_onLink t.alike_erased.link (erases_readFlashChunks hcb _ len len 0 len)

end UpdiProgrammer.Updi

namespace UpdiProgrammer.Ui

open Updi Hex Library.Program Prog

namespace Worker

variable {σ α : Type} {t : UpdiTransport σ} {env : Env}

theorem workerProgress_keepsOff : KeepsOff (workerProgress : UpdiProgressCb (σ × List Progress)) :=
  fun _ _ _ ↦ rfl

theorem erases_setPhase {m : WorkerM σ α} {p : WorkerM (σ × List Progress) α}
    (h : Agrees (OverWorker Erased) m p) (phase : UpdiPhase) (done total : ℕ) :
    Agrees (OverWorker Erased) m (setPhase phase done total >>= fun _ ↦ p) := by
  apply Agrees.silent
  intro s u hR
  refine ⟨(), _, rfl, ⟨hR.1, ?_⟩, h⟩
  obtain ⟨r, hr⟩ := hR.2
  have hsame : u.ctx.1 = s.ctx := congrArg Prod.fst hr
  exact ⟨u.ctx.2 ++ [⟨phase, done, total⟩], Prod.ext hsame rfl⟩

theorem erases_verifyImage (image : List UInt8) :
    Agrees (OverWorker Erased) (verifyImage t image) (verifyImageCb t image) := by
  apply (agrees_onSession (erases_verifyFlash workerProgress_keepsOff image)).bind
  intro r
  cases r with
  | none => exact .pure
  | some m => exact (agrees_updateApp _).bind fun _ ↦ .fail

theorem erases_withImage {k : List UInt8 → WorkerM σ α}
    {j : List UInt8 → WorkerM (σ × List Progress) α} {d : UpdiDevice}
    (h : ∀ image, Agrees (OverWorker Erased) (k image) (j image)) :
    Agrees (OverWorker Erased) (readImage env d >>= k)
      (if !env.malloc then fail (.status .param) else do
      setPhase .readingFile 0 0
      let image ← readImage env d
      j image) := by
  cases hmalloc : env.malloc with
  | false =>
    have hnone : (readImage env d : WorkerM σ _) = fail (.status .param) := by
      unfold readImage
      rw [hmalloc]
      rfl
    rw [hnone]
    exact .fail
  | true => exact erases_setPhase (agrees_readImage fun image _ ↦ h image) _ _ _

/-- What the worker reports makes no difference to what it does. -/
theorem erases_runOp (op : UpdiOp) :
    Agrees (OverWorker Erased) (runOp t env op) (runOpCb t env op) := by
  have halike := t.alike_erased (ρ := List Progress)
  have h := alikeCalls_of_alike halike
  cases op with
  | connect => exact erases_setPhase (agrees_runOp h .connect) _ _ _
  | readFuses => exact erases_setPhase (agrees_runOp h .readFuses) _ _ _
  | chipErase =>
    refine erases_setPhase ((agrees_doConnect h true).bind fun _ ↦ erases_setPhase ?_ _ _ _) _ _ _
    exact h.chipErase.attempt.bind fun _ ↦ agrees_release h .ofStatus
  | flash =>
    refine erases_setPhase ((agrees_doConnect h true).bind fun _ ↦ agrees_sessionDevice h
      fun dev _ ↦ ?_) _ _ _
    refine erases_withImage fun image ↦ erases_setPhase ?_ _ _ _
    refine h.chipErase.bind fun _ ↦ erases_setPhase ?_ _ _ _
    refine (agrees_onSession (erases_writeFlash workerProgress_keepsOff image)).bind fun _ ↦
      erases_setPhase ?_ _ _ _
    exact (erases_verifyImage image).attempt.bind fun _ ↦ agrees_release h .ofStatus
  | verify =>
    refine erases_setPhase ((agrees_doConnect h false).bind fun _ ↦ agrees_sessionDevice h
      fun dev _ ↦ ?_) _ _ _
    refine erases_withImage fun image ↦ erases_setPhase ?_ _ _ _
    exact (erases_verifyImage image).attempt.bind fun _ ↦ agrees_release h .ofStatus
  | dump =>
    refine erases_setPhase ((agrees_doConnect h false).bind fun _ ↦ agrees_sessionDevice h
      fun dev _ ↦ ?_) _ _ _
    refine .ite (fun _ ↦ .fail) fun _ ↦ erases_setPhase ?_ _ _ _
    refine (agrees_onSession (erases_readFlash workerProgress_keepsOff dev.flashSize)).bind
      fun buf ↦ ?_
    refine .ite (fun _ ↦ .fail) fun _ ↦ ?_
    rcases Hex.write buf 0 32 (hexFileSink env.storageWrite) ⟨[], 0, true⟩ with ⟨hs, sink⟩
    exact (agrees_updateApp _).bind fun _ ↦ agrees_release h (.ite (fun _ ↦ .pure) fun _ ↦ .fail)

end Worker

end UpdiProgrammer.Ui

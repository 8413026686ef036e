import UpdiProgrammer.HostTest.NonDestructive
import UpdiProgrammer.HostTest.Programming
import UpdiProgrammer.Ui.Availability
import UpdiProgrammer.Ui.DumpFile
import UpdiProgrammer.Updi.Identity

namespace UpdiProgrammer.HostTest

open Updi UpdiLink UpdiSession Library.Program Prog UpdiEmu Hex IntelHexImage
open Ui Ui.Worker Ui.LockEvidence
open UpdiTransport (Event)

variable {σ : Type} {t : UpdiTransport σ} {env : Env} {s : WorkerState σ}

def Stores (data : List UInt8) : Prop :=
  ∃ op rest, data = phySync :: op :: rest ∧
    (opcodeInstruction op = some .sts ∨ opcodeInstruction op = some .stInc)

theorem not_stores_of_control {data : List UInt8} (h : Control data) : ¬Stores data := by
  rintro ⟨op, rest, rfl, hop⟩
  have hreadOnly := ((settles_control (P := .emulator) h).harmless UpdiEmu.init rfl).readOnly
  rw [instructions_frame rfl] at hreadOnly
  have hfirst {i : Instruction} (hi : opcodeInstruction op = some i) : i.ReadOnly := by
    refine hreadOnly i (List.mem_append_left _ ?_)
    rw [hi]
    exact List.mem_cons_self
  rcases hop with hop | hop
  · exact hfirst hop
  · exact hfirst hop

theorem not_stores_keyOpcode : ¬Stores keyOpcode := by
  rintro ⟨op, rest, hdata, hop⟩
  cases hdata
  revert hop
  decide

theorem not_stores_of_head {b : UInt8} {rest : List UInt8} (h : b ≠ phySync) :
    ¬Stores (b :: rest) := by
  rintro ⟨op, rest', hdata, -⟩
  exact h (List.cons.inj hdata).1

theorem doConnect_storeless (allowErase : Bool) :
    WorkerSends (¬Stores ·) (doConnect t.recorded env allowErase) := by
  have hreset (v : UInt8) : ¬Stores (stcsFrame asiResetReq v) := not_stores_of_control (.stcs _ v)
  have hread (data : List UInt8) (h : ReadFrame data) : ¬Stores data :=
    not_stores_of_control (.read h)
  have hnvm : ¬Stores keyNvm.reverse := not_stores_of_head (by decide)
  have herase : ¬Stores keyChiperase.reverse := not_stores_of_head (by decide)
  have hconnect : WorkerSends (¬Stores ·) (onSession (connect t.recorded)) :=
    sends_onSession (sends_connect hreset hread not_stores_keyOpcode hnvm)
  have hunlock : WorkerSends (¬Stores ·) (onSession (UpdiSession.unlock t.recorded)) :=
    sends_onSession (sends_onLink (sends_unlock hreset hread not_stores_keyOpcode herase))
  have hsession : WorkerSends (¬Stores ·) (connectSession t.recorded allowErase) := by
    refine (Only.attempt hconnect).bind fun r ↦ ?_
    split
    · exact .ite (fun _ ↦ hunlock.bind fun _ ↦ hconnect) fun _ ↦ .fail
    · exact .ofStatus
  exact sends_ensureTransport.bind fun _ ↦ hsession.bind fun _ ↦ sends_updateApp _

theorem doConnect_noErase : WorkerSends NoErase (doConnect t.recorded env false) := by
  have hconnect : WorkerSends NoErase (onSession (connect t.recorded)) :=
    sends_onSession connect_noErase
  have hsession : WorkerSends NoErase (connectSession t.recorded false) := by
    refine (Only.attempt hconnect).bind fun r ↦ ?_
    split
    · exact .fail
    · exact .ofStatus
  exact sends_ensureTransport.bind fun _ ↦ hsession.bind fun _ ↦ sends_updateApp _

/-- The first connect of an operation reports a locked part. -/
def ReportsLocked (t : UpdiTransport σ) (env : Env) (s : WorkerState σ) : Prop :=
  (onSession (connect t) (ensureTransport env s).2).1 = .error (.status .locked)

/-- Being allowed to erase makes a difference for a locked part only. -/
theorem doConnect_of_not_locked (h : ¬ReportsLocked t env s) :
    doConnect t env true s = doConnect t env false s := by
  unfold ReportsLocked at h
  unfold doConnect
  rcases hensure : ensureTransport env s with ⟨e | u, s'⟩
  · rw [bind_error hensure, bind_error hensure]
  · rw [hensure] at h
    rw [bind_ok hensure, bind_ok hensure]
    have hsession : connectSession t true s' = connectSession t false s' := by
      unfold connectSession
      rw [attempt_bind_run, attempt_bind_run]
      generalize (onSession (connect t) s').1 = r at h
      split
      · exact absurd rfl h
      · rfl
    rw [bind_run, bind_run, hsession]

theorem never_onSession {α : Type} {e : Halt} (htransport : .nullTransport ≠ e) {m : SessionM σ α}
    (h : Never e m) :
    Never e (onSession m) := by
  intro s hs
  unfold onSession
  split_ifs with hlink
  · exact Never.zoom (fun _ he ↦ by rwa [← he] at h) s hs
  · exact htransport

theorem never_nullDevice_doConnect (allowErase : Bool) :
    Never .nullDevice (doConnect t env allowErase) := by
  have hstatus (st : UpdiErr) : Halt.status st ≠ .nullDevice := Halt.noConfusion
  have hensure : Never .nullDevice (ensureTransport env : WorkerM σ Unit) := by
    refine Never.read.bind fun transport ↦ .ite (fun _ ↦ ?_) fun _ ↦ .pure
    exact Never.modify.bind fun _ ↦ .ite (fun _ ↦ .fail (hstatus _)) fun _ ↦ .modify
  have hconnect : Never .nullDevice (onSession (connect t)) :=
    never_onSession Halt.noConfusion (never_connect hstatus)
  have hunlock : Never .nullDevice (onSession (UpdiSession.unlock t)) :=
    never_onSession Halt.noConfusion (never_onLink hstatus _)
  have hsession : Never .nullDevice (connectSession t allowErase) := by
    refine hconnect.attempt_bind (fun a ↦ ?_) fun e he ↦ ?_
    · exact .ofStatus nofun
    · split
      · exact .ite (fun _ ↦ hunlock.bind fun _ ↦ hconnect) fun _ ↦ .fail (hstatus _)
      · exact .ofStatus fun h ↦ he (Except.error.inj h)
  exact hensure.bind fun _ ↦ hsession.bind fun _ ↦ .modify

theorem doConnect_status (hstart : s.app.transport = none ∨ Initialised s) {allowErase : Bool}
    {h : Halt} {s₁ : WorkerState σ} (hrun : doConnect t env allowErase s = (.error h, s₁)) :
    ∃ e, h = .status e := by
  have hdevice : h ≠ .nullDevice := by
    rintro rfl
    exact (never_nullDevice_doConnect allowErase).run_ne s (congrArg Prod.fst hrun)
  have hrest : Sound (do
      connectSession t allowErase
      updateApp fun a ↦ { a with haveDevice := true }) :=
    (sound_connectSession allowErase).bind fun _ ↦ sound_updateApp fun _ ↦ ⟨rfl, rfl⟩
  have htransport : h ≠ .nullTransport := by
    rcases hstart with hnone | hinit
    · have hensure : ensureTransport env s = if env.acquire then
          (.ok (), { s with app := { s.app with
            transport := some true, linkTransport := true, session := UpdiSession.init } })
          else (.error (.status .transport),
            { s with app := { s.app with transport := some false } }) := by
        unfold ensureTransport
        rw [read_bind_run, hnone]
        cases env.acquire <;> rfl
      unfold doConnect at hrun
      cases hacquire : env.acquire with
      | true =>
        rw [hacquire, if_pos rfl] at hensure
        rw [bind_ok hensure] at hrun
        exact (hrest.error ⟨rfl, rfl⟩ hrun).2
      | false =>
        rw [hacquire, if_neg Bool.false_ne_true] at hensure
        rw [bind_error hensure] at hrun
        cases hrun
        exact Halt.noConfusion
    · exact ((sound_doConnect allowErase).error hinit hrun).2
  cases h with
  | nullDevice => exact absurd rfl hdevice
  | nullTransport => exact absurd rfl htransport
  | status e => exact ⟨e, rfl⟩

section Rejected

variable (hstart : s.app.transport = none ∨ Initialised s)
  (hrejected : ∀ s₁ d, doConnect t env true s = (.ok (), s₁) → s₁.app.session.device = some d →
    (parseHexFile env.hexFile (init (fun _ ↦ 0xFF) d.flashSize 0 0xFF)).1 ≠ .ok ())
include hstart hrejected

theorem opFlash_rejected :
    ∃ e, opFlash t env s = (.error (.status e), (doConnect t env true s).2) := by
  rcases hconn : doConnect t env true s with ⟨h | u, s₁⟩
  · obtain ⟨e, rfl⟩ := doConnect_status hstart hconn
    exact ⟨e, bind_error hconn _⟩
  · obtain ⟨d, -, hdev⟩ := (doConnect_live hconn).device
    have hdevice : sessionDevice s₁ = (.ok d, s₁) := by
      unfold sessionDevice
      rw [hdev]
    have himage : ∃ e, readImage env d s₁ = (.error (.status e), s₁) := by
      unfold readImage
      split_ifs with hmalloc
      · exact ⟨.param, rfl⟩
      · have hfile := hrejected s₁ d hconn hdev
        rcases hparse :
          parseHexFile env.hexFile (init (fun _ ↦ 0xFF) d.flashSize 0 0xFF) with ⟨e | u, img⟩
        · exact ⟨e, rfl⟩
        · rw [hparse] at hfile
          exact absurd rfl hfile
    obtain ⟨e, himage⟩ := himage
    exact ⟨e, by rw [opFlash, bind_ok hconn, bind_ok hdevice, bind_error himage]⟩

end Rejected

/-- With a file that is rejected for the part, a flash ends with an error and
stores nothing, and sends no chip-erase key and leaves the memories alone
unless its connect reported a locked part. -/
theorem rejected_file_spares (P : AckPolicy) (t : UpdiTransport σ) (env : Env)
    (app : UpdiApp) (c : σ)
    (hstart : app.transport = none ∨ app.transport = some true ∧ app.linkTransport = true)
    (hrejected : ∀ s₁ d, doConnect t.recorded env true ⟨app, c, []⟩ = (.ok (), s₁) →
      s₁.app.session.device = some d →
      (parseHexFile env.hexFile (init (fun _ ↦ 0xFF) d.flashSize 0 0xFF)).1 ≠ .ok ()) :
    (∃ e, (opFlash t.recorded env ⟨app, c, []⟩).1 = .error (.status e)) ∧
      (∀ ev ∈ (opFlash t.recorded env ⟨app, c, []⟩).2.ctx.2, Sends (¬Stores ·) ev) ∧
      (¬ReportsLocked t.recorded env ⟨app, c, []⟩ →
        (∀ ev ∈ (opFlash t.recorded env ⟨app, c, []⟩).2.ctx.2, Sends NoErase ev) ∧
        ∀ e : UpdiEmu, e.state = .idle →
          (∀ i ∈ e.instructions P (delivered (opFlash t.recorded env ⟨app, c, []⟩).2.ctx.2),
            i.ReadOnly) ∧
          (e.feed P (delivered (opFlash t.recorded env ⟨app, c, []⟩).2.ctx.2)).mem.flash =
            e.mem.flash ∧
          (e.feed P (delivered (opFlash t.recorded env ⟨app, c, []⟩).2.ctx.2)).mem.io =
            e.mem.io) := by
  obtain ⟨e, hrun⟩ := opFlash_rejected hstart hrejected
  rw [hrun]
  refine ⟨⟨e, rfl⟩, ?_, fun hlocked ↦ ?_⟩
  · have hconnect : WorkerSends (¬Stores ·) (doConnect t.recorded env true) :=
      doConnect_storeless true
    obtain ⟨l, hl, hstoreless⟩ := hconnect ⟨app, c, []⟩
    have hlog : (doConnect t.recorded env true ⟨app, c, []⟩).2.ctx.2 = l := hl
    rwa [hlog]
  · rw [doConnect_of_not_locked hlocked]
    refine ⟨?_, fun e he ↦ ?_⟩
    · have hconnect : WorkerSends NoErase (doConnect t.recorded env false) := doConnect_noErase
      obtain ⟨l, hl, hkeyless⟩ := hconnect ⟨app, c, []⟩
      have hlog : (doConnect t.recorded env false ⟨app, c, []⟩).2.ctx.2 = l := hl
      rwa [hlog]
    · have hconnect : Ends P workerLog (doConnect t.recorded env false) := ends_doConnect
      obtain ⟨l, hl, hpartial, -⟩ := hconnect ⟨app, c, []⟩
      have hlog : (doConnect t.recorded env false ⟨app, c, []⟩).2.ctx.2 = l := hl
      obtain ⟨hstore, hinstructions⟩ := hpartial e he
      rw [hlog]
      exact ⟨hinstructions, by rw [hstore], by rw [hstore]⟩

def tornFileEnv : Env := ⟨true, true, some [[0x3A]], true, fun _ l ↦ l.length⟩

theorem tornFile_rejected (d : UpdiDevice) :
    (parseHexFile tornFileEnv.hexFile (init (fun _ ↦ 0xFF) d.flashSize 0 0xFF)).1 ≠ .ok () :=
  fun h ↦ (by cases h)

theorem torn_file_spares_attiny412 :
    (∃ e, (opFlash (answeringAttiny412 0x30).recorded tornFileEnv ⟨UpdiApp.alloc, 0, []⟩).1 =
      .error (.status e)) ∧
      (freshAttiny412.feed .emulator
        (delivered (opFlash (answeringAttiny412 0x30).recorded tornFileEnv
          ⟨UpdiApp.alloc, 0, []⟩).2.ctx.2)).mem.flash =
          freshAttiny412.mem.flash := by
  have hspares :=
    rejected_file_spares .emulator (answeringAttiny412 0x30) tornFileEnv UpdiApp.alloc 0 (.inl rfl)
    fun _ d _ _ ↦ tornFile_rejected d
  have hlocked : ¬ReportsLocked (answeringAttiny412 0x30).recorded tornFileEnv
      ⟨UpdiApp.alloc, 0, []⟩ := by
    unfold ReportsLocked
    decide +kernel
  exact ⟨hspares.1, ((hspares.2.2 hlocked).2 freshAttiny412 rfl).2.1⟩

/-- A locked ATtiny412, up to the chip-erase key, and unlocked by it. -/
def untilUnlocked : List (List UInt8) :=
  untilKeyStatus ++ [[0x83], [0x08], [0x82]] ++ Release.untilSignature

/-- A locked part is erased before the file is looked at. -/
theorem locked_part_erased_for_torn_file :
    (parseHexFile tornFileEnv.hexFile (init (fun _ ↦ 0xFF) 0x1000 0 0xFF)).1 ≠ .ok () ∧
      (opFlash scripted.recorded tornFileEnv ⟨UpdiApp.alloc, (untilUnlocked, 0), []⟩).1 =
        .error (.status .param) ∧
      (opFlash scripted.recorded tornFileEnv ⟨UpdiApp.alloc, (untilUnlocked, 0),
        []⟩).2.app.session.device =
        some attiny412 ∧
      (opFlash scripted.recorded tornFileEnv ⟨UpdiApp.alloc, (untilUnlocked, 0),
        []⟩).2.ctx.2.contains (.sent keyChiperase.reverse true) = true :=
  ⟨tornFile_rejected attiny412, by decide +kernel, by decide +kernel, by decide +kernel⟩

end UpdiProgrammer.HostTest

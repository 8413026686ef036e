import UpdiProgrammer.HostTest.PartRun
import UpdiProgrammer.Ui.Availability

namespace UpdiProgrammer.Ui

open Updi Hex IntelHexImage HostTest Library.Program Library.Simulation

/-- The programmer with one part in its socket, as its user sees them: whether
the serial port was asked for and given, what the screens can show, the file of
the last dump, and the two memories of the part. -/
structure Programmer where
  serial : Option Bool
  haveDevice : Bool
  mismatch : Option UpdiVerifyMismatch
  fusesRead : List UInt8
  dumpFile : List UInt8
  flash : ℕ → UInt8
  fuses : ℕ → UInt8

/-- The bytes that a HEX file puts from offset zero on, with 0xFF in its gaps. -/
noncomputable def fileImage (flashSize : ℕ) (chunks : List (List UInt8)) : List UInt8 :=
  (List.range (fileEnd (init (fun _ ↦ 0xFF) flashSize 0 0xFF) (fileLines chunks))).map fun i ↦
    (definedBy (init (fun _ ↦ 0xFF) flashSize 0 0xFF) (fileLines chunks) i).getD 0xFF

/-- What the file of an operation is worth: nothing without room for it, or if
the parser refuses it. -/
noncomputable def Env.image (env : Env) (flashSize : ℕ) : Option (List UInt8) :=
  env.hexFile.bind fun chunks ↦
    if env.malloc ∧
      (parseHexFile (some chunks) (init (fun _ ↦ 0xFF) flashSize 0 0xFF)).1 = .ok () then
      some (fileImage flashSize chunks)
    else none

namespace Programmer

noncomputable def perform (d : UpdiDevice) (env : Env) (p : Programmer) :
    UpdiOp → Except Halt Unit × Programmer
  | .connect => (.ok (), p)
  | .chipErase => (.ok (), { p with flash := fun _ ↦ 0xFF })
  | .flash =>
    match env.image d.flashSize with
    | none => (.error (.status .param), p)
    | some image => (.ok (), { p with flash := fun i ↦ image.getD i 0xFF })
  | .verify =>
    match env.image d.flashSize with
    | none => (.error (.status .param), p)
    | some image =>
      match firstMismatch (image.getD · 0) p.flash 0 image.length with
      | none => (.ok (), p)
      | some m => (.error (.status .verify), { p with mismatch := some m })
  | .dump =>
    if env.malloc ∧ env.dumpOpens then
      let (hs, sink) :=
        Hex.write ((List.range d.flashSize).map p.flash) 0 32 (hexFileSink env.storageWrite)
        ⟨[], 0, true⟩
      (if hs = .ok ∧ sink.ok then .ok () else .error (.status .param),
        { p with dumpFile := sink.file })
    else (.error (.status .param), p)
  | .readFuses =>
    (.ok (), { p with fusesRead := (List.range (min Worker.fusesMax d.fusesSize)).map p.fuses })

/-- An operation of the worker. The serial port is asked for once, and without
it nothing works any more. -/
noncomputable def step (d : UpdiDevice) (op : UpdiOp × Env) (p : Programmer) :
    Except Halt Unit × Programmer :=
  match p.serial with
  | some false => (.error .nullTransport, p)
  | some true => perform d op.2 { p with haveDevice := true } op.1
  | none =>
    if op.2.acquire then perform d op.2 { p with serial := some true, haveDevice := true } op.1
    else (.error (.status .transport), { p with serial := some false })

end Programmer

namespace Worker

variable {d : UpdiDevice} {m₀ : EmuMem} {b b' : Bench} {app : UpdiApp} {env : Env}
  {s : WorkerState UpdiEmu} {α : Type}

/-- The app is `app` but for its session, which goes through the transport
pointer and embodies the bench. -/
structure Runs (d : UpdiDevice) (m₀ : EmuMem) (app : UpdiApp) (b : Bench)
    (s : WorkerState UpdiEmu) : Prop where
  same : s.app = { app with session := s.app.session }
  ready : app.transport = some true ∧ app.linkTransport = true
  session : Embodies d m₀ b ⟨s.app.session, s.ctx⟩

theorem Runs.link (h : Runs d m₀ app b s) : s.app.linkTransport = true := by
  rw [h.same]
  exact h.ready.2

theorem runs_onSession {m : SessionM UpdiEmu α} {a : α} (h : Runs d m₀ app b s)
    (hm : ∀ u, Embodies d m₀ b u → Returns m u a (Embodies d m₀ b')) :
    Returns (onSession m) s a (Runs d m₀ app b') := by
  obtain ⟨u, hu, hembodies⟩ := hm _ h.session
  refine ⟨afterCall s u, ?_, ?_, h.ready, hembodies⟩
  · rw [onSession_run h.link, hu]
  · unfold afterCall
    rw [h.same]

theorem runs_updateApp {f : UpdiApp → UpdiApp} (h : Runs d m₀ app b s)
    (hf : ∀ a u, f { a with session := u } = { f a with session := u })
    (hready : (f app).transport = app.transport ∧ (f app).linkTransport = app.linkTransport) :
    Returns (updateApp f) s () (Runs d m₀ (f app) b) := by
  have happ : f s.app = { f app with session := s.app.session } := by
    rw [h.same, hf]
  have hsession : (f s.app).session = s.app.session := by rw [happ]
  refine ⟨_, rfl, ?_, ?_, ?_⟩
  · dsimp only
    rw [hsession]
    exact happ
  · rw [hready.1, hready.2]
    exact h.ready
  · dsimp only
    rw [hsession]
    exact h.session

theorem runs_disconnect (h : Runs d m₀ app b s) :
    Returns (onSession (UpdiSession.disconnect (emuTransport .emulator)))
    s () (Runs d m₀ app { b with contact := if b.contact = .connected then .found else
      b.contact }) :=
  runs_onSession h fun _ hu ↦ embodies_disconnect hu

theorem runs_sessionDevice (h : Runs d m₀ app b s) (hc : b.contact = .connected) :
    Returns sessionDevice s d (Runs d m₀ app b) := by
  obtain ⟨hdev, -, -⟩ := h.session.found (known_of_connected hc)
  refine ⟨s, ?_, h⟩
  unfold sessionDevice
  rw [hdev]

section Row

variable (hmem : d ∈ deviceTable)
include hmem

theorem runs_doConnect (h : Runs d m₀ app b s) (allowErase : Bool) :
    Returns (doConnect (emuTransport .emulator) env allowErase) s ()
      (Runs d m₀ { app with haveDevice := true } { b with contact := .connected }) := by
  have hensure : Returns (ensureTransport env) s () (Runs d m₀ app b) := by
    refine ⟨s, ?_, h⟩
    unfold ensureTransport
    rw [Prog.read_bind_run, h.same, h.ready.1]
    rfl
  refine hensure.bind fun s h ↦ ?_
  have hconnect := (runs_onSession h fun _ hu ↦ embodies_connect hmem hu).attempt
  have hsession : Returns (connectSession (emuTransport .emulator) allowErase) s ()
      (Runs d m₀ app { b with contact := .connected }) := hconnect.bind fun s h ↦ ⟨s, rfl, h⟩
  exact hsession.bind fun s h ↦ runs_updateApp h (fun _ _ ↦ rfl) ⟨rfl, rfl⟩

theorem runs_chipErase (h : Runs d m₀ app b s) (hc : b.contact = .connected) :
    Returns (onSession (UpdiSession.chipErase (emuTransport .emulator))) s ()
      (Runs d m₀ app { b with flash := fun _ ↦ 0xFF }) :=
  runs_onSession h fun _ hu ↦ embodies_chipErase hmem hu (known_of_connected hc)

theorem runs_writeFlash (h : Runs d m₀ app b s) (hc : b.contact = .connected) {image : List UInt8}
    (hlen : image.length ≤ d.flashSize) :
    Returns (onSession (UpdiSession.writeFlash (emuTransport .emulator) image)) s ()
      (Runs d m₀ app { b with flash := Bench.writePages d.flashPageSize image b.flash }) :=
  runs_onSession h fun _ hu ↦ embodies_writeFlash hmem hu hc hlen

theorem runs_readFlash (h : Runs d m₀ app b s) (hc : b.contact = .connected) :
    Returns (onSession (UpdiSession.readFlash (emuTransport .emulator) d.flashSize)) s
      ((List.range d.flashSize).map b.flash) (Runs d m₀ app b) :=
  runs_onSession h fun _ hu ↦ embodies_readFlash hmem hu hc (Nat.le_refl _)

theorem runs_readFuses (h : Runs d m₀ app b s) (hc : b.contact = .connected) (count : ℕ) :
    Returns (onSession (UpdiSession.readFuses (emuTransport .emulator) count)) s
      ((List.range (min count d.fusesSize)).map b.fuses) (Runs d m₀ app b) :=
  runs_onSession h fun _ hu ↦ embodies_readFuses hmem hu hc count

theorem runs_verifyImage (h : Runs d m₀ app b s) (hc : b.contact = .connected) {image : List UInt8}
    (hlen : image.length ≤ d.flashSize) :
    Ends (verifyImage (emuTransport .emulator) image) s
      ((firstMismatch (image.getD · 0) b.flash 0 image.length).elim (.ok ()) fun _ ↦
        .error (.status .verify))
      (Runs d m₀ { app with verifyMismatch :=
        (firstMismatch (image.getD · 0) b.flash 0 image.length).or app.verifyMismatch } b) := by
  have hverify : Returns (onSession (UpdiSession.verifyFlash (emuTransport .emulator) image)) s
      (firstMismatch (image.getD · 0) b.flash 0 image.length) (Runs d m₀ app b) :=
    runs_onSession h fun _ hu ↦ embodies_verifyFlash hmem hu hc hlen
  refine Ends.bind hverify fun s h ↦ ?_
  cases firstMismatch (image.getD · 0) b.flash 0 image.length with
  | none => exact ⟨s, rfl, h⟩
  | some m => exact Ends.bind (runs_updateApp h (fun _ _ ↦ rfl) ⟨rfl, rfl⟩) fun s h ↦ .fail h

end Row

theorem fileImage_le {flashSize : ℕ} {chunks : List (List UInt8)}
    (h : (parseHexFile (some chunks) (init (fun _ ↦ 0xFF) flashSize 0 0xFF)).1 = .ok ()) :
    (fileImage flashSize chunks).length ≤ flashSize := by
  have hiff : ∃ img, parseHexFile (some chunks) (init (fun _ ↦ 0xFF) flashSize 0 0xFF) =
      (.ok (), img) :=
    ⟨_, Prod.ext h rfl⟩
  obtain ⟨img, himg⟩ := hiff
  obtain ⟨hacc, -, -⟩ := parseHexFile_ok_iff.mp himg
  unfold fileImage
  rw [List.length_map, List.length_range]
  exact fileEnd_le hacc

/-- The image that the worker makes of an accepted file is what its lines define. -/
theorem readImage_accepted {flashSize : ℕ} {chunks : List (List UInt8)} {img : IntelHexImage}
    (himg : parseHexFile (some chunks) (init (fun _ ↦ 0xFF) flashSize 0 0xFF) = (.ok (), img)) :
    (List.range img.maxOffset).map img.data = fileImage flashSize chunks := by
  obtain ⟨hacc, hlines, -⟩ := parseHexFile_ok_iff.mp himg
  have hend := parseLines_end (fun _ ↦ rfl) hacc
  have hmax : img.maxOffset = fileEnd (init (fun _ ↦ 0xFF) flashSize 0 0xFF)
      (fileLines chunks) := by
    rw [hlines, hend]
    exact Nat.zero_max _
  have hle := fileEnd_le hacc
  unfold fileImage
  rw [hmax]
  refine List.map_congr_left fun i hi ↦ ?_
  have hlt : i < flashSize := Nat.lt_of_lt_of_le (List.mem_range.mp hi) hle
  rw [hlines, parseLines_defines hacc]
  exact congrArg (Option.getD _) (if_pos hlt)

theorem parseHexFile_refused {file : Option (List (List UInt8))} {img : IntelHexImage}
    (h : (parseHexFile file img).1 ≠ .ok ()) : (parseHexFile file img).1 = .error .param := by
  cases file with
  | none => rfl
  | some chunks =>
    rw [parseHexFile_eq] at h ⊢
    split_ifs at h ⊢ with hbad
    · rfl
    · exact absurd rfl h

theorem readImage_run {σ : Type} (env : Env) (d' : UpdiDevice) (s : WorkerState σ) :
    readImage env d' s = ((env.image d'.flashSize).elim (.error (.status .param)) .ok, s) := by
  unfold readImage Env.image
  cases env.malloc with
  | false => cases env.hexFile <;> simp
  | true =>
    cases env.hexFile with
    | none => simp [parseHexFile]
    | some chunks =>
      have hrefused := @parseHexFile_refused (some chunks) (init (fun _ ↦ 0xFF) d'.flashSize 0 0xFF)
      rcases hparse :
        parseHexFile (some chunks) (init (fun _ ↦ 0xFF) d'.flashSize 0 0xFF) with ⟨r, img⟩
      rw [hparse] at hrefused
      by_cases hok : r = .ok ()
      · subst hok
        simp [hparse, readImage_accepted hparse]
      · obtain rfl := hrefused hok
        simp [hparse]

theorem image_le {flashSize : ℕ} {image : List UInt8} (h : env.image flashSize = some image) :
    image.length ≤ flashSize := by
  obtain ⟨chunks, -, hchunks⟩ := Option.bind_eq_some_iff.mp h
  split_ifs at hchunks with hok
  obtain rfl := Option.some_inj.mp hchunks
  exact fileImage_le hok.2

theorem writePages_erased (page : ℕ) (hpage : 0 < page) (image : List UInt8) :
    Bench.writePages page image (fun _ ↦ 0xFF) = fun i ↦ image.getD i 0xFF := by
  funext i
  unfold Bench.writePages
  split_ifs with hall
  · by_cases hi : i < image.length
    · rw [List.getD_eq_getElem _ _ hi]
      exact (beq_iff_eq.mp (List.all_eq_true.mp hall _ (mem_pageOf hpage hi))).symm
    · rw [List.getD_eq_default _ _ (Nat.le_of_not_lt hi)]
  · rfl

theorem firstMismatch_written (image : List UInt8) :
    firstMismatch (image.getD · 0) (fun i ↦ image.getD i 0xFF) 0 image.length = none := by
  refine firstMismatch_eq_none_iff.mpr fun i hi ↦ ?_
  rw [List.getD_eq_getElem _ _ hi, List.getD_eq_getElem _ _ hi]

/-- What the screens of the app can show. -/
structure Shows (app : UpdiApp) (p : Programmer) : Prop where
  serial : app.transport = p.serial
  haveDevice : app.haveDevice = p.haveDevice
  mismatch : app.verifyMismatch = p.mismatch
  fusesRead : app.fuses = p.fusesRead
  dumpFile : app.dumpFile = p.dumpFile

/-- The serial port is there, the screens show what the programmer's would, and
the session embodies its part. -/
def Ready (d : UpdiDevice) (m₀ : EmuMem) (p : Programmer) (s : WorkerState UpdiEmu) : Prop :=
  ∃ app c, Runs d m₀ app ⟨c, p.flash, p.fuses⟩ s ∧ Shows app p

variable {p : Programmer} {β : Type}

theorem ends_release {c : Contact} (h : Runs d m₀ app ⟨c, p.flash, p.fuses⟩ s) (hp : Shows app p)
    (st : Except Halt β) : Ends (do
      onSession (UpdiSession.disconnect (emuTransport .emulator))
      Prog.ofStatus st) s st (Ready d m₀ p) :=
  Ends.bind (runs_disconnect h) fun _ h ↦ .ofStatus ⟨app, _, h, hp⟩

section Operations

variable (hmem : d ∈ deviceTable) (h : Runs d m₀ app ⟨.connected, p.flash, p.fuses⟩ s)
  (hp : Shows app p)
include hmem h hp

theorem ends_chipErase : Ends (do
      let st ← Prog.attempt (onSession (UpdiSession.chipErase (emuTransport .emulator)))
      onSession (UpdiSession.disconnect (emuTransport .emulator))
      Prog.ofStatus st) s (p.perform d env .chipErase).1
        (Ready d m₀ (p.perform d env .chipErase).2) := by
  refine Ends.bind (runs_chipErase hmem h rfl).attempt fun s h ↦ ?_
  exact ends_release (p := { p with flash := fun _ ↦ 0xFF }) h ⟨hp.1, hp.2, hp.3, hp.4, hp.5⟩ _

theorem ends_flash : Ends (do
      let image ← readImage env d
      onSession (UpdiSession.chipErase (emuTransport .emulator))
      onSession (UpdiSession.writeFlash (emuTransport .emulator) image)
      let st ← Prog.attempt (verifyImage (emuTransport .emulator) image)
      onSession (UpdiSession.disconnect (emuTransport .emulator))
      Prog.ofStatus st) s (p.perform d env .flash).1 (Ready d m₀ (p.perform d env .flash).2) := by
  have hpos := (UpdiDevice.wellFormed_of_mem hmem).page_pos
  have hrun := readImage_run env d s
  unfold Programmer.perform
  cases himage : env.image d.flashSize with
  | none =>
    rw [himage] at hrun
    exact Ends.bind_error ⟨s, hrun, app, _, h, hp⟩
  | some image =>
    rw [himage] at hrun
    have hlen := image_le himage
    refine Ends.bind (Q := Runs d m₀ app ⟨.connected, p.flash, p.fuses⟩) ⟨s, hrun, h⟩ fun s h ↦ ?_
    refine Ends.bind (runs_chipErase hmem h rfl) fun s h ↦ ?_
    refine Ends.bind (runs_writeFlash hmem h rfl hlen) fun s h ↦ ?_
    have hverify := runs_verifyImage hmem h rfl hlen
    dsimp only at hverify h
    rw [writePages_erased _ hpos, firstMismatch_written] at hverify
    refine Ends.bind hverify.attempt fun s h ↦ ?_
    exact ends_release (p := { p with flash := fun i ↦ image.getD i 0xFF }) h
      ⟨hp.1, hp.2, hp.3, hp.4, hp.5⟩ _

theorem ends_verify : Ends (do
      let image ← readImage env d
      let st ← Prog.attempt (verifyImage (emuTransport .emulator) image)
      onSession (UpdiSession.disconnect (emuTransport .emulator))
      Prog.ofStatus st) s (p.perform d env .verify).1 (Ready d m₀ (p.perform d env .verify).2) := by
  have hrun := readImage_run env d s
  unfold Programmer.perform
  cases himage : env.image d.flashSize with
  | none =>
    rw [himage] at hrun
    exact Ends.bind_error ⟨s, hrun, app, _, h, hp⟩
  | some image =>
    rw [himage] at hrun
    refine Ends.bind (Q := Runs d m₀ app ⟨.connected, p.flash, p.fuses⟩) ⟨s, hrun, h⟩ fun s h ↦ ?_
    have hverify := runs_verifyImage hmem h rfl (image_le himage)
    dsimp only at hverify ⊢
    cases hm : firstMismatch (image.getD · 0) p.flash 0 image.length with
    | none =>
      rw [hm] at hverify
      exact Ends.bind hverify.attempt fun s h ↦ ends_release h hp _
    | some m =>
      rw [hm] at hverify
      refine Ends.bind hverify.attempt fun s h ↦ ?_
      exact ends_release (p := { p with mismatch := some m }) h ⟨hp.1, hp.2, rfl, hp.4, hp.5⟩ _

theorem ends_dump : Ends (if !env.malloc then Prog.fail (.status .param)
      else do
        let buf ← onSession (UpdiSession.readFlash (emuTransport .emulator) d.flashSize)
        if !env.dumpOpens then Prog.fail (.status .param)
        else do
          let (hs, sink) := Hex.write buf 0 32 (hexFileSink env.storageWrite) ⟨[], 0, true⟩
          updateApp fun a ↦ { a with dumpFile := sink.file }
          onSession (UpdiSession.disconnect (emuTransport .emulator))
          if hs = .ok ∧ sink.ok then pure () else Prog.fail (.status .param)) s
            (p.perform d env .dump).1
      (Ready d m₀ (p.perform d env .dump).2) := by
  unfold Programmer.perform
  cases hmalloc : env.malloc with
  | false => exact ⟨s, rfl, app, _, h, hp⟩
  | true =>
    refine Ends.bind (runs_readFlash hmem h rfl) fun s h ↦ ?_
    cases hopens : env.dumpOpens with
    | false => exact ⟨s, rfl, app, _, h, hp⟩
    | true =>
      dsimp only
      generalize Hex.write ((List.range d.flashSize).map p.flash) 0 32
        (hexFileSink env.storageWrite) ⟨[], 0, true⟩ = w
      obtain ⟨hs, sink⟩ := w
      refine Ends.bind (runs_updateApp h (fun _ _ ↦ rfl) ⟨rfl, rfl⟩) fun s h ↦ ?_
      refine Ends.bind (runs_disconnect h) fun s h ↦ ?_
      have hready : Ready d m₀ { p with dumpFile := sink.file } s :=
        ⟨_, _, h, hp.1, hp.2, hp.3, hp.4, rfl⟩
      by_cases hok : hs = .ok ∧ sink.ok
      · refine ⟨s, ?_, hready⟩
        simp [hok]
      · refine ⟨s, ?_, hready⟩
        simp [hok]

theorem ends_readFuses : Ends (do
      let st ← Prog.attempt (onSession (UpdiSession.readFuses (emuTransport .emulator)
        (if d.fusesSize < fusesMax then d.fusesSize else fusesMax)))
      updateApp fun a ↦ { a with fuses := match st with | .ok l => l | .error _ => a.fuses }
      onSession (UpdiSession.disconnect (emuTransport .emulator))
      Prog.ofStatus (st.map fun _ ↦ ())) s (p.perform d env .readFuses).1
      (Ready d m₀ (p.perform d env .readFuses).2) := by
  have hcount : min (if d.fusesSize < fusesMax then d.fusesSize else fusesMax) d.fusesSize =
      min fusesMax d.fusesSize := by
    split_ifs <;> omega
  have hread := runs_readFuses hmem h rfl (if d.fusesSize < fusesMax then d.fusesSize else fusesMax)
  rw [hcount] at hread
  refine Ends.bind hread.attempt fun s h ↦ ?_
  refine Ends.bind (runs_updateApp h (fun _ _ ↦ rfl) ⟨rfl, rfl⟩) fun s h ↦ ?_
  exact ends_release
    (p := { p with fusesRead := (List.range (min fusesMax d.fusesSize)).map p.fuses }) h
    ⟨hp.1, hp.2, hp.3, rfl, hp.5⟩ (Except.ok ())

end Operations

theorem ends_runOp (hmem : d ∈ deviceTable) (h : Ready d m₀ p s) (op : UpdiOp) (env : Env) :
    Ends (runOp (emuTransport .emulator) env op) s
      (Programmer.perform d env { p with haveDevice := true } op).1
      (Ready d m₀ (Programmer.perform d env { p with haveDevice := true } op).2) := by
  obtain ⟨app, c, h, hp⟩ := h
  have hp' : Shows { app with haveDevice := true } { p with haveDevice := true } :=
    ⟨hp.1, rfl, hp.3, hp.4, hp.5⟩
  have hconnect (allowErase : Bool) := @runs_doConnect d m₀ _ app env s hmem h allowErase
  have hdevice (s : WorkerState UpdiEmu)
      (h : Runs d m₀ { app with haveDevice := true } ⟨.connected, p.flash, p.fuses⟩ s) :=
        runs_sessionDevice h rfl
  cases op with
  | connect =>
    refine Ends.bind (hconnect false) fun s h ↦ ?_
    exact (runs_disconnect h).mono fun s h ↦ ⟨_, _, h, hp'⟩
  | chipErase => exact Ends.bind (hconnect true) fun s h ↦ ends_chipErase hmem h hp'
  | flash =>
    refine Ends.bind (hconnect true) fun s h ↦ ?_
    exact Ends.bind (hdevice s h) fun s h ↦ ends_flash hmem h hp'
  | verify =>
    refine Ends.bind (hconnect false) fun s h ↦ ?_
    exact Ends.bind (hdevice s h) fun s h ↦ ends_verify hmem h hp'
  | dump =>
    refine Ends.bind (hconnect false) fun s h ↦ ?_
    exact Ends.bind (hdevice s h) fun s h ↦ ends_dump hmem h hp'
  | readFuses =>
    refine Ends.bind (hconnect false) fun s h ↦ ?_
    exact Ends.bind (hdevice s h) fun s h ↦ ends_readFuses hmem h hp'

/-- The worker depicts the programmer: before its first operation, without the
serial port for good, or with it. -/
inductive Depicts (d : UpdiDevice) (m₀ : EmuMem) (p : Programmer) (s : WorkerState UpdiEmu) : Prop
  | unasked (happ : s.app = UpdiApp.alloc) (hp : Shows s.app p)
      (h : Embodies d m₀ ⟨.unknown, p.flash, p.fuses⟩ ⟨UpdiSession.init, s.ctx⟩)
  | stuck (hs : Stuck s) (hp : Shows s.app p)
    (h : ∃ c, Resembles d m₀ ⟨c, p.flash, p.fuses⟩ s.ctx.mem)
  | ready (h : Ready d m₀ p s)

theorem Embodies.resembles {u : SessionState UpdiEmu} (h : Embodies d m₀ b u) :
    Resembles d m₀ b u.ctx.mem := by
  obtain ⟨m, hm, hstep⟩ := h.line
  rw [hstep.target.mem]
  exact hm

theorem Depicts.shows (h : Depicts d m₀ p s) : Shows s.app p := by
  cases h with
  | unasked happ hp h => exact hp
  | stuck hs hp h => exact hp
  | ready h =>
    obtain ⟨app, c, h, hp⟩ := h
    rw [h.same]
    exact ⟨hp.1, hp.2, hp.3, hp.4, hp.5⟩

theorem Depicts.resembles (h : Depicts d m₀ p s) :
    ∃ c, Resembles d m₀ ⟨c, p.flash, p.fuses⟩ s.ctx.mem := by
  cases h with
  | unasked happ hp h => exact ⟨_, Embodies.resembles h⟩
  | stuck hs hp h => exact h
  | ready h =>
    obtain ⟨app, c, h, -⟩ := h
    exact ⟨c, Embodies.resembles h.session⟩

/-- One operation: the worker ends it with the programmer's status, and goes on depicting it. -/
theorem runOp_simulates (hmem : d ∈ deviceTable) :
    Simulates (fun _ ↦ True) (fun s p ↦ Depicts d m₀ p s)
    (fun op ↦ runOp (emuTransport .emulator) op.2 op.1) (Programmer.step d) := by
  have hready (op : UpdiOp × Env) {s : WorkerState UpdiEmu} {p : Programmer} (h : Ready d m₀ p s) :
      (runOp (emuTransport .emulator) op.2 op.1 s).1 =
          (Programmer.perform d op.2 { p with haveDevice := true } op.1).1 ∧
        Depicts d m₀ (Programmer.perform d op.2 { p with haveDevice := true } op.1).2
          (runOp (emuTransport .emulator) op.2 op.1 s).2 := by
    obtain ⟨s', hrun, hs'⟩ := ends_runOp hmem h op.1 op.2
    rw [hrun]
    exact ⟨rfl, .ready hs'⟩
  intro op s p _ h
  dsimp only at h ⊢
  cases h with
  | unasked happ hp h =>
    have hserial : p.serial = none := by
      rw [← hp.serial, happ]
      rfl
    unfold Programmer.step
    rw [hserial]
    obtain ⟨app, c⟩ := s
    subst happ
    cases hacquire : op.2.acquire with
    | false =>
      rw [runOp_first op.1 hacquire]
      exact ⟨rfl, .stuck ⟨rfl, rfl⟩ ⟨rfl, hp.2, hp.3, hp.4, hp.5⟩ ⟨_, Embodies.resembles h⟩⟩
    | true =>
      have hensure : ensureTransport op.2 ⟨UpdiApp.alloc, c⟩ = ensureTransport op.2
          ⟨{ UpdiApp.alloc with
          transport := some true, linkTransport := true, session := UpdiSession.init }, c⟩ := by
        unfold ensureTransport updateApp
        rw [Prog.read_bind_run, hacquire]
        rfl
      rw [runOp_congr hensure op.1]
      have hfirst : Ready d m₀ { p with serial := some true } ⟨{ UpdiApp.alloc with
          transport := some true, linkTransport := true, session := UpdiSession.init }, c⟩ :=
        ⟨{ UpdiApp.alloc with
            transport := some true
            linkTransport := true
            session := UpdiSession.init }, .unknown,
          ⟨rfl, ⟨rfl, rfl⟩, h⟩, rfl, hp.2, hp.3, hp.4, hp.5⟩
      exact hready op hfirst
  | stuck hs hp h =>
    have hserial : p.serial = some false := by rw [← hp.serial, hs.1]
    unfold Programmer.step
    rw [hserial, runOp_stuck hs]
    exact ⟨rfl, .stuck hs hp h⟩
  | ready h =>
    have hserial : p.serial = some true := by
      obtain ⟨app, c, h, hp⟩ := h
      rw [← hp.serial, h.ready.1]
    have hstep := hready op h
    unfold Programmer.step
    rw [hserial] at hstep ⊢
    exact hstep

end Worker

def Programmer.fresh (d : UpdiDevice) (m : EmuMem) : Programmer where
  serial := none
  haveDevice := false
  mismatch := none
  fusesRead := []
  dumpFile := []
  flash := m.flash
  fuses := fun i ↦ m.io (d.fusesAddress + i - emuIoBase)

namespace Worker

/-- Over every history of operations, whatever files and failures of the system
they meet, the worker ends each one with the programmer's status, shows what the
programmer would, and leaves the memories of the part as the programmer's. -/
theorem worker_refines_programmer {d : UpdiDevice} (hmem : d ∈ deviceTable) {e : UpdiEmu}
    (he : Fresh e) (ht : TargetOf d e.mem) (ops : List (UpdiOp × Env)) :
    (answers (fun op ↦ runOp (emuTransport .emulator) op.2 op.1) ops ⟨UpdiApp.alloc, e⟩).1 =
        (answers (Programmer.step d) ops (Programmer.fresh d e.mem)).1 ∧
      Shows (answers (fun op ↦ runOp (emuTransport .emulator) op.2 op.1) ops
        ⟨UpdiApp.alloc, e⟩).2.app (answers (Programmer.step d) ops (Programmer.fresh d e.mem)).2 ∧
      ∃ c, Resembles d e.mem
        ⟨c, (answers (Programmer.step d) ops (Programmer.fresh d e.mem)).2.flash,
          (answers (Programmer.step d) ops (Programmer.fresh d e.mem)).2.fuses⟩
        (answers (fun op ↦ runOp (emuTransport .emulator) op.2 op.1) ops
          ⟨UpdiApp.alloc, e⟩).2.ctx.mem := by
  have hstart : Depicts d e.mem (Programmer.fresh d e.mem) ⟨UpdiApp.alloc, e⟩ :=
    .unasked rfl ⟨rfl, rfl, rfl, rfl, rfl⟩ (embodies_fresh he ht)
  obtain ⟨hsame, hend⟩ := (runOp_simulates hmem).run hstart fun _ _ ↦ trivial
  exact ⟨hsame, hend.shows, hend.resembles⟩

section Clone

variable {d : UpdiDevice}

theorem perform_dump_ok {env : Env} {p : Programmer} (h : (p.perform d env .dump).1 = .ok ()) :
    ∃ sink, Hex.write ((List.range d.flashSize).map p.flash) 0 32 (hexFileSink env.storageWrite)
      ⟨[], 0, true⟩ =
      (.ok, sink) ∧ (p.perform d env .dump).2.dumpFile = sink.file := by
  unfold Programmer.perform at h ⊢
  by_cases hopens : env.malloc ∧ env.dumpOpens
  · simp only [if_pos hopens] at h ⊢
    generalize Hex.write ((List.range d.flashSize).map p.flash) 0 32 (hexFileSink env.storageWrite)
      ⟨[], 0, true⟩ = w at h ⊢
    obtain ⟨hs, sink⟩ := w
    split_ifs at h with hok
    obtain rfl := hok.1
    exact ⟨sink, rfl, rfl⟩
  · simp only [if_neg hopens] at h
    cases h

/-- Storage that takes every line as a whole. -/
def TakesAll (storageWrite : ℕ → List UInt8 → ℕ) : Prop :=
  ∀ n line, line.length ≤ storageWrite n line

theorem sinkLines_whole {storageWrite : ℕ → List UInt8 → ℕ} (hw : TakesAll storageWrite)
    {lines : List (List UInt8)} {c : HexFileSink} (hc : c.ok = true) :
    (sinkLines (hexFileSink storageWrite) lines c).1 = true ∧
      (sinkLines (hexFileSink storageWrite) lines c).2.ok = true := by
  induction lines generalizing c with
  | nil => exact ⟨rfl, hc⟩
  | cons line lines ih =>
    have hmin := Nat.min_eq_right (hw c.calls line)
    have hline : hexFileSink storageWrite line c = (true, ⟨c.file ++ line, c.calls + 1, true⟩) := by
      simp [hexFileSink, hc, hmin]
    rw [sinkLines, hline, if_pos rfl]
    exact ih rfl

theorem perform_dump_whole {env : Env} (hmalloc : env.malloc = true) (hopens : env.dumpOpens = true)
    (hw : TakesAll env.storageWrite) (p : Programmer) : (p.perform d env .dump).1 = .ok () ∧
      (p.perform d env .dump).2.dumpFile ≠ [] := by
  obtain ⟨hstatus, hok⟩ :=
    @sinkLines_whole _ hw (hexLines ((List.range d.flashSize).map p.flash) 0 32) ⟨[], 0, true⟩ rfl
  have hdump : (p.perform d env .dump).1 = .ok () := by
    unfold Programmer.perform
    simp [hmalloc, hopens, write_eq, hstatus, hok]
  obtain ⟨sink, hwrite, hsink⟩ := perform_dump_ok hdump
  refine ⟨hdump, ?_⟩
  rw [hsink, dumpFile_eq hwrite, hexLines, List.flatten_append]
  exact List.append_ne_nil_of_right_ne_nil _ (by simp; decide)

theorem step_ok {op : UpdiOp × Env} {p : Programmer} (h : (Programmer.step d op p).1 = .ok ()) :
    ∃ serial, Programmer.step d op p =
      Programmer.perform d op.2 { p with serial := serial, haveDevice := true } op.1 := by
  unfold Programmer.step at h ⊢
  cases hserial : p.serial with
  | none =>
    rw [hserial] at h
    dsimp only at h ⊢
    split_ifs at h ⊢
    exact ⟨_, rfl⟩
  | some ready =>
    rw [hserial] at h
    cases ready with
    | false => cases h
    | true => exact ⟨_, rfl⟩

theorem step_ready {op : UpdiOp × Env} {p : Programmer} (hserial : p.serial ≠ some false)
    (hacquire : op.2.acquire = true) :
    ∃ serial, Programmer.step d op p =
      Programmer.perform d op.2 { p with serial := serial, haveDevice := true } op.1 := by
  unfold Programmer.step
  rw [hacquire]
  cases hp : p.serial with
  | none => exact ⟨_, rfl⟩
  | some ready =>
    cases ready with
    | false => exact absurd hp hserial
    | true => exact ⟨_, rfl⟩

variable (hmem : d ∈ deviceTable)
include hmem

theorem runOps_depicts {e : UpdiEmu} (he : Fresh e) (ht : TargetOf d e.mem)
    (ops : List (UpdiOp × Env)) :
    ∃ p, Depicts d e.mem p (runOps (emuTransport .emulator) ops ⟨UpdiApp.alloc, e⟩) := by
  have hrun {s : WorkerState UpdiEmu} {p : Programmer} (h : Depicts d e.mem p s) :
      ∃ p', Depicts d e.mem p' (runOps (emuTransport .emulator) ops s) := by
    induction ops generalizing s p with
    | nil => exact ⟨p, h⟩
    | cons op ops ih => exact ih (runOp_simulates hmem op s p trivial h).2
  exact hrun (p := Programmer.fresh d e.mem)
    (.unasked rfl ⟨rfl, rfl, rfl, rfl, rfl⟩ (embodies_fresh he ht))

theorem image_dump {flash : ℕ → UInt8} {storageWrite : ℕ → List UInt8 → ℕ} {sink : HexFileSink}
    (hdump : Hex.write ((List.range d.flashSize).map flash) 0 32 (hexFileSink storageWrite)
      ⟨[], 0, true⟩ = (.ok, sink))
    {env : Env} (hmalloc : env.malloc = true) {chunks : List (List UInt8)}
    (hhex : env.hexFile = some chunks) (hchunks : ∀ c ∈ chunks, c ≠ [])
    (hfile : chunks.flatten = sink.file) :
    env.image d.flashSize = some ((List.range d.flashSize).map flash) := by
  have hsize : 0 < d.flashSize ∧ d.flashSize < 2 ^ 32 := by
    have hall : ∀ d ∈ deviceTable, 0 < d.flashSize ∧ d.flashSize < 2 ^ 32 := by decide
    exact hall d hmem
  have hlen : ((List.range d.flashSize).map flash).length = d.flashSize := by
    rw [List.length_map, List.length_range]
  have hne : (List.range d.flashSize).map flash ≠ [] := by
    refine List.ne_nil_of_length_pos ?_
    rw [hlen]
    exact hsize.1
  obtain ⟨img, hparse, hbytes, -, hmax, -⟩ :=
    parseHexFile_dump hne (by rw [hlen]; exact hsize.2) hdump (fun _ ↦ 0xFF) hchunks hfile
  rw [hlen] at hparse hbytes hmax
  have himage := readImage_accepted hparse
  rw [hmax, hbytes] at himage
  unfold Env.image
  rw [hhex, Option.bind_some, if_pos ⟨hmalloc, congrArg Prod.fst hparse⟩, himage]

theorem dump_whole {e : UpdiEmu} (he : Fresh e) (ht : TargetOf d e.mem) {env : Env}
    (hacquire : env.acquire = true) (hmalloc : env.malloc = true) (hopens : env.dumpOpens = true)
    (hw : TakesAll env.storageWrite) :
    (runOp (emuTransport .emulator) env .dump ⟨UpdiApp.alloc, e⟩).1 = .ok () ∧
      (runOp (emuTransport .emulator) env .dump ⟨UpdiApp.alloc, e⟩).2.app.dumpFile ≠ [] := by
  obtain ⟨p, hp⟩ := runOps_depicts hmem he ht []
  have hready : p.serial ≠ some false := by
    rw [← hp.shows.serial]
    nofun
  obtain ⟨hsame, hend⟩ := runOp_simulates hmem (.dump, env) ⟨UpdiApp.alloc, e⟩ p trivial hp
  obtain ⟨serial, hstep⟩ := @step_ready d (.dump, env) p hready hacquire
  rw [hstep] at hsame hend
  obtain ⟨hok, hne⟩ :=
    perform_dump_whole (d := d) hmalloc hopens hw { p with serial := serial, haveDevice := true }
  refine ⟨hsame.trans hok, ?_⟩
  rw [hend.shows.dumpFile]
  exact hne

/-- A dump that ends well, of any part at any time, makes an exact copy: flashed
from whatever pieces the file is read in, another part of the row has its flash. -/
theorem clone_exact {e e' : UpdiEmu} (he : Fresh e) (ht : TargetOf d e.mem) (he' : Fresh e')
    (ht' : TargetOf d e'.mem) {ops ops' : List (UpdiOp × Env)} {s s' : WorkerState UpdiEmu}
    (hs : s = runOps (emuTransport .emulator) ops ⟨UpdiApp.alloc, e⟩)
    (hs' : s' = runOps (emuTransport .emulator) ops' ⟨UpdiApp.alloc, e'⟩) {env env' : Env}
    (hdump : (runOp (emuTransport .emulator) env .dump s).1 = .ok ())
    (hserial : s'.app.transport ≠ some false) (hacquire : env'.acquire = true)
    (hmalloc : env'.malloc = true) {chunks : List (List UInt8)} (hhex : env'.hexFile = some chunks)
    (hchunks : ∀ c ∈ chunks, c ≠ [])
    (hfile : chunks.flatten = (runOp (emuTransport .emulator) env .dump s).2.app.dumpFile) :
    (runOp (emuTransport .emulator) env' .flash s').1 = .ok () ∧
      ∀ i < d.flashSize, (runOp (emuTransport .emulator) env' .flash s').2.ctx.mem.flash i =
        s.ctx.mem.flash i := by
  obtain ⟨p, hp⟩ := runOps_depicts hmem he ht ops
  obtain ⟨p', hp'⟩ := runOps_depicts hmem he' ht' ops'
  rw [← hs] at hp
  rw [← hs'] at hp'
  obtain ⟨c, hflash⟩ := hp.resembles
  have hwritten :
      ∃ sink, Hex.write ((List.range d.flashSize).map p.flash) 0 32 (hexFileSink env.storageWrite)
      ⟨[], 0, true⟩ = (.ok, sink) ∧ (runOp (emuTransport .emulator) env .dump s).2.app.dumpFile =
        sink.file := by
    obtain ⟨hsame, hend⟩ := runOp_simulates hmem (.dump, env) s p trivial hp
    obtain ⟨serial, hstep⟩ := step_ok (hsame.symm.trans hdump)
    rw [hstep] at hsame hend
    obtain ⟨sink, hwrite, hsink⟩ := perform_dump_ok (hsame.symm.trans hdump)
    exact ⟨sink, hwrite, hend.shows.dumpFile.trans hsink⟩
  obtain ⟨sink, hwrite, hsink⟩ := hwritten
  have himage := image_dump hmem hwrite hmalloc hhex hchunks (hfile.trans hsink)
  have hready : p'.serial ≠ some false := hp'.shows.serial ▸ hserial
  obtain ⟨serial, hstep⟩ := @step_ready d (.flash, env') _ hready hacquire
  obtain ⟨hsame, hend⟩ := runOp_simulates hmem (.flash, env') s' p' trivial hp'
  rw [hstep] at hsame hend
  unfold Programmer.perform at hsame hend
  dsimp only at hsame hend
  rw [himage] at hsame hend
  obtain ⟨c', hflash'⟩ := hend.resembles
  refine ⟨hsame, fun i hi ↦ ?_⟩
  rw [hflash'.flash, hflash.flash]
  simp [List.getD_eq_getElem?_getD, hi]

end Clone

def steadyEnv (hexFile : Option (List (List UInt8))) : Env :=
  ⟨true, true, hexFile, true, fun _ line ↦ line.length⟩

theorem attiny412With_fresh (flash : ℕ → UInt8) :
    Fresh (attiny412With flash) ∧ TargetOf attiny412 (attiny412With flash).mem := by
  have hlive : freshAttiny412.mem.cs csStatusa ≠ 0 := by decide
  have ht : TargetOf attiny412 freshAttiny412.mem :=
    ⟨⟨rfl, rfl, rfl, rfl, rfl, rfl, rfl, rfl⟩, rfl, by decide⟩
  have hio : (attiny412With flash).mem.io = freshAttiny412.mem.io := rfl
  refine ⟨⟨rfl, rfl, rfl, hlive⟩, ⟨rfl, rfl, rfl, rfl, rfl, rfl, rfl, rfl⟩, ht.sibDigit, ?_⟩
  rw [hio]
  exact ht.signature

def program412 : UpdiEmu := attiny412With fun i ↦ UInt8.ofNat i

theorem program412_fresh : Fresh program412 ∧ TargetOf attiny412 program412.mem :=
  attiny412With_fresh fun i ↦ UInt8.ofNat i

/-- A flash of the application, and a verify of it after a chip erase. -/
def session412 : List (UpdiOp × Env) :=
  [(.flash, steadyEnv (some applicationFile)), (.readFuses, plainEnv false),
    (.chipErase, plainEnv false), (.verify, steadyEnv (some applicationFile))]

theorem attiny412_worker_refines_programmer :
    (answers (fun op ↦ runOp (emuTransport .emulator) op.2 op.1) session412
        ⟨UpdiApp.alloc, program412⟩).1 =
        (answers (Programmer.step attiny412) session412
          (Programmer.fresh attiny412 program412.mem)).1 ∧
      Shows (answers (fun op ↦ runOp (emuTransport .emulator) op.2 op.1) session412
        ⟨UpdiApp.alloc, program412⟩).2.app
        (answers (Programmer.step attiny412) session412
          (Programmer.fresh attiny412 program412.mem)).2 ∧
      ∃ c, Resembles attiny412 program412.mem
        ⟨c, (answers (Programmer.step attiny412) session412
          (Programmer.fresh attiny412 program412.mem)).2.flash,
          (answers (Programmer.step attiny412) session412
            (Programmer.fresh attiny412 program412.mem)).2.fuses⟩
        (answers (fun op ↦ runOp (emuTransport .emulator) op.2 op.1) session412
          ⟨UpdiApp.alloc, program412⟩).2.ctx.mem :=
  worker_refines_programmer (by decide) program412_fresh.1 program412_fresh.2 session412

/-- The environment of a flash of what was dumped of that program. -/
def copyEnv : Env :=
  steadyEnv (some [(runOp (emuTransport .emulator) (steadyEnv none) .dump
    ⟨UpdiApp.alloc, program412⟩).2.app.dumpFile])

theorem attiny412_cloned :
    (runOp (emuTransport .emulator) copyEnv .flash ⟨UpdiApp.alloc, freshAttiny412⟩).1 = .ok () ∧
      ∀ i < 0x1000, (runOp (emuTransport .emulator) copyEnv .flash
        ⟨UpdiApp.alloc, freshAttiny412⟩).2.ctx.mem.flash i =
        program412.mem.flash i := by
  have hmem : attiny412 ∈ deviceTable := by decide
  obtain ⟨he, ht⟩ := program412_fresh
  have he' : Fresh freshAttiny412 := (attiny412With_fresh fun _ ↦ 0xFF).1
  have ht' : TargetOf attiny412 freshAttiny412.mem := (attiny412With_fresh fun _ ↦ 0xFF).2
  have hs : (⟨UpdiApp.alloc, program412⟩ : WorkerState UpdiEmu) =
      runOps (emuTransport .emulator) [] ⟨UpdiApp.alloc, program412⟩ := rfl
  have hs' : (⟨UpdiApp.alloc, freshAttiny412⟩ : WorkerState UpdiEmu) =
      runOps (emuTransport .emulator) [] ⟨UpdiApp.alloc, freshAttiny412⟩ := rfl
  have hall : TakesAll (steadyEnv none).storageWrite := fun _ _ ↦ Nat.le_refl _
  obtain ⟨hdump, hne⟩ :=
    @dump_whole attiny412 hmem program412 he ht (steadyEnv none) rfl rfl rfl hall
  have hserial : UpdiApp.alloc.transport ≠ some false := nofun
  have hhex : copyEnv.hexFile =
      some [(runOp (emuTransport .emulator) (steadyEnv none) .dump
        ⟨UpdiApp.alloc, program412⟩).2.app.dumpFile] := rfl
  exact clone_exact hmem he ht he' ht' hs hs' hdump hserial rfl rfl hhex
    (List.forall_mem_singleton.mpr hne) List.flatten_singleton

end Worker

end UpdiProgrammer.Ui

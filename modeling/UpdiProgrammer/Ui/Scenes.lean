import UpdiProgrammer.Ui.Screens
import UpdiProgrammer.Library.Transition

namespace UpdiProgrammer.Ui

open Updi Library.Program

inductive Scene
  | start
  | deviceInfo
  | progress
  | result
  | fuses
  | settings
  | about
  deriving DecidableEq, Repr

/-- The scene manager of the platform: the navigation stack, the scene on screen
first, with what pushing, popping and searching do to it, and its three calls. A
call runs the exit handler of the scene it leaves, which may wait for good, and the
enter handler of the scene it comes to; the last two tell whether there is one. -/
structure SceneManager (ν : Type) where
  alloc : ν
  scenes : ν → List Scene
  push : Scene → ν → ν
  pop : ν → ν
  search : Scene → ν → Option ν
  nextScene {S : Type} (onExit : Scene → S → Option S) (onEnter : Scene → S → S) :
    Scene → ν → S → Option (ν × S)
  previousScene {S : Type} (onExit : Scene → S → Option S) (onEnter : Scene → S → S) :
    ν → S → Option (Bool × ν × S)
  searchPreviousScene {S : Type} (onExit : Scene → S → Option S) (onEnter : Scene → S → S) :
    Scene → ν → S → Option (Bool × ν × S)
  scenes_alloc : scenes alloc = []
  scenes_push : ∀ scene n, scenes (push scene n) = scene :: scenes n
  scenes_pop : ∀ n, scenes (pop n) = (scenes n).tail
  scenes_search : ∀ scene n, (search scene n).map scenes =
    if scene ∈ (scenes n).tail then some ((scenes n).tail.dropWhile (· ≠ scene)) else none
  nextScene_runs : ∀ {S : Type} (onExit : Scene → S → Option S) (onEnter : Scene → S → S) scene n s,
    nextScene onExit onEnter scene n s =
      ((scenes n).head?.elim (some s) (onExit · s)).map fun s ↦ (push scene n, onEnter scene s)
  previousScene_runs : ∀ {S : Type} (onExit : Scene → S → Option S) (onEnter : Scene → S → S) n s,
    previousScene onExit onEnter n s =
      (scenes n).head?.elim (some (false, n, s)) fun top ↦ (onExit top s).map fun s ↦
        (scenes n).tail.head?.elim (false, pop n, s) fun scene ↦ (true, pop n, onEnter scene s)
  searchPreviousScene_runs : ∀ {S : Type} (onExit : Scene → S → Option S) (onEnter : Scene → S → S)
    scene n s, searchPreviousScene onExit onEnter scene n s =
      (search scene n).elim (some (false, n, s)) fun found ↦
        ((scenes n).head?.elim (some s) (onExit · s)).map fun s ↦ (true, found, onEnter scene s)

/-- A scene manager that is its stack. -/
def SceneManager.ofStack : SceneManager (List Scene) where
  alloc := []
  scenes n := n
  push scene n := scene :: n
  pop n := n.tail
  search scene n := if scene ∈ n.tail then some (n.tail.dropWhile (· ≠ scene)) else none
  nextScene onExit onEnter scene n s :=
    (n.head?.elim (some s) (onExit · s)).map fun s ↦ (scene :: n, onEnter scene s)
  previousScene onExit onEnter n s :=
    n.head?.elim (some (false, n, s)) fun top ↦ (onExit top s).map fun s ↦
      n.tail.head?.elim (false, n.tail, s) fun scene ↦ (true, n.tail, onEnter scene s)
  searchPreviousScene onExit onEnter scene n s :=
    if scene ∈ n.tail then
      (n.head?.elim (some s) (onExit · s)).map fun s ↦
        (true, n.tail.dropWhile (· ≠ scene), onEnter scene s)
    else some (false, n, s)
  scenes_alloc := rfl
  scenes_push _ _ := rfl
  scenes_pop _ := rfl
  scenes_search scene n := by split_ifs <;> rfl
  nextScene_runs _ _ _ _ _ := rfl
  previousScene_runs _ _ _ _ := rfl
  searchPreviousScene_runs _ _ scene n s := by split_ifs <;> rfl

inductive StartItem
  | connect
  | flash
  | verify
  | dump
  | erase
  | fuses
  | settings
  | about
  deriving DecidableEq, Repr

def StartItem.index : StartItem → ℕ
  | .connect => 0
  | .flash => 1
  | .verify => 2
  | .dump => 3
  | .erase => 4
  | .fuses => 5
  | .settings => 6
  | .about => 7

def StartItem.ofIndex : ℕ → Option StartItem
  | 0 => some .connect
  | 1 => some .flash
  | 2 => some .verify
  | 3 => some .dump
  | 4 => some .erase
  | 5 => some .fuses
  | 6 => some .settings
  | 7 => some .about
  | _ => none

/-- The custom events of the view dispatcher, beside the menu's. -/
def eventTick : ℕ := 1000

def eventWorkerDone : ℕ := 1001

def baudValues : List ℕ := [115200, 230400, 57600, 38400, 19200]

/-- How far a worker thread has come: it has an operation to run, it has run it and
has reports and its status to write behind the lock, it has written them, it has
sent its event and returned, or it went through a null pointer. -/
inductive WorkerThread
  | started
  | running (reports : List Progress) (r : Except Halt Unit)
  | finished
  | returned
  | crashed
  deriving DecidableEq

/-- The app with what the system holds for it: the threads and the timers
allocated and not yet freed, and the custom events not yet dispatched. -/
structure UpdiProgApp (ν σ : Type) where
  stack : ν
  running : Bool
  screen : Screen
  events : List ℕ
  worker : Option WorkerThread
  threads : ℕ
  timer : Bool
  timers : ℕ
  op : Option UpdiOp
  result : UpdiStatus
  prog : Progress
  baud : ℕ
  lineBaud : Option ℕ
  filePath : String
  work : WorkerState σ

namespace UpdiProgApp

variable {ν σ : Type}

def workerStart (op : Option UpdiOp) (a : UpdiProgApp ν σ) : UpdiProgApp ν σ :=
  { a with
    op := op
    result := .ok ()
    prog := .start
    worker := some .started
    threads := a.threads + 1 }

/-- The calling thread waits until the worker has returned, and meanwhile this is
not possible. -/
def workerJoin (a : UpdiProgApp ν σ) : Option (UpdiProgApp ν σ) :=
  match a.worker with
  | none => some a
  | some .returned => some { a with worker := none, threads := a.threads - 1 }
  | some _ => none

def timerStart (a : UpdiProgApp ν σ) : UpdiProgApp ν σ :=
  { a with timer := true, timers := a.timers + 1 }

def timerFree (a : UpdiProgApp ν σ) : UpdiProgApp ν σ :=
  if a.timer then { a with timer := false, timers := a.timers - 1 } else a

def aboutText : String :=
  "UPDI Programmer\ntinyAVR 0/1/2, megaAVR 0,\nAVR EA. 3.3 V UPDI only.\n\n" ++
  "Wiring (resistor bridge):\nPin 13 (TX) -1k- UPDI node\nPin 14 (RX) --- UPDI node\n" ++
  "UPDI node ---- target UPDI\nPin 9 (3V3) -- target VCC\nPin 11/18 GND - target GND\n" ++
  "(opt) 4.7-10k pull-up\nUPDI node -> 3V3\n\nWARNINGS:\n- Power target at 3.3 V only.\n" ++
  "  5 V needs a level shifter.\n- No High-Voltage UPDI: a\n  UPDI pin fused to RESET/GPIO\n" ++
  "  needs a 12 V programmer.\n\nFirmware: Momentum mntm-012\n" ++
  "https://github.com/dhahaj/UPDI-Programmer\n"

def onEnter (scene : Scene) (a : UpdiProgApp ν σ) : UpdiProgApp ν σ :=
  match scene with
  | .start => { a with screen := .submenu }
  | .deviceInfo => { a with screen := deviceInfoScreen a.work.app.session }
  | .progress => ({ a with screen := .popup "Starting..." }.workerStart a.op).timerStart
  | .result => { a with screen := resultScreen a.op a.result a.work.app.verifyMismatch a.filePath }
  | .fuses => { a with screen := fusesScreen a.work.app }
  | .settings =>
    { a with screen := .varItemList (if a.baud ∈ baudValues then baudValues.idxOf a.baud else 0) }
  | .about => { a with screen := .widget "About" aboutText }

def onExit (scene : Scene) (a : UpdiProgApp ν σ) : Option (UpdiProgApp ν σ) :=
  match scene with
  | .progress => a.timerFree.workerJoin
  | _ => some a

variable (sm : SceneManager ν)

def scenes (a : UpdiProgApp ν σ) : List Scene := sm.scenes a.stack

/-- Leave the scene on screen for another one on top of it. -/
def nextScene (scene : Scene) (a : UpdiProgApp ν σ) : Option (UpdiProgApp ν σ) :=
  (sm.nextScene onExit onEnter scene a.stack a).map fun (stack, a) ↦ { a with stack := stack }

/-- Leave the scene on screen for the one below, and the app if there is none. -/
def previousScene (a : UpdiProgApp ν σ) : Option (UpdiProgApp ν σ) :=
  (sm.previousScene onExit onEnter a.stack a).map fun (found, stack, a) ↦
    { a with stack := stack, running := found && a.running }

/-- The handlers of the app ignore that there may be no such scene below. -/
def searchPreviousScene (scene : Scene) (a : UpdiProgApp ν σ) : Option (UpdiProgApp ν σ) :=
  (sm.searchPreviousScene onExit onEnter scene a.stack a).map fun (_, stack, a) ↦
    { a with stack := stack }

/-- The file browser starts at the root of the card, where the path stays if none is chosen. -/
def pickHexFile (choice : Option String) (a : UpdiProgApp ν σ) : Bool × UpdiProgApp ν σ :=
  (choice.isSome, { a with filePath := choice.getD "/ext" })

def startOnCustom (item : StartItem) (choice : Option String) (a : UpdiProgApp ν σ) :
    Option (UpdiProgApp ν σ) :=
  match item with
  | .connect => nextScene sm .progress { a with op := some .connect }
  | .flash =>
    let (picked, a) := pickHexFile choice a
    if picked then nextScene sm .progress { a with op := some .flash } else some a
  | .verify =>
    let (picked, a) := pickHexFile choice a
    if picked then nextScene sm .progress { a with op := some .verify } else some a
  | .dump => nextScene sm .progress { a with op := some .dump }
  | .erase => nextScene sm .progress { a with op := some .chipErase }
  | .fuses => nextScene sm .progress { a with op := some .readFuses }
  | .settings => nextScene sm .settings a
  | .about => nextScene sm .about a

def progressOnCustom (event : ℕ) (a : UpdiProgApp ν σ) : Option (UpdiProgApp ν σ) :=
  if event = eventTick then some { a with screen := .popup a.prog.popupText }
  else if event = eventWorkerDone then do
    let a ← a.timerFree.workerJoin
    if a.result = .ok () ∧ a.op = some .connect then nextScene sm .deviceInfo a
    else if a.result = .ok () ∧ a.op = some .readFuses then nextScene sm .fuses a
    else nextScene sm .result a
  else some a

/-- A custom event in the scene on screen; `choice` is what the file browser
returns if it is opened. -/
def onCustom (event : ℕ) (choice : Option String) (a : UpdiProgApp ν σ) :
    Option (UpdiProgApp ν σ) :=
  match (a.scenes sm).head? with
  | some .start => (StartItem.ofIndex event).elim (some a) (startOnCustom sm · choice a)
  | some .progress => progressOnCustom sm event a
  | _ => some a

/-- The back key: the progress scene blocks it, the scenes that show an outcome go
to the start menu, and of the others the scene manager takes care. -/
def onBack (a : UpdiProgApp ν σ) : Option (UpdiProgApp ν σ) :=
  match (a.scenes sm).head? with
  | some .progress => some a
  | some .deviceInfo => searchPreviousScene sm .start a
  | some .result => searchPreviousScene sm .start a
  | some .fuses => searchPreviousScene sm .start a
  | _ => previousScene sm a

def settingsBaudChanged (index : ℕ) (a : UpdiProgApp ν σ) : Option (UpdiProgApp ν σ) :=
  baudValues[index]?.map fun baud ↦ { a with
    screen := .varItemList index
    baud := baud
    lineBaud := if a.work.app.transport.isSome then some baud else a.lineBaud }

variable (t : UpdiTransport σ)

/-- The device whose flash `op_dump` gets to write to a file. -/
def dumpedDevice (env : Env) (s : WorkerState σ) : Option UpdiDevice :=
  ((do
    Worker.doConnect t env false
    let dev ← Worker.sessionDevice
    if !env.malloc then Prog.fail (.status .param)
    else do
      let _ ← Worker.onSession (UpdiSession.readFlash t dev.flashSize)
      pure dev : WorkerM σ UpdiDevice) s).1.toOption

def dumpPath (d : UpdiDevice) : String := updiDumpDir ++ "/" ++ d.name ++ "_dump.hex"

/-- The worker thread runs its operation in the surroundings `env`, and the reports
and the status are still to be written. A transport is allocated with the baud
rate of that moment. -/
def runWorker (env : Env) (a : UpdiProgApp ν σ) : UpdiProgApp ν σ :=
  match a.op with
  | none => { a with worker := some (.running [] (.error (.status .param))) }
  | some op =>
    let (r, s) := Worker.runOpCb t env op ⟨a.work.app, a.work.ctx, []⟩
    { a with
      worker := some (.running s.ctx.2 r)
      work := ⟨s.app, s.ctx.1⟩
      lineBaud := if s.app.transport.isSome then some (a.lineBaud.getD a.baud) else none
      filePath := if op = .dump then (dumpedDevice t env a.work).elim a.filePath dumpPath else
        a.filePath }

/-- The next thing the worker thread does behind the lock, and its event. -/
def advanceWorker (a : UpdiProgApp ν σ) : Option (UpdiProgApp ν σ) :=
  match a.worker with
  | some (.running (p :: reports) r) =>
    some { a with prog := p, worker := some (.running reports r) }
  | some (.running [] (.ok _)) =>
    some { a with
      result := .ok ()
      prog := { a.prog with phase := .done }
      worker := some .finished }
  | some (.running [] (.error (.status e))) =>
    some { a with
      result := .error e
      prog := { a.prog with phase := .done }
      worker := some .finished }
  | some (.running [] (.error _)) => some { a with worker := some .crashed }
  | some .finished =>
    some { a with events := a.events ++ [eventWorkerDone], worker := some .returned }
  | _ => none

def alloc (c : σ) : UpdiProgApp ν σ where
  stack := sm.push .start sm.alloc
  running := true
  screen := .submenu
  events := []
  worker := none
  threads := 0
  timer := false
  timers := 0
  op := none
  result := .ok ()
  prog := .start
  baud := 115200
  lineBaud := none
  filePath := ""
  work := ⟨.alloc, c⟩

end UpdiProgApp

/-- What can happen next: the user presses a menu entry or the back key or changes
the baud rate, the GUI thread takes any of the events out, with what the file
browser returns if it opens, the timer fires, or the worker thread goes on. The
surroundings of an operation depend on the path of its file. -/
inductive Act
  | press (item : StartItem)
  | back
  | setBaud (index : ℕ)
  | dispatch (i : ℕ) (choice : Option String)
  | fire
  | run (world : String → Env)
  | advance

/-- What is seen of the app: the operation that is chosen, the surroundings that it
is run in, and the screen that shows its outcome. -/
inductive Seen
  | chose (op : Option UpdiOp)
  | met (env : Env)
  | showed (screen : Screen)

namespace UpdiProgApp

variable {ν σ : Type} (sm : SceneManager ν) (t : UpdiTransport σ)

/-- An event is seen in the change of scenes that it brings about. -/
def seenOf (a a' : UpdiProgApp ν σ) : List Seen :=
  if (a.scenes sm).head? ≠ some .progress ∧ (a'.scenes sm).head? = some .progress then
    [.chose a'.op]
  else if (a.scenes sm).head? = some .progress ∧ (a'.scenes sm).head? ≠ some .progress then
    [.showed a'.screen]
  else []

def step (act : Act) (a : UpdiProgApp ν σ) : Option (List Seen × UpdiProgApp ν σ) :=
  if a.worker = some .crashed then none
  else
    match act with
    | .press item =>
      if a.running ∧ a.screen = .submenu then
        some ([], { a with events := a.events ++ [item.index] }) else none
    | .back => if a.running then (onBack sm a).map fun a' ↦ (seenOf sm a a', a') else none
    | .setBaud index =>
      match a.running, a.screen with
      | true, .varItemList _ => (settingsBaudChanged index a).map fun a' ↦ ([], a')
      | _, _ => none
    | .dispatch i choice =>
      match a.running, a.events[i]? with
      | true, some event =>
        (onCustom sm event choice { a with events := a.events.eraseIdx i }).map fun a' ↦
          (seenOf sm a a', a')
      | _, _ => none
    | .fire => if a.timer then some ([], { a with events := a.events ++ [eventTick] }) else none
    | .run world =>
      if a.worker = some .started then
        some ([.met (world a.filePath)], a.runWorker t (world a.filePath)) else none
    | .advance => a.advanceWorker.map fun a' ↦ ([], a')

end UpdiProgApp

end UpdiProgrammer.Ui

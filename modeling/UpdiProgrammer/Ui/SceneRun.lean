import UpdiProgrammer.Ui.Outcome
import UpdiProgrammer.Ui.ProgressRun
import Mathlib.Data.List.Perm.Basic

namespace UpdiProgrammer.Ui

open Updi Library.Program Library.Transition

/-- One operation after the other: nothing is asked for, an operation is, or it is
done and its outcome is still to be shown. -/
inductive Stage (W : Type)
  | idle (w : W)
  | asked (op : UpdiOp) (w : W)
  | answered (op : UpdiOp) (r : Except Halt Unit) (w : W)

def Stage.state {W : Type} : Stage W → W
  | .idle w => w
  | .asked _ w => w
  | .answered _ _ w => w

inductive TurnAct
  | ask (op : UpdiOp)
  | answer (env : Env)
  | tell

/-- The app as it would be without threads: it takes turns with its user. -/
def turn {W : Type} (perform : UpdiOp × Env → W → Except Halt Unit × W)
    (screen : UpdiOp → UpdiStatus → W → Screen) :
    TurnAct → Stage W → Option (List Seen × Stage W)
  | .ask op, .idle w => some ([.chose (some op)], .asked op w)
  | .answer env, .asked op w =>
    some ([.met env], .answered op (perform (op, env) w).1 (perform (op, env) w).2)
  | .tell, .answered op r w => (statusOf r).map fun st ↦ ([.showed (screen op st w)], .idle w)
  | _, _ => none

def idleScenes : List (List Scene) :=
  [[.start], [.settings, .start], [.about, .start], [.deviceInfo, .progress, .start],
    [.fuses, .progress, .start], [.result, .progress, .start]]

namespace UpdiProgApp

variable {ν σ : Type} {sm : SceneManager ν} {t : UpdiTransport σ} {a a' : UpdiProgApp ν σ}
  {scene : Scene}

/-- The number of events of a finished worker that are still to be dispatched. -/
def pending (a : UpdiProgApp ν σ) : ℕ := a.events.count eventWorkerDone

/-- Between operations there is no worker thread, no timer and no event of one. -/
structure Idle (sm : SceneManager ν) (a : UpdiProgApp ν σ) : Prop where
  place : a.scenes sm ∈ if a.running then idleScenes else [[]]
  worker : a.worker = none
  threads : a.threads = 0
  timer : a.timer = false
  timers : a.timers = 0
  pending : a.pending = 0

/-- During an operation the progress scene is on screen, with one worker thread and
one timer, and with one event of the worker once it has returned. -/
structure Busy (sm : SceneManager ν) (a : UpdiProgApp ν σ) : Prop where
  running : a.running = true
  place : a.scenes sm = [.progress, .start]
  screen : ∃ text, a.screen = .popup text
  worker : a.worker.isSome
  threads : a.threads = 1
  timer : a.timer = true
  timers : a.timers = 1
  pending : a.pending = if a.worker = some .returned then 1 else 0

/-- What a worker thread that has run its operation still holds of the status `r`. -/
inductive Holds (r : Except Halt Unit) (result : UpdiStatus) : WorkerThread → Prop
  | running (reports : List Progress) : Holds r result (.running reports r)
  | finished (h : statusOf r = some result) : Holds r result .finished
  | returned (h : statusOf r = some result) : Holds r result .returned
  | crashed (h : statusOf r = none) : Holds r result .crashed

/-- The threads of the app keep pace with the turns. -/
inductive Paced (sm : SceneManager ν) (a : UpdiProgApp ν σ) : Stage (WorkerState σ) → Prop
  | idle (h : Idle sm a) : Paced sm a (.idle a.work)
  | asked (op : UpdiOp) (h : Busy sm a) (hop : a.op = some op)
      (hworker : a.worker = some .started) :
      Paced sm a (.asked op a.work)
  | answered (op : UpdiOp) (r : Except Halt Unit) (th : WorkerThread) (h : Busy sm a)
      (hop : a.op = some op) (hworker : a.worker = some th) (hheld : Holds r a.result th)
      (hpath : op = .dump → r = .ok () → a.filePath = a.work.app.session.device.elim "" dumpPath) :
      Paced sm a (.answered op r a.work)

/-- What the handlers of the scenes leave to the worker and the settings. -/
def held (a : UpdiProgApp ν σ) : WorkerState σ × ℕ × Option ℕ := (a.work, a.baud, a.lineBaud)

section Frame

theorem held_onEnter (scene : Scene) (a : UpdiProgApp ν σ) : (onEnter scene a).held = a.held := by
  cases scene <;> rfl

theorem held_timerFree (a : UpdiProgApp ν σ) : a.timerFree.held = a.held := by
  unfold timerFree
  split_ifs <;> rfl

theorem held_workerJoin (h : a.workerJoin = some a') : a'.held = a.held := by
  unfold workerJoin at h
  split at h
  · cases h
    rfl
  · cases h
    rfl
  · cases h

theorem held_onExit (h : onExit scene a = some a') : a'.held = a.held := by
  cases scene with
  | progress => exact (held_workerJoin h).trans (held_timerFree a)
  | start | deviceInfo | result | fuses | settings | about =>
    cases h
    rfl

theorem held_leave (h : (a.scenes sm).head?.elim (some a) (onExit · a) = some a') :
    a'.held = a.held := by
  cases htop : (a.scenes sm).head? with
  | none =>
    rw [htop] at h
    cases h
    rfl
  | some top =>
    rw [htop] at h
    exact held_onExit h

theorem held_nextScene (h : nextScene sm scene a = some a') : a'.held = a.held := by
  obtain ⟨⟨stack, b⟩, hcall, hb⟩ := Option.map_eq_some_iff.mp h
  rw [sm.nextScene_runs] at hcall
  obtain ⟨c, hexit, hc⟩ := Option.map_eq_some_iff.mp hcall
  cases hb
  cases hc
  exact (held_onEnter scene c).trans (held_leave hexit)

theorem held_previousScene (h : previousScene sm a = some a') : a'.held = a.held := by
  obtain ⟨⟨found, stack, b⟩, hcall, hb⟩ := Option.map_eq_some_iff.mp h
  rw [sm.previousScene_runs] at hcall
  cases hb
  cases htop : (sm.scenes a.stack).head? with
  | none =>
    rw [htop] at hcall
    cases hcall
    rfl
  | some top =>
    rw [htop] at hcall
    obtain ⟨c, hexit, hc⟩ := Option.map_eq_some_iff.mp hcall
    have hheld := held_onExit hexit
    cases hbelow : (sm.scenes a.stack).tail.head? with
    | none =>
      rw [hbelow] at hc
      cases hc
      exact hheld
    | some below =>
      rw [hbelow] at hc
      cases hc
      exact (held_onEnter below c).trans hheld

theorem held_searchPreviousScene (h : searchPreviousScene sm scene a = some a') :
    a'.held = a.held := by
  obtain ⟨⟨found, stack, b⟩, hcall, hb⟩ := Option.map_eq_some_iff.mp h
  rw [sm.searchPreviousScene_runs] at hcall
  cases hb
  cases hsearch : sm.search scene a.stack with
  | none =>
    rw [hsearch] at hcall
    cases hcall
    rfl
  | some found =>
    rw [hsearch] at hcall
    obtain ⟨c, hexit, hc⟩ := Option.map_eq_some_iff.mp hcall
    cases hc
    exact (held_onEnter scene c).trans (held_leave hexit)

theorem held_onBack (h : onBack sm a = some a') : a'.held = a.held := by
  unfold onBack at h
  split at h
  · cases h
    rfl
  · exact held_searchPreviousScene h
  · exact held_searchPreviousScene h
  · exact held_searchPreviousScene h
  · exact held_previousScene h

theorem held_startOnCustom {item : StartItem} {choice : Option String}
    (h : startOnCustom sm item choice a = some a') :
    a'.held = a.held := by
  have hpick {op : UpdiOp} (h : (if choice.isSome then
      nextScene sm .progress { a with filePath := choice.getD "/ext", op := some op }
      else some { a with filePath := choice.getD "/ext" }) = some a') : a'.held = a.held := by
    split_ifs at h
    · have hheld := held_nextScene h
      exact hheld
    · cases h
      rfl
  cases item with
  | flash | verify => exact hpick h
  | connect | dump | erase | fuses | settings | about =>
    have hheld := held_nextScene h
    exact hheld

theorem held_progressOnCustom {event : ℕ} (h : progressOnCustom sm event a = some a') :
    a'.held = a.held := by
  unfold progressOnCustom at h
  split_ifs at h
  · cases h
    rfl
  · obtain ⟨b, hjoin, hb⟩ := Option.bind_eq_some_iff.mp h
    have hheld := (held_workerJoin hjoin).trans (held_timerFree a)
    split_ifs at hb <;> exact (held_nextScene hb).trans hheld
  · cases h
    rfl

theorem held_onCustom {event : ℕ} {choice : Option String}
    (h : onCustom sm event choice a = some a') :
    a'.held = a.held := by
  unfold onCustom at h
  split at h
  · cases hitem : StartItem.ofIndex event with
    | none =>
      rw [hitem] at h
      cases h
      rfl
    | some item =>
      rw [hitem] at h
      exact held_startOnCustom h
  · exact held_progressOnCustom h
  · cases h
    rfl

end Frame

section Handlers

theorem onExit_idle (hworker : a.worker = none) (htimer : a.timer = false) (scene : Scene) :
    onExit scene a = some a := by
  cases scene <;> simp [onExit, timerFree, workerJoin, hworker, htimer]

theorem leave_idle (hworker : a.worker = none) (htimer : a.timer = false) (top : Option Scene) :
    top.elim (some a) (onExit · a) = some a := by
  cases top with
  | none => rfl
  | some top => exact onExit_idle hworker htimer top

theorem onEnter_stack (scene : Scene) (stack : ν) (a : UpdiProgApp ν σ) :
    { onEnter scene a with stack := stack } = onEnter scene { a with stack := stack } := by
  cases scene <;> rfl

theorem nextScene_idle (hworker : a.worker = none) (htimer : a.timer = false) (scene : Scene) :
    nextScene sm scene a = some (onEnter scene { a with stack := sm.push scene a.stack }) := by
  rw [← onEnter_stack, nextScene, sm.nextScene_runs, leave_idle hworker htimer]
  rfl

theorem Idle.head_ne (h : Idle sm a) : (a.scenes sm).head? ≠ some .progress := by
  have hall : ∀ running : Bool, ∀ l ∈ if running then idleScenes else [[]],
      l.head? ≠ some .progress := by decide
  exact hall a.running _ h.place

theorem Idle.mem (h : Idle sm a) (hrun : a.running = true) : a.scenes sm ∈ idleScenes := by
  have hplace := h.place
  rwa [hrun, if_pos rfl] at hplace

theorem onEnter_of_ne (hscene : scene ≠ .progress) (a : UpdiProgApp ν σ) :
    ∃ screen, onEnter scene a = { a with screen := screen } := by
  cases scene with
  | progress => exact absurd rfl hscene
  | start | deviceInfo | result | fuses | settings | about => exact ⟨_, rfl⟩

theorem Idle.entered (h : Idle sm a) (hscene : scene ≠ .progress) : Idle sm (onEnter scene a) := by
  obtain ⟨screen, hscreen⟩ := onEnter_of_ne hscene a
  rw [hscreen]
  exact ⟨h.place, h.worker, h.threads, h.timer, h.timers, h.pending⟩

theorem Idle.enter (h : Idle sm a) (hrun : a.running = true) (hscene : scene ≠ .progress)
    {stack : ν} (hplace : sm.scenes stack ∈ idleScenes) :
    Idle sm (onEnter scene { a with stack := stack }) := by
  refine Idle.entered ⟨?_, h.worker, h.threads, h.timer, h.timers, h.pending⟩ hscene
  rw [hrun, if_pos rfl]
  exact hplace

theorem Idle.start (h : Idle sm a) (hrun : a.running = true) (hstart : a.scenes sm = [.start])
    (op : UpdiOp) :
    Busy sm (onEnter .progress { a with op := some op, stack := sm.push .progress a.stack }) ∧
      (onEnter .progress { a with op := some op, stack := sm.push .progress a.stack }).op =
        some op ∧
      (onEnter .progress { a with op := some op, stack := sm.push .progress a.stack }).worker =
        some .started := by
  refine ⟨⟨hrun, ?_, ⟨_, rfl⟩, rfl, ?_, rfl, ?_, h.pending⟩, rfl, rfl⟩
  · exact (sm.scenes_push _ _).trans (congrArg _ hstart)
  · exact congrArg (· + 1) h.threads
  · exact congrArg (· + 1) h.timers

theorem pending_eraseIdx {i event : ℕ} (hi : a.events[i]? = some event) :
    a.pending = { a with events := a.events.eraseIdx i }.pending + if event = eventWorkerDone then
      1 else 0 := by
  obtain ⟨hlt, hget⟩ := List.getElem?_eq_some_iff.mp hi
  have hperm := (List.getElem_cons_eraseIdx_perm hlt).count_eq eventWorkerDone
  rw [hget, List.count_cons] at hperm
  simpa [pending] using hperm.symm

theorem Idle.erase (h : Idle sm a) {i event : ℕ} (hi : a.events[i]? = some event) :
    Idle sm { a with events := a.events.eraseIdx i } := by
  have hpending := pending_eraseIdx hi
  have hnone := h.pending
  exact ⟨h.place, h.worker, h.threads, h.timer, h.timers, by omega⟩

theorem pending_append (event : ℕ) : { a with events := a.events ++ [event] }.pending =
    a.pending + if event = eventWorkerDone then 1 else 0 := by
  simp [pending, List.count_append, List.count_singleton]

theorem previousScene_idle (hworker : a.worker = none) (htimer : a.timer = false)
    {below : List Scene} (hscenes : a.scenes sm = scene :: below) :
    previousScene sm a = some (below.head?.elim
      { a with stack := sm.pop a.stack, running := false }
        (onEnter · { a with stack := sm.pop a.stack })) := by
  have htop : sm.scenes a.stack = scene :: below := hscenes
  rw [previousScene, sm.previousScene_runs, htop, List.head?_cons, Option.elim_some,
    onExit_idle hworker htimer, List.tail_cons]
  cases below with
  | nil => rfl
  | cons next below =>
    refine congrArg some ?_
    rw [List.head?_cons, Option.elim_some, ← onEnter_stack]
    cases next <;> rfl

theorem searchPreviousScene_idle (hworker : a.worker = none)
    (htimer : a.timer = false) {top : Scene}
    {below : List Scene} (hscenes : a.scenes sm = top :: below) (hmem : scene ∈ below) :
    ∃ stack, sm.scenes stack = below.dropWhile (· ≠ scene) ∧
      searchPreviousScene sm scene a = some (onEnter scene { a with stack := stack }) := by
  have hsearch := sm.scenes_search scene a.stack
  have htail : (sm.scenes a.stack).tail = below := congrArg List.tail hscenes
  rw [htail, if_pos hmem] at hsearch
  obtain ⟨stack, hfound, hstack⟩ := Option.map_eq_some_iff.mp hsearch
  refine ⟨stack, hstack, ?_⟩
  rw [← onEnter_stack, searchPreviousScene, sm.searchPreviousScene_runs, hfound, Option.elim_some,
    leave_idle hworker htimer]
  rfl

/-- What the menu can make of the app between operations: another scene between
operations, or an operation that is to be run. -/
def Chosen (sm : SceneManager ν) (a : UpdiProgApp ν σ) : Prop :=
  Idle sm a ∨ ∃ op, Busy sm a ∧ a.op = some op ∧ a.worker = some .started

theorem Idle.progress (h : Idle sm a) (hrun : a.running = true) (hstart : a.scenes sm = [.start])
    (op : UpdiOp) (hstep : nextScene sm .progress { a with op := some op } = some a') :
    Chosen sm a' := by
  rw [nextScene_idle (a := { a with op := some op }) h.worker h.timer] at hstep
  cases hstep
  exact .inr ⟨op, h.start hrun hstart op⟩

theorem Idle.menu (h : Idle sm a) (hrun : a.running = true) (hstart : a.scenes sm = [.start])
    {item : StartItem} {choice : Option String} (hstep : startOnCustom sm item choice a = some a') :
    Chosen sm a' := by
  have henter {scene : Scene} (hscene : scene ≠ .progress) (hplace : [scene, .start] ∈ idleScenes)
      (hstep : nextScene sm scene a = some a') : Chosen sm a' := by
    rw [nextScene_idle h.worker h.timer] at hstep
    cases hstep
    refine .inl (h.enter hrun hscene ?_)
    rw [sm.scenes_push]
    exact (congrArg (scene :: · ∈ idleScenes) hstart).mpr hplace
  have hpicked : Idle sm { a with filePath := choice.getD "/ext" } :=
    ⟨h.place, h.worker, h.threads, h.timer, h.timers, h.pending⟩
  have hpick (op : UpdiOp) (hstep : (if choice.isSome then
      nextScene sm .progress { a with filePath := choice.getD "/ext", op := some op }
      else some { a with filePath := choice.getD "/ext" }) = some a') : Chosen sm a' := by
    split_ifs at hstep
    · exact hpicked.progress hrun hstart op hstep
    · cases hstep
      exact .inl hpicked
  cases item with
  | connect | dump | erase | fuses => exact h.progress hrun hstart _ hstep
  | flash | verify => exact hpick _ hstep
  | settings | about => exact henter (by decide) (by decide) hstep

theorem Idle.custom (h : Idle sm a) (hrun : a.running = true) {event : ℕ} {choice : Option String}
    (hstep : onCustom sm event choice a = some a') : Chosen sm a' := by
  have hsame (hstep : some a = some a') : Chosen sm a' := by
    cases hstep
    exact .inl h
  have hmem := h.mem hrun
  unfold onCustom at hstep
  simp only [idleScenes, List.mem_cons, List.not_mem_nil, or_false] at hmem
  rcases hmem with hscenes | hscenes | hscenes | hscenes | hscenes | hscenes <;>
    rw [hscenes] at hstep
  · cases hitem : StartItem.ofIndex event with
    | none =>
      rw [hitem] at hstep
      exact hsame hstep
    | some item =>
      rw [hitem] at hstep
      exact h.menu hrun hscenes hstep
  all_goals exact hsame hstep

theorem Idle.back (h : Idle sm a) (hrun : a.running = true) (hstep : onBack sm a = some a') :
    Idle sm a' := by
  have hne : Scene.start ≠ .progress := by decide
  have hbelow : Scene.start ∈ [Scene.progress, .start] := by decide
  have hback {scene : Scene} (hplace : a.scenes sm = [scene, .start])
      (hstep : previousScene sm a = some a') :
      Idle sm a' := by
    rw [previousScene_idle h.worker h.timer hplace] at hstep
    cases hstep
    refine h.enter hrun hne ?_
    rw [sm.scenes_pop]
    exact (congrArg (List.tail · ∈ idleScenes) hplace).mpr List.mem_cons_self
  have hhome {scene : Scene} (hplace : a.scenes sm = [scene, .progress, .start])
      (hstep : searchPreviousScene sm .start a = some a') : Idle sm a' := by
    obtain ⟨stack, hstack, hsearch⟩ := searchPreviousScene_idle h.worker h.timer hplace hbelow
    rw [hsearch] at hstep
    cases hstep
    refine h.enter hrun hne ?_
    rw [hstack]
    decide
  have hmem := h.mem hrun
  unfold onBack at hstep
  simp only [idleScenes, List.mem_cons, List.not_mem_nil, or_false] at hmem
  rcases hmem with hscenes | hscenes | hscenes | hscenes | hscenes | hscenes <;>
    rw [hscenes] at hstep
  · have hleave : previousScene sm a = some a' := hstep
    rw [previousScene_idle h.worker h.timer hscenes] at hleave
    cases hleave
    refine ⟨?_, h.worker, h.threads, h.timer, h.timers, h.pending⟩
    have hempty : sm.scenes (sm.pop a.stack) = [] :=
      (sm.scenes_pop _).trans (congrArg List.tail hscenes)
    exact List.mem_singleton.mpr hempty
  · exact hback hscenes hstep
  · exact hback hscenes hstep
  all_goals exact hhome hscenes hstep

def finishScreen (a : UpdiProgApp ν σ) : Screen :=
  if a.result = .ok () ∧ a.op = some .connect then deviceInfoScreen a.work.app.session
  else if a.result = .ok () ∧ a.op = some .readFuses then fusesScreen a.work.app
  else resultScreen a.op a.result a.work.app.verifyMismatch a.filePath

theorem Busy.returned (h : Busy sm a) {i : ℕ} (hi : a.events[i]? = some eventWorkerDone) :
    a.worker = some .returned ∧ { a with events := a.events.eraseIdx i }.pending = 0 := by
  have hpending := pending_eraseIdx hi
  have hcount := h.pending
  rw [if_pos rfl] at hpending
  split_ifs at hcount with hreturned
  · exact ⟨hreturned, by omega⟩
  · omega

theorem Busy.done (h : Busy sm a) {i : ℕ} (hi : a.events[i]? = some eventWorkerDone) :
    a.worker = some .returned ∧ ∃ b, Idle sm b ∧ b.screen = finishScreen a ∧
      progressOnCustom sm eventWorkerDone { a with events := a.events.eraseIdx i } = some b := by
  obtain ⟨hreturned, hpending⟩ := h.returned hi
  let freed : UpdiProgApp ν σ := { a with
    events := a.events.eraseIdx i, timer := false, timers := a.timers - 1, worker :=
      none, threads := a.threads - 1 }
  have hjoin : ({ a with events := a.events.eraseIdx i } : UpdiProgApp ν σ).timerFree.workerJoin =
      some freed := by
    simp only [timerFree, h.timer, workerJoin, hreturned, if_true, freed]
  have hthreads : a.threads - 1 = 0 := by rw [h.threads]
  have htimers : a.timers - 1 = 0 := by rw [h.timers]
  have hleave {scene : Scene} (hscene : scene ≠ .progress)
      (hplace : [scene, .progress, .start] ∈ idleScenes) :
      Idle sm (onEnter scene { freed with stack := sm.push scene a.stack }) ∧
        nextScene sm scene freed =
          some (onEnter scene { freed with stack := sm.push scene a.stack }) := by
    have hpushed : Idle sm { freed with stack := sm.push scene a.stack } := by
      refine ⟨?_, rfl, hthreads, rfl, htimers, hpending⟩
      have hscenes : sm.scenes (sm.push scene a.stack) = [scene, .progress, .start] :=
        (sm.scenes_push _ _).trans (congrArg _ h.place)
      have hrun : freed.running = true := h.running
      rw [hrun, if_pos rfl]
      exact (congrArg (· ∈ idleScenes) hscenes).mpr hplace
    exact ⟨hpushed.entered hscene, nextScene_idle rfl rfl scene⟩
  refine ⟨hreturned, ?_⟩
  have hne : eventWorkerDone ≠ eventTick := by decide
  unfold progressOnCustom finishScreen
  rw [if_neg hne, if_pos rfl, hjoin, Option.bind_eq_bind, Option.bind_some]
  have hresult : freed.result = a.result := rfl
  have hop : freed.op = a.op := rfl
  rw [hresult, hop]
  split_ifs with hconnect hfuses
  · exact ⟨_, (hleave (by decide) (by decide)).1, rfl, (hleave (by decide) (by decide)).2⟩
  · exact ⟨_, (hleave (by decide) (by decide)).1, rfl, (hleave (by decide) (by decide)).2⟩
  · exact ⟨_, (hleave (by decide) (by decide)).1, rfl, (hleave (by decide) (by decide)).2⟩

theorem Busy.waits (h : Busy sm a) {i event : ℕ} (hevent : event ≠ eventWorkerDone) :
    ∃ text, progressOnCustom sm event { a with events := a.events.eraseIdx i } =
      some { a with events := a.events.eraseIdx i, screen := .popup text } := by
  unfold progressOnCustom
  rw [if_neg hevent]
  split_ifs
  · exact ⟨_, rfl⟩
  · obtain ⟨text, htext⟩ := h.screen
    exact ⟨text, by rw [← htext]⟩

theorem Busy.head (h : Busy sm a) : (a.scenes sm).head? = some .progress :=
  congrArg List.head? h.place

end Handlers

section Step

variable (t : UpdiTransport σ)

/-- The app without threads over the worker's operations. -/
abbrev turnStep : TurnAct → Stage (WorkerState σ) → Option (List Seen × Stage (WorkerState σ)) :=
  turn (fun op ↦ Worker.runOp t op.2 op.1) fun op r w ↦ outcomeScreen op r w.app

variable {t} {st : Stage (WorkerState σ)} {out : List Seen}

/-- Everything that can happen to the app in one step. -/
inductive Happens (sm : SceneManager ν) (t : UpdiTransport σ) (a : UpdiProgApp ν σ) :
    List Seen → UpdiProgApp ν σ → Prop
  | press (item : StartItem) (hrun : a.running = true) (hscreen : a.screen = .submenu) :
      Happens sm t a [] { a with events := a.events ++ [item.index] }
  | back {a' : UpdiProgApp ν σ} (hrun : a.running = true) (h : onBack sm a = some a') :
      Happens sm t a (seenOf sm a a') a'
  | setBaud {index baud shown : ℕ} (hscreen : a.screen = .varItemList shown)
      (h : baudValues[index]? = some baud) :
      Happens sm t a [] { a with
        screen := .varItemList index
        baud := baud
        lineBaud := if a.work.app.transport.isSome then some baud else a.lineBaud }
  | dispatch {i event : ℕ} {choice : Option String} {a' : UpdiProgApp ν σ} (hrun : a.running = true)
      (hi : a.events[i]? = some event)
        (h : onCustom sm event choice { a with events := a.events.eraseIdx i } = some a') :
      Happens sm t a (seenOf sm a a') a'
  | fire (h : a.timer = true) : Happens sm t a [] { a with events := a.events ++ [eventTick] }
  | run (env : Env) (h : a.worker = some .started) : Happens sm t a [.met env] (a.runWorker t env)
  | advance {a' : UpdiProgApp ν σ} (h : a.advanceWorker = some a') : Happens sm t a [] a'

theorem happens_of_step {act : Act} (h : step sm t act a = some (out, a')) :
    Happens sm t a out a' := by
  unfold step at h
  by_cases hcrashed : a.worker = some .crashed
  · rw [if_pos hcrashed] at h
    cases h
  rw [if_neg hcrashed] at h
  cases act with
  | press item =>
    dsimp only at h
    split_ifs at h with hpress
    cases h
    exact .press item hpress.1 hpress.2
  | back =>
    dsimp only at h
    split_ifs at h with hrun
    obtain ⟨b, hback, heq⟩ := Option.map_eq_some_iff.mp h
    cases heq
    exact .back hrun hback
  | setBaud index =>
    dsimp only at h
    split at h
    · obtain ⟨b, hset, heq⟩ := Option.map_eq_some_iff.mp h
      obtain ⟨baud, hbaud, rfl⟩ := Option.map_eq_some_iff.mp hset
      cases heq
      exact .setBaud ‹_› hbaud
    · cases h
  | dispatch i choice =>
    dsimp only at h
    split at h
    · obtain ⟨b, hcustom, heq⟩ := Option.map_eq_some_iff.mp h
      cases heq
      exact .dispatch ‹_› ‹_› hcustom
    · cases h
  | fire =>
    dsimp only at h
    split_ifs at h with htimer
    cases h
    exact .fire htimer
  | run world =>
    dsimp only at h
    split_ifs at h with hstarted
    cases h
    exact .run _ hstarted
  | advance =>
    obtain ⟨b, hadvance, heq⟩ := Option.map_eq_some_iff.mp h
    cases heq
    exact .advance hadvance

/-- Where a step has come to: what is seen of it is what the turns show. -/
def Keeps (sm : SceneManager ν) (t : UpdiTransport σ) (st : Stage (WorkerState σ)) (out : List Seen)
    (a : UpdiProgApp ν σ) : Prop := ∃ st', Run (turnStep t) st out st' ∧ Paced sm a st'

theorem Idle.keeps (h : Idle sm a) (hwork : a'.work = a.work) (hchosen : Chosen sm a') :
    Keeps sm t (.idle a.work) (seenOf sm a a') a' := by
  rcases hchosen with hidle | ⟨op, hbusy, hop, hworker⟩
  · have hseen : seenOf sm a a' = [] := by simp [seenOf, h.head_ne, hidle.head_ne]
    rw [hseen, ← hwork]
    exact ⟨_, .start, .idle hidle⟩
  · have hseen : seenOf sm a a' = [.chose (some op)] := by simp [seenOf, h.head_ne, hbusy.head, hop]
    rw [hseen, ← hwork]
    exact ⟨_, .single (l := .ask op) rfl, .asked op hbusy hop hworker⟩

theorem Idle.step (h : Idle sm a) (hstep : Happens sm t a out a') :
    Keeps sm t (.idle a.work) out a' := by
  have hstay {b : UpdiProgApp ν σ} (hidle : Idle sm b) (hwork : b.work = a.work) :
      Keeps sm t (.idle a.work) [] b := by
    rw [← hwork]
    exact ⟨_, .start, .idle hidle⟩
  cases hstep with
  | press item hrun hscreen =>
    have hpending := pending_append (a := a) item.index
    have hitem : item.index ≠ eventWorkerDone := by cases item <;> decide
    rw [if_neg hitem, h.pending] at hpending
    exact hstay ⟨h.place, h.worker, h.threads, h.timer, h.timers, hpending⟩ rfl
  | back hrun hback =>
    exact h.keeps (congrArg Prod.fst (held_onBack hback)) (.inl (h.back hrun hback))
  | setBaud hscreen hbaud =>
    exact hstay ⟨h.place, h.worker, h.threads, h.timer, h.timers, h.pending⟩ rfl
  | dispatch hrun hi hcustom =>
    exact (h.erase hi).keeps (congrArg Prod.fst (held_onCustom hcustom))
      ((h.erase hi).custom hrun hcustom)
  | fire htimer =>
    rw [h.timer] at htimer
    cases htimer
  | run env hstarted =>
    rw [h.worker] at hstarted
    cases hstarted
  | advance hadvance =>
    unfold advanceWorker at hadvance
    rw [h.worker] at hadvance
    cases hadvance

/-- The operation, its thread and what it has come to are the same. -/
structure SameOp (a a' : UpdiProgApp ν σ) : Prop where
  work : a'.work = a.work
  op : a'.op = a.op
  worker : a'.worker = a.worker
  result : a'.result = a.result
  filePath : a'.filePath = a.filePath

/-- During an operation only its thread and the event of that make a difference. -/
theorem Busy.cases_step (h : Busy sm a) (hstep : Happens sm t a out a') :
    (out = [] ∧ Busy sm a' ∧ SameOp a a') ∨
      (out = [.showed (finishScreen a)] ∧ a.worker = some .returned ∧ Idle sm a' ∧
        a'.work = a.work) ∨
      (∃ env, out = [.met env] ∧ a.worker = some .started ∧ a' = a.runWorker t env) ∨
      (out = [] ∧ a.advanceWorker = some a') := by
  obtain ⟨text, htext⟩ := h.screen
  have hseen (hbusy : Busy sm a') : seenOf sm a a' = [] := by simp [seenOf, h.head, hbusy.head]
  cases hstep with
  | press item hrun hscreen =>
    rw [htext] at hscreen
    cases hscreen
  | setBaud hscreen hbaud =>
    rw [htext] at hscreen
    cases hscreen
  | back hrun hback =>
    unfold onBack at hback
    rw [h.head] at hback
    cases hback
    exact .inl ⟨hseen h, h, rfl, rfl, rfl, rfl, rfl⟩
  | @dispatch i event choice _ hrun hi hcustom =>
    have hprogress :
        progressOnCustom sm event { a with events := a.events.eraseIdx i } = some a' := by
      unfold onCustom at hcustom
      have hhead := h.head
      unfold scenes at hhead hcustom
      rw [hhead] at hcustom
      exact hcustom
    by_cases hevent : event = eventWorkerDone
    · subst hevent
      obtain ⟨hreturned, b, hidle, hscreen, hdone⟩ := h.done hi
      obtain rfl : b = a' := Option.some.inj (hdone.symm.trans hprogress)
      have hheld := held_progressOnCustom hprogress
      refine .inr (.inl ⟨?_, hreturned, hidle, congrArg Prod.fst hheld⟩)
      simp [seenOf, h.head, hidle.head_ne, hscreen]
    · obtain ⟨text', hwaits⟩ := h.waits (i := i) hevent
      rw [hwaits] at hprogress
      cases hprogress
      have hpending := pending_eraseIdx hi
      rw [if_neg hevent, h.pending] at hpending
      have hbusy : Busy sm { a with events := a.events.eraseIdx i, screen := .popup text' } :=
        ⟨h.running, h.place, ⟨text', rfl⟩, h.worker, h.threads, h.timer, h.timers, hpending.symm⟩
      exact .inl ⟨hseen hbusy, hbusy, rfl, rfl, rfl, rfl, rfl⟩
  | fire htimer =>
    have hpending := pending_append (a := a) eventTick
    have hne : eventTick ≠ eventWorkerDone := by decide
    rw [if_neg hne, h.pending] at hpending
    have hbusy : Busy sm { a with events := a.events ++ [eventTick] } :=
      ⟨h.running, h.place, h.screen, h.worker, h.threads, h.timer, h.timers, hpending⟩
    exact .inl ⟨rfl, hbusy, rfl, rfl, rfl, rfl, rfl⟩
  | run env hstarted => exact .inr (.inr (.inl ⟨env, rfl, hstarted, rfl⟩))
  | advance hadvance => exact .inr (.inr (.inr ⟨rfl, hadvance⟩))

/-- A worker thread that runs its operation leaves of it what a call of the
operation leaves, and the path of a dump that ended well. -/
theorem runWorker_eq (t : UpdiTransport σ) (env : Env) {op : UpdiOp} (hop : a.op = some op) :
    ∃ reports path, a.runWorker t env = { a with
        worker := some (.running reports (Worker.runOp t env op a.work).1)
        work := (Worker.runOp t env op a.work).2
        lineBaud := if (Worker.runOp t env op a.work).2.app.transport.isSome then
          some (a.lineBaud.getD a.baud) else none
        filePath := path } ∧
      (op = .dump → (Worker.runOp t env op a.work).1 = .ok () →
        path = (Worker.runOp t env op a.work).2.app.session.device.elim "" dumpPath) := by
  obtain ⟨hsame, happ, r, hctx⟩ :=
    @Worker.erases_runOp σ t env op a.work ⟨a.work.app, a.work.ctx, []⟩ ⟨rfl, [], rfl⟩
  refine ⟨(Worker.runOpCb t env op ⟨a.work.app, a.work.ctx, []⟩).2.ctx.2,
    if op = .dump then (dumpedDevice t env a.work).elim a.filePath dumpPath else a.filePath, ?_,
      fun hdump hok ↦ ?_⟩
  · have hwork : (⟨(Worker.runOpCb t env op ⟨a.work.app, a.work.ctx, []⟩).2.app,
        (Worker.runOpCb t env op ⟨a.work.app, a.work.ctx, []⟩).2.ctx.1⟩ : WorkerState σ) =
        (Worker.runOp t env op a.work).2 := by rw [← happ, hctx]
    unfold runWorker
    rw [hop, hsame, ← hwork]
  · subst hdump
    obtain ⟨d, -, hd⟩ := Worker.known_of_ok hok
    have hdevice := Worker.dumpedDevice_of_ok hok
    have hsession : (Worker.runOp t env .dump a.work).2.app.session.device = some d :=
      congrArg Prod.fst hd
    rw [hd] at hdevice
    rw [if_pos rfl, hdevice, hsession]
    rfl

theorem Busy.ran (h : Busy sm a) (hworker : a.worker = some .started) (reports : List Progress)
    (r : Except Halt Unit) (work : WorkerState σ) (line : Option ℕ) (path : String) :
    Busy sm { a with
      worker := some (.running reports r), work := work, lineBaud := line, filePath := path } := by
  have hpending := h.pending
  rw [hworker] at hpending
  exact ⟨h.running, h.place, h.screen, rfl, h.threads, h.timer, h.timers, hpending⟩

theorem Busy.advance (h : Busy sm a) {r : Except Halt Unit} {th : WorkerThread}
    (hworker : a.worker = some th)
    (hheld : Holds r a.result th) (hstep : a.advanceWorker = some a') : ∃ th', Busy sm a' ∧
      a'.worker = some th' ∧
      Holds r a'.result th' ∧ a'.op = a.op ∧ a'.work = a.work ∧ a'.filePath = a.filePath := by
  have hpending := h.pending
  unfold advanceWorker at hstep
  rw [hworker] at hstep hpending
  cases hheld with
  | running reports =>
    have hnone : a.pending = 0 := hpending
    cases reports with
    | cons p reports =>
      cases hstep
      exact ⟨_, ⟨h.running, h.place, h.screen, rfl, h.threads, h.timer, h.timers, hnone⟩, rfl,
        .running _, rfl, rfl, rfl⟩
    | nil =>
      cases r with
      | ok u =>
        cases hstep
        exact ⟨_, ⟨h.running, h.place, h.screen, rfl, h.threads, h.timer, h.timers, hnone⟩, rfl,
          .finished rfl, rfl, rfl,
          rfl⟩
      | error e =>
        cases e with
        | status e =>
          cases hstep
          exact ⟨_, ⟨h.running, h.place, h.screen, rfl, h.threads, h.timer, h.timers, hnone⟩, rfl,
            .finished rfl, rfl,
            rfl, rfl⟩
        | nullDevice | nullTransport =>
          cases hstep
          exact ⟨_, ⟨h.running, h.place, h.screen, rfl, h.threads, h.timer, h.timers, hnone⟩, rfl,
            .crashed rfl, rfl,
            rfl, rfl⟩
  | finished hstatus =>
    cases hstep
    have hsent := pending_append (a := a) eventWorkerDone
    rw [if_pos rfl, hpending] at hsent
    exact ⟨_, ⟨h.running, h.place, h.screen, rfl, h.threads, h.timer, h.timers, hsent⟩, rfl,
      .returned hstatus, rfl, rfl,
      rfl⟩
  | returned hstatus => cases hstep
  | crashed hstatus => cases hstep

/-- What one step keeps: the threads go on keeping pace with the turns. -/
theorem Paced.step (h : Paced sm a st) (hstep : Happens sm t a out a') : Keeps sm t st out a' := by
  cases h with
  | idle hidle => exact hidle.step hstep
  | asked op hbusy hop hworker =>
    rcases hbusy.cases_step hstep with ⟨rfl, hbusy', hsame⟩ | ⟨-, hreturned, -⟩ | ⟨env, rfl, -,
      rfl⟩ | ⟨-, hadvance⟩
    · rw [← hsame.work]
      exact ⟨_, .start, .asked op hbusy' (hsame.op.trans hop) (hsame.worker.trans hworker)⟩
    · rw [hworker] at hreturned
      cases hreturned
    · obtain ⟨reports, path, hrun, hpath⟩ := runWorker_eq t env hop
      rw [hrun]
      exact ⟨_, .single (l := .answer env) rfl,
        .answered op _ _ (hbusy.ran hworker reports _ _ _ path) hop rfl (.running reports) hpath⟩
    · unfold advanceWorker at hadvance
      rw [hworker] at hadvance
      cases hadvance
  | answered op r th hbusy hop hworker hheld hpath =>
    rcases hbusy.cases_step hstep with ⟨rfl, hbusy', hsame⟩ | ⟨rfl, hreturned, hidle, hwork⟩ | ⟨env,
      -, hstarted, -⟩ | ⟨rfl, hadvance⟩
    · rw [← hsame.work]
      refine ⟨_, .start, .answered op r th hbusy' (hsame.op.trans hop) (hsame.worker.trans hworker)
        ?_ fun hdump hok ↦ ?_⟩
      · rw [hsame.result]
        exact hheld
      · rw [hsame.filePath, hsame.work]
        exact hpath hdump hok
    · rw [hworker] at hreturned
      cases hreturned
      cases hheld with
      | returned hstatus =>
        have hscreen : finishScreen a = outcomeScreen op a.result a.work.app := by
          simp only [finishScreen, outcomeScreen, hop, Option.some.injEq]
          split_ifs
          · rfl
          · rfl
          · refine resultScreen_congr fun hdump hok ↦ hpath (Option.some.inj hdump) (statusOf_ok ?_)
            rw [hstatus, hok]
        rw [hscreen, ← hwork]
        refine ⟨_, .single (l := .tell) ?_, .idle hidle⟩
        simp only [turnStep, turn, hstatus, Option.map_some]
    · rw [hworker] at hstarted
      cases hstarted
      cases hheld
    · obtain ⟨th', hbusy', hworker', hheld', hop', hwork', hpath'⟩ :=
        hbusy.advance hworker hheld hadvance
      rw [← hwork']
      refine ⟨_, .start, .answered op r th' hbusy' (hop'.trans hop) hworker' hheld'
        fun hdump hok ↦ ?_⟩
      rw [hpath', hwork']
      exact hpath hdump hok

/-- The serial line, once there is one, has the baud rate of the settings, which is
one they offer. -/
structure OnRate (a : UpdiProgApp ν σ) : Prop where
  offered : a.baud ∈ baudValues
  line : a.lineBaud = if a.work.app.transport.isSome then some a.baud else none

theorem OnRate.of_held (h : OnRate a) (hheld : a'.held = a.held) : OnRate a' := by
  simp only [held, Prod.mk.injEq] at hheld
  obtain ⟨hwork, hbaud, hline⟩ := hheld
  refine ⟨?_, ?_⟩
  · rw [hbaud]
    exact h.offered
  · rw [hline, hwork, hbaud]
    exact h.line

theorem OnRate.step (h : OnRate a) (hstep : Happens sm t a out a') : OnRate a' := by
  cases hstep with
  | press item hrun hscreen => exact h.of_held rfl
  | back hrun hback => exact h.of_held (held_onBack hback)
  | setBaud hscreen hbaud =>
    refine ⟨List.mem_of_getElem? hbaud, ?_⟩
    have hline := h.line
    dsimp only
    split_ifs at hline ⊢
    · rfl
    · exact hline
  | dispatch hrun hi hcustom =>
    have hheld := held_onCustom hcustom
    exact h.of_held hheld
  | fire htimer => exact h.of_held rfl
  | run env hstarted =>
    cases hop : a.op with
    | none =>
      have hsame :
          a.runWorker t env =
            { a with worker := some (.running [] (.error (.status .param))) } := by
        unfold runWorker
        rw [hop]
      rw [hsame]
      exact h.of_held rfl
    | some op =>
      obtain ⟨reports, path, hrun, -⟩ := runWorker_eq t env hop
      have hrate : a.lineBaud.getD a.baud = a.baud := by
        rw [h.line]
        split_ifs <;> rfl
      rw [hrun, hrate]
      exact ⟨h.offered, rfl⟩
  | advance hadvance =>
    unfold advanceWorker at hadvance
    split at hadvance <;> cases hadvance <;> exact h.of_held rfl

end Step

end UpdiProgApp

end UpdiProgrammer.Ui

import UpdiProgrammer.Ui.SceneRun

namespace UpdiProgrammer.Ui

open Updi HostTest UpdiEmu Library.Program Library.Transition Worker

namespace UpdiProgApp

variable {ν σ : Type} {sm : SceneManager ν} {t : UpdiTransport σ} {c : σ} {a a' : UpdiProgApp ν σ}
  {seen : List Seen}

theorem idle_alloc (sm : SceneManager ν) (c : σ) : Idle sm (alloc sm c) := by
  refine ⟨?_, rfl, rfl, rfl, rfl, rfl⟩
  have hscenes : (alloc sm c).scenes sm = [.start] :=
    (sm.scenes_push _ _).trans (congrArg _ sm.scenes_alloc)
  rw [hscenes]
  exact List.mem_cons_self

theorem matches_turns (sm : SceneManager ν) (t : UpdiTransport σ) :
    Matches (fun (a : UpdiProgApp ν σ) st ↦ Paced sm a st) (step sm t) (turnStep t) :=
  fun _ _ _ _ _ h hstep ↦ h.step (happens_of_step hstep)

/-- However the user, the timer, the events and the worker thread interleave, what
is seen of the app is what it would show if it took turns with its user: every
operation that is chosen is run once, before the next, and the screen that follows
shows the outcome of that run. -/
theorem app_takes_turns (sm : SceneManager ν) (t : UpdiTransport σ) (c : σ)
    (h : Run (step sm t) (alloc sm c) seen a) :
    ∃ st, Run (turnStep t) (.idle ⟨.alloc, c⟩) seen st ∧ Paced sm a st :=
  (matches_turns sm t).run (.idle (idle_alloc sm c)) h

theorem onRate_run (h : Run (step sm t) (alloc sm c) seen a) : OnRate a := by
  refine h.invariant ⟨?_, rfl⟩ fun act s out s' hs hstep ↦ hs.step (happens_of_step hstep)
  exact List.mem_cons_self

theorem Paced.idle_or_busy {st : Stage (WorkerState σ)} (h : Paced sm a st) :
    Idle sm a ∨ Busy sm a := by
  cases h with
  | idle h => exact .inl h
  | asked op h hop hworker => exact .inr h
  | answered op r th h hop hworker hheld hpath => exact .inr h

theorem Paced.state {st : Stage (WorkerState σ)} (h : Paced sm a st) : st.state = a.work :=
  by cases h <;> rfl

/-- Two tries over a serial port that another app holds: the second goes through
the null transport pointer. -/
def busyPort : List Act :=
  [.press .connect, .dispatch 0 none, .fire, .run fun _ ↦ plainEnv false, .advance,
    .dispatch 0 none, .back, .advance,
    .advance, .dispatch 0 none, .back, .press .flash, .dispatch 0 (some "/ext/app.hex"),
      .run fun _ ↦ plainEnv false,
    .advance]

theorem busyPort_takes_turns :
    ∃ seen a, follow (step SceneManager.ofStack (emuTransport .emulator)) busyPort
      (alloc SceneManager.ofStack program412) = some (seen, a) ∧
    ∃ st, Run (turnStep (emuTransport .emulator)) (.idle ⟨.alloc, program412⟩) seen st ∧
      Paced SceneManager.ofStack a st := by
  obtain ⟨seen, a, h⟩ :
      ∃ seen a, follow (step SceneManager.ofStack (emuTransport .emulator)) busyPort
      (alloc SceneManager.ofStack program412) = some (seen, a) := ⟨_, _, rfl⟩
  exact ⟨seen, a, h, app_takes_turns _ _ _ (Run.of_follow h)⟩

/-- The worker thread and the timer are there, once each, exactly while the progress
scene is on screen, which the back key cannot leave then; an event of the worker is
on its way exactly while its thread has returned and is not yet joined; and the line
has the baud rate of the settings. -/
structure Coherent (sm : SceneManager ν) (a : UpdiProgApp ν σ) : Prop where
  threads : a.threads ≤ 1
  timers : a.timers = a.threads
  worker : a.worker.isSome ↔ a.threads = 1
  progress : (a.scenes sm).head? = some .progress ↔ a.threads = 1
  blocked : a.threads = 1 → a.running = true ∧ onBack sm a = some a
  pending : a.pending = if a.worker = some .returned then 1 else 0
  depth : (a.scenes sm).length ≤ 3
  rate : OnRate a

theorem Idle.coherent (h : Idle sm a) (hrate : OnRate a) : Coherent sm a := by
  have hlength : ∀ running : Bool, ∀ l ∈ if running then idleScenes else [[]],
      l.length ≤ 3 := by decide
  refine ⟨?_, ?_, ?_, ?_, ?_, ?_, hlength _ _ h.place, hrate⟩
  · simp [h.threads]
  · rw [h.threads, h.timers]
  · simp [h.threads, h.worker]
  · simp [h.threads, h.head_ne]
  · simp [h.threads]
  · simp [h.pending, h.worker]

theorem Busy.coherent (h : Busy sm a) (hrate : OnRate a) : Coherent sm a := by
  refine ⟨?_, ?_, ?_, ?_, ?_, h.pending, ?_, hrate⟩
  · simp [h.threads]
  · rw [h.threads, h.timers]
  · simp [h.threads, h.worker]
  · simp [h.threads, h.head]
  · intro _
    refine ⟨h.running, ?_⟩
    unfold onBack
    rw [h.head]
  · rw [h.place]
    decide

/-- Every state that the app can come to is coherent. -/
theorem one_operation_at_a_time (sm : SceneManager ν) (t : UpdiTransport σ) (c : σ)
    (h : Run (step sm t) (alloc sm c) seen a) : Coherent sm a := by
  obtain ⟨st, -, hpaced⟩ := app_takes_turns sm t c h
  rcases hpaced.idle_or_busy with hidle | hbusy
  · exact hidle.coherent (onRate_run h)
  · exact hbusy.coherent (onRate_run h)

theorem busyPort_one_operation_at_a_time :
    ∃ seen a, follow (step SceneManager.ofStack (emuTransport .emulator)) busyPort
      (alloc SceneManager.ofStack program412) = some (seen, a) ∧
        Coherent SceneManager.ofStack a := by
  obtain ⟨seen, a, h⟩ :
      ∃ seen a, follow (step SceneManager.ofStack (emuTransport .emulator)) busyPort
      (alloc SceneManager.ofStack program412) = some (seen, a) := ⟨_, _, rfl⟩
  exact ⟨seen, a, h, one_operation_at_a_time _ _ _ (Run.of_follow h)⟩

/-- What the worker does on its own, in surroundings that are as `world` says, and
the GUI thread's taking of the next event. -/
def Act.Own (world : String → Env) (act : Act) : Prop :=
  act = .run world ∨ act = .advance ∨ act = .dispatch 0 none

/-- The steps of the app without those of its user and its timer. -/
def ownStep (sm : SceneManager ν) (t : UpdiTransport σ) (world : String → Env)
    (act : { act : Act // Act.Own world act }) (a : UpdiProgApp ν σ) :
    Option (List Seen × UpdiProgApp ν σ) := step sm t act.1 a

section Ends

variable {world : String → Env}

theorem step_advance (hadvance : a.advanceWorker = some a') :
    ownStep sm t world ⟨.advance, .inr (.inl rfl)⟩ a = some ([], a') := by
  have hcrashed : a.worker ≠ some .crashed := by
    intro hworker
    unfold advanceWorker at hadvance
    rw [hworker] at hadvance
    cases hadvance
  unfold ownStep step
  rw [if_neg hcrashed]
  dsimp only
  rw [hadvance]
  rfl

theorem step_dispatch (h : Busy sm a) (hreturned : a.worker = some .returned) {event : ℕ}
    (hevent : a.events[0]? = some event)
    (hstep : progressOnCustom sm event { a with events := a.events.eraseIdx 0 } = some a') :
    ownStep sm t world ⟨.dispatch 0 none, .inr (.inr rfl)⟩ a = some (seenOf sm a a', a') := by
  have hcrashed : a.worker ≠ some .crashed := by
    rw [hreturned]
    decide
  have hcustom : onCustom sm event none { a with events := a.events.eraseIdx 0 } = some a' := by
    have hhead := h.head
    unfold onCustom scenes at *
    rw [hhead]
    exact hstep
  unfold ownStep step
  rw [if_neg hcrashed]
  simp only [h.running, hevent] at hcustom ⊢
  rw [hcustom]
  rfl

theorem returned_ends (h : Busy sm a) (hreturned : a.worker = some .returned) :
    ∃ seen' a', Run (ownStep sm t world) a seen' a' ∧ Idle sm a' := by
  induction hevents : a.events generalizing a with
  | nil =>
    have hpending := h.pending
    unfold pending at hpending
    rw [hevents, hreturned, if_pos rfl] at hpending
    cases hpending
  | cons event events ih =>
    have hfirst : a.events[0]? = some event := by rw [hevents, List.getElem?_cons_zero]
    by_cases hdone : event = eventWorkerDone
    · subst hdone
      obtain ⟨-, b, hidle, -, hb⟩ := h.done hfirst
      exact ⟨_, b, .single (step_dispatch h hreturned hfirst hb), hidle⟩
    · obtain ⟨text, hb⟩ := h.waits (i := 0) hdone
      have hstep := @step_dispatch ν σ sm t a _ world h hreturned event hfirst hb
      have hpending := pending_eraseIdx hfirst
      rw [if_neg hdone, h.pending] at hpending
      have hbusy : Busy sm { a with events := a.events.eraseIdx 0, screen := .popup text } :=
        ⟨h.running, h.place, ⟨text, rfl⟩, h.worker, h.threads, h.timer, h.timers, hpending.symm⟩
      have hrest :
          a.events.eraseIdx 0 = events := by rw [hevents, List.eraseIdx_zero, List.tail_cons]
      obtain ⟨seen', a', hrun, hidle⟩ := ih hbusy hreturned hrest
      exact ⟨_, a', (Run.single hstep).trans hrun, hidle⟩

theorem thread_ends (h : Busy sm a) {r : Except Halt Unit} (hr : statusOf r ≠ none)
    {th : WorkerThread} (hworker : a.worker = some th) (hheld : Holds r a.result th) :
    ∃ seen' a', Run (ownStep sm t world) a seen' a' ∧ Idle sm a' := by
  have hfinished {b : UpdiProgApp ν σ} (h : Busy sm b) (hworker : b.worker = some .finished)
      (hstatus : statusOf r = some b.result) : ∃ seen' a', Run (ownStep sm t world) b seen' a' ∧
        Idle sm a' := by
    have hadvance : b.advanceWorker =
        some { b with events := b.events ++ [eventWorkerDone], worker := some .returned } := by
      unfold advanceWorker
      rw [hworker]
    obtain ⟨-, hbusy, -⟩ := h.advance hworker (.finished hstatus) hadvance
    obtain ⟨seen', a', hrun, hidle⟩ := returned_ends (t := t) hbusy rfl
    exact ⟨_, a', (Run.single (step_advance hadvance)).trans hrun, hidle⟩
  cases hheld with
  | crashed hstatus => exact absurd hstatus hr
  | returned hstatus => exact returned_ends h hworker
  | finished hstatus => exact hfinished h hworker hstatus
  | running reports =>
    induction reports generalizing a with
    | cons p reports ih =>
      have hadvance :
          a.advanceWorker = some { a with prog := p, worker := some (.running reports r) } := by
        unfold advanceWorker
        rw [hworker]
      obtain ⟨-, hbusy, -⟩ := h.advance hworker (.running _) hadvance
      obtain ⟨seen', a', hrun, hidle⟩ := ih hbusy rfl
      exact ⟨_, a', (Run.single (step_advance hadvance)).trans hrun, hidle⟩
    | nil =>
      obtain ⟨result, hresult⟩ := Option.ne_none_iff_exists'.mp hr
      have hadvance : a.advanceWorker =
          some { a with
            result := result
            prog := { a.prog with phase := .done }
            worker := some .finished } := by
        unfold advanceWorker
        rw [hworker]
        cases r with
        | ok u =>
          cases hresult
          rfl
        | error e =>
          cases e with
          | status e =>
            cases hresult
            rfl
          | nullDevice | nullTransport => cases hresult
      obtain ⟨-, hbusy, -⟩ := h.advance hworker (.running _) hadvance
      obtain ⟨seen', a', hrun, hidle⟩ := hfinished hbusy rfl hresult
      exact ⟨_, a', (Run.single (step_advance hadvance)).trans hrun, hidle⟩

end Ends

def met (seen : List Seen) : List Env := seen.filterMap fun
  | .met env => some env
  | _ => none

/-- A worker state that every operation of some surroundings can be run from. -/
def Fit (mets : List Env) (w : WorkerState σ) : Prop := mets = [] ∧ w.app = .alloc ∨ Initialised w

/-- What the turns have come to if the first operation got the serial port. -/
def Sane (mets : List Env) : Stage (WorkerState σ) → Prop
  | .idle w => Fit mets w
  | .asked _ w => Fit mets w
  | .answered _ r w => statusOf r ≠ none ∧ Initialised w

theorem Fit.status {mets : List Env} {w : WorkerState σ} (h : Fit mets w)
    (op : UpdiOp) (env : Env) :
    statusOf (runOp t env op w).1 ≠ none := by
  refine statusOf_ne_none ?_ (runOp_ne_nullDevice op)
  rcases h with ⟨-, happ⟩ | hinit
  · obtain ⟨app, c⟩ := w
    subst happ
    exact (safe_first op c).1.1
  · exact (safe_of_initialised hinit op).1.1

theorem Fit.ready {mets : List Env} {w : WorkerState σ} (h : Fit mets w) (op : UpdiOp) {env : Env}
    (hfirst : ∀ env' ∈ (mets ++ [env]).head?, env'.acquire = true) :
    Initialised (runOp t env op w).2 := by
  rcases h with ⟨rfl, happ⟩ | hinit
  · obtain ⟨app, c⟩ := w
    subst happ
    exact (safe_first op c).2 (hfirst env rfl)
  · exact (safe_of_initialised hinit op).2

theorem sane_run {st : Stage (WorkerState σ)} (h : Run (turnStep t) (.idle ⟨.alloc, c⟩) seen st)
    (hfirst : ∀ env ∈ (met seen).head?, env.acquire = true) : Sane (met seen) st := by
  induction h with
  | start => exact .inl ⟨rfl, rfl⟩
  | @next l seen out st st' h hstep ih =>
    have happend : met (seen ++ out) = met seen ++ met out := List.filterMap_append
    rw [happend] at hfirst ⊢
    have hsane := ih fun env henv ↦ hfirst env (by
      rw [List.head?_append, Option.mem_def.mp henv]
      rfl)
    cases l with
    | ask op =>
      cases st with
      | idle w =>
        cases hstep
        have hnone : met [Seen.chose (some op)] = [] := rfl
        rwa [hnone, List.append_nil]
      | asked op' w => cases hstep
      | answered op' r w => cases hstep
    | answer env =>
      cases st with
      | asked op w =>
        cases hstep
        exact ⟨hsane.status op env, hsane.ready op hfirst⟩
      | idle w => cases hstep
      | answered op' r w => cases hstep
    | tell =>
      cases st with
      | answered op r w =>
        obtain ⟨status, -, heq⟩ := Option.map_eq_some_iff.mp hstep
        cases heq
        exact .inr hsane.2
      | idle w => cases hstep
      | asked op w => cases hstep

/-- Once the first operation has got the serial port the app never goes through a
null pointer, and the progress scene is never a dead end: whatever the user and the
timer have done, and whatever surroundings the operation meets, the worker and the
events already sent bring up its outcome with no further help. -/
theorem progress_ends (sm : SceneManager ν) (t : UpdiTransport σ) (c : σ)
    (h : Run (step sm t) (alloc sm c) seen a)
    (hfirst : ∀ env ∈ (met seen).head?, env.acquire = true) (world : String → Env) :
    a.worker ≠ some .crashed ∧
      ∃ seen' a', Run (ownStep sm t world) a seen' a' ∧ (a'.scenes sm).head? ≠ some .progress := by
  obtain ⟨st, hturns, hpaced⟩ := app_takes_turns sm t c h
  have hsane := sane_run hturns hfirst
  have hends {b : UpdiProgApp ν σ}
      (h : ∃ seen' a', Run (ownStep sm t world) b seen' a' ∧ Idle sm a') :
      ∃ seen' a', Run (ownStep sm t world) b seen' a' ∧ (a'.scenes sm).head? ≠ some .progress := by
    obtain ⟨seen', a', hrun, hidle⟩ := h
    exact ⟨seen', a', hrun, hidle.head_ne⟩
  cases hpaced with
  | idle hidle =>
    refine ⟨?_, [], a, .start, hidle.head_ne⟩
    rw [hidle.worker]
    exact nofun
  | asked op hbusy hop hworker =>
    have hstarted : a.worker ≠ some .crashed := by
      rw [hworker]
      decide
    obtain ⟨reports, path, heq, -⟩ := runWorker_eq t (world a.filePath) hop
    have hstep : ownStep sm t world ⟨.run world, .inl rfl⟩ a =
        some ([.met (world a.filePath)], a.runWorker t (world a.filePath)) := by
      unfold ownStep step
      rw [if_neg hstarted]
      exact if_pos hworker
    have hran : Busy sm (a.runWorker t (world a.filePath)) := by
      rw [heq]
      exact hbusy.ran hworker reports _ _ _ path
    have hrunning : (a.runWorker t (world a.filePath)).worker =
        some (.running reports (runOp t (world a.filePath) op a.work).1) := by rw [heq]
    obtain ⟨seen', a', hrun, hidle⟩ :=
      thread_ends hran (hsane.status op _) hrunning (.running reports)
    exact ⟨hstarted, hends ⟨_, a', (Run.single hstep).trans hrun, hidle⟩⟩
  | answered op r th hbusy hop hworker hheld hpath =>
    refine ⟨fun hcrashed ↦ ?_, hends (thread_ends hbusy hsane.1 hworker hheld)⟩
    rw [hworker] at hcrashed
    cases hcrashed
    cases hheld with
    | crashed hstatus => exact hsane.1 hstatus

/-- A flash of a HEX file from the card, up to where its thread has its reports to write. -/
def flashRun : List Act :=
  [.press .flash, .dispatch 0 (some "/ext/app.hex"), .fire, .run fun _ ↦
    steadyEnv (some applicationFile)]

theorem flashRun_ends : ∃ a, follow (step SceneManager.ofStack (emuTransport .emulator)) flashRun
      (alloc SceneManager.ofStack program412) =
        some ([.chose (some .flash), .met (steadyEnv (some applicationFile))], a) ∧
    a.worker ≠ some .crashed ∧
      ∃ seen' a', Run (ownStep SceneManager.ofStack (emuTransport .emulator) fun _ ↦
      plainEnv false) a seen' a' ∧ (a'.scenes SceneManager.ofStack).head? ≠ some .progress := by
  obtain ⟨a, h⟩ : ∃ a, follow (step SceneManager.ofStack (emuTransport .emulator)) flashRun
      (alloc SceneManager.ofStack program412) =
        some ([.chose (some .flash), .met (steadyEnv (some applicationFile))], a) := ⟨_, rfl⟩
  refine ⟨a, h, progress_ends _ _ _ (Run.of_follow h) (fun env henv ↦ ?_) _⟩
  cases henv
  rfl

end UpdiProgApp

end UpdiProgrammer.Ui

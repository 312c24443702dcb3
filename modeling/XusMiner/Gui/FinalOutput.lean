import XusMiner.Gui.AppliedMessages

namespace XusMiner.Gui

open BoundedQueue

variable {platform : Platform} {parse : String → Except String Value}
  {pipes : ℕ → Stream → BufReader} {w w' : Window}

/-- The queue of an engine accounts for all that its pipes give. -/
def Accounted (parse : String → Except String Value) (pipes : ℕ → Stream → BufReader) (serial : ℕ)
    (queue : OutputQueue) : Prop :=
  Accounts (readerStep parse) (fun stream => output parse stream (pipes serial stream)) queue

/-- What holds of the window and its readers in every order of their steps. -/
structure Wired (parse : String → Except String Value) (pipes : ℕ → Stream → BufReader)
    (w : Window) : Prop where
  budgeted : ∃ starts, MinerApp.Budgeted starts w.app
  received : MinerApp.Received w.app
  spawned : w.app.receiver = true → 0 < w.app.spawned
  bounded : ∀ serial, (w.queues serial).queue.length ≤ childOutputQueueCapacity
  inOrder : ∀ serial stream,
    of stream (w.queues serial).taken <+: output parse stream (pipes serial stream)
  untouched : ∀ serial, w.app.spawned ≤ serial → (w.queues serial).taken = []
  accounts : ∀ serial, w.app.spawned ≤ serial ∨ w.receives serial = true →
    Accounted parse pipes serial (w.queues serial)
  fatal : ∀ serial, w.receives serial = true →
    (∃ entry ∈ (w.queues serial).taken, MinerApp.Fatal entry.2) → w.app.engineFatalSeen = true

theorem Window.receives_iff {serial : ℕ} : w.receives serial = true ↔
    w.app.receiver = true ∧ w.app.spawned = serial + 1 := by
  rw [receives, Bool.and_eq_true, beq_iff_eq]

theorem wired_launched (workers : UInt64) :
    Wired parse pipes (.launched { workers := workers } pipes) := by
  refine ⟨⟨0, MinerApp.Budgeted.init.congr rfl rfl⟩, MinerApp.received_of_not_observed rfl,
    fun h => absurd h Bool.false_ne_true, fun _ => Nat.zero_le _, fun _ _ => List.nil_prefix,
    fun _ _ => rfl, fun serial _ stream => ?_, fun serial h => ?_⟩
  · exact ⟨_, makes_output parse stream (pipes serial stream), rfl⟩
  · cases (Window.receives_iff.1 h).1

theorem Wired.receives_current (h : Wired parse pipes w) (hreceiver : w.app.receiver = true) :
    w.receives (w.app.spawned - 1) = true := by
  have hpos := h.spawned hreceiver
  exact Window.receives_iff.2 ⟨hreceiver, by omega⟩

/-- A call of the window that is no poll leaves the queues alone. -/
theorem Wired.rehear {app : MinerApp} (h : Wired parse pipes w)
    (hrehears : MinerApp.Rehears w.app app) (hreceived : MinerApp.Received app)
    (hbudgeted : ∃ starts, MinerApp.Budgeted starts app) :
    Wired parse pipes { w with app := app } := by
  cases hrehears with
  | kept hreceiver hspawned hfatal =>
    have hreceives (serial : ℕ) (hserial : Window.receives { w with app := app } serial = true) :
        w.receives serial = true := by
      obtain ⟨hreading, hcurrent⟩ := Window.receives_iff.1 hserial
      exact Window.receives_iff.2 ⟨hreceiver hreading, hspawned.symm.trans hcurrent⟩
    refine ⟨hbudgeted, hreceived, fun hreading => ?_, h.bounded, h.inOrder, fun serial hle => ?_,
      fun serial hserial => ?_, fun serial hserial hseen => ?_⟩
    · exact (h.spawned (hreceiver hreading)).trans_eq hspawned.symm
    · exact h.untouched serial (hspawned ▸ hle)
    · exact h.accounts serial (hserial.imp (fun hle => hspawned ▸ hle) (hreceives serial))
    · exact hfatal (h.fatal serial (hreceives serial hserial) hseen)
  | started hidle hle hspawned =>
    -- the queue of the new engine was not touched before
    have hfresh (serial : ℕ) (hserial : app.spawned ≤ serial ∨
        Window.receives { w with app := app } serial = true) : w.app.spawned ≤ serial := by
      rcases hserial with hlater | hserial
      · exact hle.trans hlater
      · obtain ⟨hreading, hcurrent⟩ := Window.receives_iff.1 hserial
        have hnew := hspawned hreading
        dsimp only at hcurrent
        omega
    refine ⟨hbudgeted, hreceived, fun hreading => ?_, h.bounded, h.inOrder, fun serial hlater => ?_,
      fun serial hserial => ?_, fun serial hserial hseen => ?_⟩
    · exact (Nat.succ_pos _).trans_eq (hspawned hreading).symm
    · exact h.untouched serial (hfresh serial (.inl hlater))
    · exact h.accounts serial (.inl (hfresh serial hserial))
    · obtain ⟨entry, hmem, -⟩ := hseen
      rw [h.untouched serial (hfresh serial (.inr hserial))] at hmem
      cases hmem

theorem Wired.read (h : Wired parse pipes w) {serial : ℕ} (hspawned : serial < w.app.spawned)
    (stream : Stream) : Wired parse pipes (w.read parse serial stream) := by
  have hreceives (n : ℕ) : (w.read parse serial stream).receives n = w.receives n := rfl
  refine ⟨h.budgeted, h.received, h.spawned, fun n => ?_, fun n i => ?_, fun n hle => ?_,
    fun n hn => ?_, fun n hn hseen => ?_⟩
  · by_cases hn : n = serial
    · subst hn
      simp only [Window.read, Function.update_self]
      exact length_queue_turn _ _ (h.bounded n)
    · simp only [Window.read, Function.update_of_ne hn]
      exact h.bounded n
  · rw [taken_read]
    exact h.inOrder n i
  · rw [taken_read]
    exact h.untouched n hle
  · have haccounts := h.accounts n hn
    by_cases hsame : n = serial
    · subst hsame
      have hreceived : w.receives n = true :=
        hn.resolve_left fun hle => absurd hspawned (not_lt.2 hle)
      simp only [Window.read, Function.update_self, hreceived]
      exact haccounts.turn stream
    · simp only [Window.read, Function.update_of_ne hsame]
      exact haccounts
  · rw [taken_read] at hseen
    exact h.fatal n hn hseen

theorem Wired.pollProcess {app : MinerApp} {queues : ℕ → OutputQueue} {env : PollEnv} {starts : ℕ}
    (h : Wired parse pipes ⟨(app.drainProcessMessages platform env).1, queues⟩)
    (hbudgeted : MinerApp.Budgeted starts app) :
    Wired parse pipes ⟨app.pollProcess platform env, queues⟩ := by
  have hdrained := @MinerApp.Budgeted.drainProcessMessages platform app starts hbudgeted env
  have hpolled := MinerApp.polled platform hdrained h.received env app.receiver
    (app.drainProcessMessages platform env).2
  have hbefore := @MinerApp.Budgeted.beforeRestart platform app starts hbudgeted env
  have hrestart := MinerApp.rehears_pollRestart platform hbefore hpolled.received env
  have hstep : MinerApp.Budgeted _ (app.step platform (.pollProcess env)) := hbudgeted.step rfl
  exact (h.rehear hpolled.kept.rehears hpolled.received ⟨_, hbefore⟩).rehear hrestart.1 hrestart.2
    ⟨_, hstep⟩

theorem Wired.accounted_drained (h : Wired parse pipes w) (hreceiver : w.app.receiver = true)
    (schedule : List (List Stream)) :
    Accounted parse pipes (w.app.spawned - 1) (w.drained parse schedule).2.2 :=
  drain_keeps (fun stream _ hq => hq.turn stream) (fun _ _ _ hq h => hq.accounts h) _ _ _
    (h.accounts _ (.inr (h.receives_current hreceiver)))

/-- Once the readers are found to be gone, all of the output is taken. -/
theorem Wired.all_taken (h : Wired parse pipes w) (hreceiver : w.app.receiver = true)
    (schedule : List (List Stream)) (hdisconnected : (w.drained parse schedule).2.1 = true)
    (stream : Stream) : of stream (w.drained parse schedule).2.2.taken =
      output parse stream (pipes (w.app.spawned - 1) stream) := by
  obtain ⟨hqueue, hended⟩ := (w.drained_spec parse schedule).complete hdisconnected
  exact (h.accounted_drained hreceiver schedule).all_taken hqueue hended stream

/-- A frame changes the queue of the engine that is listened to, and no other. -/
theorem Wired.replace (h : Wired parse pipes w) (hreceiver : w.app.receiver = true) {app : MinerApp}
    {queue : OutputQueue} (hstages : app.stages = w.app.stages)
    (hspawned : app.spawned = w.app.spawned) (hbudgeted : ∃ starts, MinerApp.Budgeted starts app)
    (hbounded : queue.queue.length ≤ childOutputQueueCapacity)
    (haccounted : Accounted parse pipes (w.app.spawned - 1) queue)
    (hfatal : (∃ entry ∈ queue.taken, MinerApp.Fatal entry.2) → app.engineFatalSeen = true) :
    Wired parse pipes ⟨app, Function.update w.queues (w.app.spawned - 1) queue⟩ := by
  have hpos := h.spawned hreceiver
  have hsame : app.receiver = w.app.receiver := congrArg (fun x => x.2.2.2) hstages
  have hother {n : ℕ} (hn : n ≠ w.app.spawned - 1) :
      Function.update w.queues (w.app.spawned - 1) queue n = w.queues n :=
    Function.update_of_ne hn _ _
  have hreceives (n : ℕ) : Window.receives
      ⟨app, Function.update w.queues (w.app.spawned - 1) queue⟩ n = w.receives n := by
    simp only [Window.receives, hsame, hspawned]
  refine ⟨hbudgeted, h.received.congr hstages, fun _ => hspawned.symm ▸ hpos, fun n => ?_,
    fun n stream => ?_, fun n hn => ?_, fun n hn => ?_, fun n hn hseen => ?_⟩
  · by_cases hn : n = w.app.spawned - 1
    · simp only [hn, Function.update_self]
      exact hbounded
    · simp only [hother hn]
      exact h.bounded n
  · by_cases hn : n = w.app.spawned - 1
    · simp only [hn, Function.update_self]
      exact haccounted.taken_prefix stream
    · simp only [hother hn]
      exact h.inOrder n stream
  · have hne : n ≠ w.app.spawned - 1 := by
      dsimp only at hn
      omega
    simp only [hother hne]
    exact h.untouched n (hspawned ▸ hn)
  · rw [hreceives, hspawned] at hn
    by_cases hne : n = w.app.spawned - 1
    · simp only [hne, Function.update_self]
      exact haccounted
    · simp only [hother hne]
      exact h.accounts n hn
  · rw [hreceives] at hn
    obtain rfl : n = w.app.spawned - 1 := by
      have hnext := (Window.receives_iff.1 hn).2
      omega
    simp only [Function.update_self] at hseen
    exact hfatal hseen

/-- The window and the queues once the messages of the frame are applied. -/
theorem Wired.drain (platform : Platform) (h : Wired parse pipes w)
    (hreceiver : w.app.receiver = true) (env : PollEnv) (clock : ℕ → ℕ)
    (schedule : List (List Stream)) :
    Wired parse pipes
      ⟨(w.app.drainProcessMessages platform (env.hearing clock (w.drained parse schedule))).1,
        Function.update w.queues (w.app.spawned - 1) (w.drained parse schedule).2.2⟩ := by
  have hbounded : (w.drained parse schedule).2.2.queue.length ≤ childOutputQueueCapacity :=
    drain_keeps (fun stream q hq => length_queue_turn true stream hq)
      (fun q q' items hq h => hq.length_queue h) _ _ _ (h.bounded _)
  obtain ⟨starts, hbudgeted⟩ := h.budgeted
  obtain ⟨entries, htaken, happlied⟩ := w.takes platform parse hreceiver env clock schedule
  apply h.replace hreceiver (MinerApp.stages_drainProcessMessages platform w.app _)
    (MinerApp.spawned_drainProcessMessages platform w.app _)
    ⟨_, @MinerApp.Budgeted.drainProcessMessages platform _ starts hbudgeted _⟩ hbounded
    (h.accounted_drained hreceiver schedule)
  rw [htaken, happlied]
  -- the event was taken in an earlier frame, or is among the messages of this one
  rintro ⟨entry, hmem, hfatal⟩
  apply MinerApp.engineFatalSeen_applyEntries
  rcases List.mem_append.1 hmem with hmem | hmem
  · exact .inl (h.fatal _ (h.receives_current hreceiver) ⟨entry, hmem, hfatal⟩)
  · exact .inr ⟨entry, hmem, hfatal⟩

theorem Wired.poll (h : Wired parse pipes w) (env : PollEnv) (clock : ℕ → ℕ)
    (schedule : List (List Stream)) :
    Wired parse pipes (w.poll platform parse env clock schedule) := by
  obtain ⟨starts, hbudgeted⟩ := h.budgeted
  by_cases hreceiver : w.app.receiver = true
  · rw [Window.poll_of_receiver hreceiver]
    exact (h.drain platform hreceiver env clock schedule).pollProcess hbudgeted
  · rw [Window.poll, if_neg hreceiver]
    apply Wired.pollProcess _ hbudgeted
    rw [MinerApp.drainProcessMessages, if_neg hreceiver]
    exact h

/-- What a call of the operator leaves of an engine. -/
structure Operates (w w' : Window) : Prop where
  rehears : MinerApp.Rehears w.app w'.app
  received : MinerApp.Received w'.app
  budgeted : ∃ starts, MinerApp.Budgeted starts w'.app
  queues : w'.queues = w.queues
  exit : w.app.pendingExit.isSome → w'.app.stages = w.app.stages

theorem Wired.operates (h : Wired parse pipes w) {operation : Operation}
    (hstep : w.step platform parse (.operate operation) = some w') : Operates w w' := by
  obtain ⟨starts, hbudgeted⟩ := h.budgeted
  cases operation with
  | pollProcess env => cases hstep
  | applyTelemetry now value => cases hstep
  | automaticRestart env => cases hstep
  | start env =>
    obtain rfl := Option.some.inj hstep
    have hstart : MinerApp.Rehears w.app (w.app.start platform env) ∧
        MinerApp.Received (w.app.start platform env) ∧
        (w.app.pendingExit.isSome → (w.app.start platform env).stages = w.app.stages) := by
      unfold MinerApp.start
      -- nothing is started while an engine is alive
      split_ifs with hrunning
      · exact ⟨.refl _, h.received, fun _ => rfl⟩
      · have hlive : w.app.hasLiveEngineState = false := by
          simp only [MinerApp.isRunning, Bool.or_eq_true, not_or, Bool.not_eq_true] at hrunning
          exact hrunning.1
        have hreceiver := hbudgeted.notReading (MinerApp.Budgeted.observed_of_live hlive)
        have hstarts : MinerApp.Starts w.app.spawned ({ w.app with
            automaticRestartAttempts := 0, singleWorkerRecovery := false,
            lightRandomxRecovery := false, automaticRecoveryEnabled := true }.startEngine platform
              false env) :=
          MinerApp.starts_startEngine platform { w.app with
            automaticRestartAttempts := 0, singleWorkerRecovery := false,
            lightRandomxRecovery := false, automaticRecoveryEnabled := true } hlive hreceiver
              false env
        refine ⟨.started hreceiver hstarts.spawned hstarts.attached, hstarts.received, ?_⟩
        intro hexit
        simp [MinerApp.hasLiveEngineState, hexit] at hlive
    exact ⟨hstart.1, hstart.2.1, ⟨_, hbudgeted.start env⟩, rfl, hstart.2.2⟩
  | stop env =>
    obtain rfl := Option.some.inj hstep
    have hstop := MinerApp.rehears_stop hbudgeted h.received env
    exact ⟨hstop.1, hstop.2, ⟨_, hbudgeted.stop env⟩, rfl,
      fun hexit => MinerApp.stages_stop (hbudgeted.exit hexit).1 env⟩
  | staleTelemetry =>
    obtain rfl := Option.some.inj hstep
    exact ⟨.kept id rfl id, h.received.congr rfl, ⟨_, hbudgeted.congr rfl rfl⟩, rfl, fun _ => rfl⟩
  | editWorkers workers =>
    obtain rfl := Option.some.inj hstep
    have hsame : MinerApp.Budgeted starts (w.app.step platform (.editWorkers workers)) :=
      @MinerApp.Budgeted.step platform w.app starts hbudgeted (.editWorkers workers) rfl
    unfold MinerApp.step at hsame ⊢
    dsimp only at hsame ⊢
    split_ifs at hsame ⊢
    · exact ⟨.refl _, h.received, ⟨_, hsame⟩, rfl, fun _ => rfl⟩
    · exact ⟨.kept id rfl id, h.received.congr rfl, ⟨_, hsame⟩, rfl, fun _ => rfl⟩

theorem Wired.operate (h : Wired parse pipes w) {operation : Operation}
    (hstep : w.step platform parse (.operate operation) = some w') : Wired parse pipes w' := by
  have hoperates := h.operates hstep
  have hsame : w' = { w with app := w'.app } := by rw [← hoperates.queues]
  rw [hsame]
  exact h.rehear hoperates.rehears hoperates.received hoperates.budgeted

theorem Wired.step : Runs.Invariant (Window.step platform parse) (Wired parse pipes) := by
  intro w action w' h hstep
  cases action with
  | read serial stream =>
    unfold Window.step at hstep
    dsimp only at hstep
    split_ifs at hstep with hspawned
    obtain rfl := Option.some.inj hstep
    exact h.read hspawned stream
  | operate operation => exact h.operate hstep
  | poll env clock schedule =>
    obtain rfl := Option.some.inj hstep
    exact h.poll env clock schedule

theorem wired_of_run {workers : UInt64} {actions : List Action}
    (hrun : Runs.run (Window.step platform parse) (.launched { workers := workers } pipes) actions =
      some w) : Wired parse pipes w :=
  Wired.step.run (wired_launched workers) hrun

/-- What is taken of a pipe is the beginning of what its thread reads: the lines of the pipe, where
none is lost, doubled or moved. -/
structure InOrder (parse : String → Except String Value) (pipe : BufReader) (stream : Stream)
    (taken : List (Stream × ProcessMessage)) : Prop where
  inOrder : of stream taken <+: output parse stream pipe
  lines : ∀ (segments : List ByteCodec.Bytes) (tail : ByteCodec.Bytes),
    (∀ s ∈ segments, newline ∉ s) → newline ∉ tail →
    pipe.items = (segments.flatMap (· ++ [newline]) ++ tail).map .ok →
    output parse stream pipe = (childLines segments tail).map (lineMessage parse stream)

/-- What the actions of a run did with the output of its engines: what was taken from the queues is
what was applied to the app, in order, and so it goes on with the next frame; and the queues stay
short. -/
structure AppliedInOrder (platform : Platform) (parse : String → Except String Value)
    (pipes : ℕ → Stream → BufReader) (workers : UInt64) (actions : List Action) (w : Window) :
    Prop where
  applied : Applies platform workers actions w.app fun serial => (w.queues serial).taken
  frame : ∀ env clock schedule, ∃ entries disconnected,
    AppliesTaken platform env clock w (w.poll platform parse env clock schedule) entries
      disconnected
  inOrder : ∀ serial stream,
    InOrder parse (pipes serial stream) stream (w.queues serial).taken
  bounded : ∀ serial, (w.queues serial).queue.length ≤ childOutputQueueCapacity

/-- An engine that writes one short line and nothing else. -/
def shortPipes : ℕ → Stream → BufReader
  | _, .stdout => ⟨[104, 105, newline], []⟩
  | _, .stderr => ⟨[], []⟩

def parsesNothing : String → Except String Value := fun _ => .error "expected value"

/-- The readers' turns of a frame in which both of them come to the end. -/
def lastTurns : List (List Stream) := [[.stdout, .stdout, .stdout, .stderr]]

/-- An engine is started, its line is read, and a frame applies it. -/
def shortActions : List Action :=
  [.operate (.start spawnedEngine), .read 0 .stdout, .poll (engineExits 0) id lastTurns]

/-- A frame of an engine whose output is read, up to the restart. -/
structure Frame (platform : Platform) (parse : String → Except String Value)
    (pipes : ℕ → Stream → BufReader) (w : Window) (env : PollEnv) (w' : Window) (drained : MinerApp)
    (disconnected : Bool) (before : MinerApp) : Prop where
  budgeted : ∃ starts, MinerApp.Budgeted starts before
  polled : MinerApp.Polled platform env disconnected drained before
  app : ∃ env, w'.app = before.pollRestart platform env
  stages : drained.stages = w.app.stages
  spawned : drained.spawned = w.app.spawned
  stop : drained.requestedStop = w.app.requestedStop
  rests : MinerApp.Rests w.app drained
  complete : disconnected = true → ∀ stream, of stream (w'.queues (w.app.spawned - 1)).taken =
    output parse stream (pipes (w.app.spawned - 1) stream)
  fatal : (∃ entry ∈ (w'.queues (w.app.spawned - 1)).taken, MinerApp.Fatal entry.2) →
    drained.engineFatalSeen = true

theorem Wired.frame (platform : Platform) (h : Wired parse pipes w)
    (hreceiver : w.app.receiver = true) (env : PollEnv) (clock : ℕ → ℕ)
    (schedule : List (List Stream)) : ∃ drained disconnected before,
      Frame platform parse pipes w env (w.poll platform parse env clock schedule) drained
        disconnected before := by
  have hpos := h.spawned hreceiver
  have hdrain := h.drain platform hreceiver env clock schedule
  obtain ⟨starts, hbudgeted⟩ := h.budgeted
  have hall := h.all_taken hreceiver schedule
  rw [Window.poll_of_receiver hreceiver]
  generalize w.drained parse schedule = result at *
  have hstages := MinerApp.stages_drainProcessMessages platform w.app
    (env.hearing clock result)
  have hspawned := MinerApp.spawned_drainProcessMessages platform w.app
    (env.hearing clock result)
  have hdisconnected : (w.app.drainProcessMessages platform (env.hearing clock result)).2 =
      result.2.1 := MinerApp.disconnected_drainProcessMessages platform hreceiver _
  have hcurrent : Window.receives
      ⟨(w.app.drainProcessMessages platform (env.hearing clock result)).1,
        Function.update w.queues (w.app.spawned - 1) result.2.2⟩ (w.app.spawned - 1) = true := by
    refine Window.receives_iff.2 ⟨?_, ?_⟩
    · exact (congrArg (fun x => x.2.2.2) hstages).trans hreceiver
    · dsimp only
      omega
  have hpolled := MinerApp.polled_beforeRestart platform hbudgeted h.received
    (env.hearing clock result)
  rw [hdisconnected] at hpolled
  refine ⟨_, result.2.1, w.app.beforeRestart platform (env.hearing clock result),
    ⟨_, @MinerApp.Budgeted.beforeRestart platform _ starts hbudgeted (env.hearing clock result)⟩,
    ⟨hpolled.kept, hpolled.received, hpolled.ends, hpolled.rests⟩, ⟨env.hearing clock result, rfl⟩,
    hstages, hspawned, MinerApp.requestedStop_drainProcessMessages platform w.app _,
    MinerApp.rests_drainProcessMessages w.app _, fun hd stream => ?_, fun hfatal => ?_⟩
  · simp only [Function.update_self]
    exact hall hd stream
  · exact hdrain.fatal _ hcurrent hfatal

/-- All that the readers make of the pipes of an engine was taken from its queue, and what was
taken is what the run applied to the app. -/
structure AppliedInFull (platform : Platform) (parse : String → Except String Value)
    (pipes : ℕ → Stream → BufReader) (workers : UInt64) (actions : List Action) (w : Window)
    (serial : ℕ) : Prop where
  applied : Applies platform workers actions w.app fun serial => (w.queues serial).taken
  complete : ∀ stream, of stream (w.queues serial).taken = output parse stream (pipes serial stream)

/-- The run with one more frame. -/
theorem applies_poll {workers : UInt64} {actions : List Action}
    (hrun : Runs.run (Window.step platform parse) (.launched { workers := workers } pipes) actions =
      some w) (env : PollEnv) (clock : ℕ → ℕ) (schedule : List (List Stream)) :
    Applies platform workers (actions ++ [.poll env clock schedule])
      (w.poll platform parse env clock schedule).app
      fun serial => ((w.poll platform parse env clock schedule).queues serial).taken :=
  (applies_of_run hrun).frame env clock schedule

/-- The window once that engine is started. -/
def startedWindow : Window :=
  ⟨({ workers := 1 } : MinerApp).start .unix spawnedEngine,
    (Window.launched { workers := 1 } shortPipes).queues⟩

/-- What a clean end takes: the operator asked for it, all that the engine said was applied, and no
line of it was a fatal event. -/
structure CleanEnd (platform : Platform) (parse : String → Except String Value)
    (pipes : ℕ → Stream → BufReader) (workers : UInt64) (actions : List Action) (w w' : Window)
    (serial : ℕ) : Prop where
  receives : w.receives serial = true
  requested : w.app.requestedStop = true
  heard : AppliedInFull platform parse pipes workers actions w' serial
  notFatal : ∀ message ∈ output parse .stdout (pipes serial .stdout), ¬MinerApp.Fatal message

/-- The operator's stop kills the engine of the example. -/
def stoppedWindow : Window :=
  { startedWindow with app := startedWindow.app.stop ⟨noCleanup, .ok none, noCleanup, 0, .ok ()⟩ }

end XusMiner.Gui

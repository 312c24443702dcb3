import XusMiner.Gui.Recovery

namespace XusMiner.Gui
namespace MinerApp

variable {platform : Platform} {app app' app'' : MinerApp}

/-- The one event that outlives its engine's other reports. -/
def Fatal (message : ProcessMessage) : Prop :=
  ∃ value, message = .telemetry value ∧ (value.get "event").bind Value.asStr = some "engine_fatal"

/-- What a call leaves of what was heard: it goes on with the same engine's output or gives it up,
or it starts another engine when no output was being read. -/
inductive Rehears (app app' : MinerApp) : Prop
  | kept (hreceiver : app'.receiver = true → app.receiver = true)
      (hspawned : app'.spawned = app.spawned)
      (hfatal : app.engineFatalSeen = true → app'.engineFatalSeen = true)
  | started (hidle : app.receiver = false) (hle : app.spawned ≤ app'.spawned)
      (hspawned : app'.receiver = true → app'.spawned = app.spawned + 1)

theorem Rehears.refl (app : MinerApp) : Rehears app app := .kept id rfl id

/-- Only the end of an engine leaves the window at rest. -/
def Rests (app app' : MinerApp) : Prop := app'.phase = .idle → app.phase = .idle

theorem rests_refl (app : MinerApp) : Rests app app := id

theorem Rests.trans (h : Rests app app') (h' : Rests app' app'') : Rests app app'' :=
  fun hidle => h (h' hidle)

theorem rests_of_ne (h : app'.phase ≠ .idle) : Rests app app' := fun hidle => absurd hidle h

section Events

theorem rests_enterMiningPhase (app : MinerApp) : Rests app app.enterMiningPhase := by
  unfold enterMiningPhase
  split_ifs <;> exact rests_of_ne (by simp)

theorem rests_enterConnectionPhase {phase : Phase} (h : phase ≠ .idle) (app : MinerApp) :
    Rests app (app.enterConnectionPhase phase) := by
  unfold enterConnectionPhase
  apply rests_of_ne
  dsimp only
  split_ifs
  · simp
  · exact h

theorem rests_markWorkerReady (worker : UInt64) (app : MinerApp) :
    Rests app (app.markWorkerReady platform worker) := by
  unfold markWorkerReady
  split_ifs
  · exact rests_refl app
  · dsimp only [Rests]
    split_ifs
    · exact fun h => by cases h
    · exact id

theorem phase_metricsActiveWork (app : MinerApp) (value : Value) :
    (app.metricsActiveWork value).phase = app.phase := by
  unfold metricsActiveWork
  split
  · split_ifs <;> rfl
  · dsimp only
    split_ifs <;> rfl

theorem phase_metricsRound (app : MinerApp) (value : Value) :
    (app.metricsRound value).phase = app.phase := by
  unfold metricsRound
  dsimp only
  split <;> rfl

theorem phase_metricsStability (app : MinerApp) (now : ℕ) :
    (app.metricsStability platform now).phase = app.phase := by
  unfold metricsStability
  dsimp only
  split_ifs <;> rfl

theorem rests_applyMetrics (now : ℕ) (value : Value) (app : MinerApp) :
    Rests app (app.applyMetrics platform now value) := by
  unfold applyMetrics Rests
  dsimp only
  rw [phase_metricsStability, phase_metricsRound, phase_metricsActiveWork]
  exact id

theorem rests_applyJob (value : Value) (app : MinerApp) : Rests app (app.applyJob value) := by
  unfold applyJob
  apply (rests_enterMiningPhase { app with nodeLinkLive := true }).trans
  dsimp only [Rests]
  split_ifs <;> exact id

theorem rests_applyJobCleared (value : Value) (app : MinerApp) :
    Rests app (app.applyJobCleared value) := by
  unfold applyJobCleared
  dsimp only
  split_ifs <;> exact id

/-- One case for each event. -/
theorem rests_applyEvent (now : ℕ) (value : Value) (event : EngineEvent) (app : MinerApp) :
    Rests app (app.applyEvent platform now value event) := by
  cases event with
  | startup | connecting =>
    exact rests_enterConnectionPhase (by simp) { app with nodeLinkLive := false }
  | poolConnected => exact rests_enterConnectionPhase (by simp) app
  | nodeConnected => exact rests_enterMiningPhase { app with nodeLinkLive := true }
  | workerInitializing => exact elim_rule (rests_refl app) fun _ _ => id
  | workerReady | workerRecovered =>
    exact elim_rule (rests_refl app) fun worker _ => rests_markWorkerReady worker app
  | workerError =>
    exact elim_rule (rests_refl app) fun _ _ => rests_of_ne (by simp [applyWorkerError])
  | engineFatal => exact rests_of_ne (by simp [applyEvent, applyEngineFatal])
  | job => exact rests_applyJob value app
  | jobCleared => exact rests_applyJobCleared value app
  | metrics => exact rests_applyMetrics now value app
  | sessionError =>
    unfold applyEvent applySessionError Rests
    dsimp only
    split_ifs
    · exact id
    · exact fun h => by cases h

theorem rests_applyTelemetry (now : ℕ) (value : Value) (app : MinerApp) :
    Rests app (app.applyTelemetry platform now value) :=
  applyTelemetry_rule (rests_refl app) fun event => rests_applyEvent now value event app

theorem rests_drainProcessMessages (app : MinerApp) (env : PollEnv) :
    Rests app (app.drainProcessMessages platform env).1 :=
  drainProcessMessages_rule rests_refl Rests.trans (fun app now value =>
    rests_applyTelemetry now value app) app env

/-- Once a fatal event is seen no other event changes anything. -/
theorem applyProcessMessage_of_fatal (h : app.engineFatalSeen = true)
    (message : ℕ × ProcessMessage) : app.applyProcessMessage platform message = app := by
  unfold applyProcessMessage
  split
  · unfold applyTelemetry
    rw [if_pos (.inl h)]
  · rfl

theorem engineFatalSeen_applyProcessMessage {message : ℕ × ProcessMessage} (h : Fatal message.2) :
    (app.applyProcessMessage platform message).engineFatalSeen = true := by
  obtain ⟨value, hmessage, hevent⟩ := h
  by_cases hseen : app.engineFatalSeen = true
  · rw [applyProcessMessage_of_fatal hseen]
    exact hseen
  · have hname : EngineEvent.ofName "engine_fatal" = some .engineFatal := rfl
    unfold applyProcessMessage applyTelemetry
    simp only [hmessage, hevent, hseen, Option.bind_some, hname, ne_eq, not_true_eq_false,
      and_false, or_self, if_false, Bool.false_eq_true]
    rfl

theorem engineFatalSeen_foldl {messages : List (ℕ × ProcessMessage)}
    (h : app.engineFatalSeen = true ∨ ∃ message ∈ messages, Fatal message.2) :
    (messages.foldl (applyProcessMessage platform) app).engineFatalSeen = true := by
  induction messages generalizing app with
  | nil => exact h.resolve_right (by simp)
  | cons message messages ih =>
    apply ih
    rcases h with hseen | ⟨found, hmem, hfatal⟩
    · rw [applyProcessMessage_of_fatal hseen]
      exact .inl hseen
    · rcases List.mem_cons.1 hmem with rfl | hmem
      · exact .inl (engineFatalSeen_applyProcessMessage hfatal)
      · exact .inr ⟨found, hmem, hfatal⟩

end Events

section Supervision

/-- What is heard of the engine, and of which one. -/
def hearing (app : MinerApp) :
    (Option Child × Option ExitStatus × Option ℕ × Bool) × ℕ × Bool × Bool :=
  (app.stages, app.spawned, app.engineFatalSeen, app.requestedStop)

/-- The output is read for as long as the engine is observed. -/
def Received (app : MinerApp) : Prop := app.observed = true → app.receiver = true

theorem Received.congr (h : Received app) (heq : app'.stages = app.stages) : Received app' := by
  simp only [stages, Prod.mk.injEq] at heq
  obtain ⟨hchild, hexit, hfailure, hreceiver⟩ := heq
  unfold Received observed
  rw [hchild, hexit, hfailure, hreceiver]
  exact h

theorem received_of_not_observed (h : app.observed = false) : Received app :=
  fun hobserved => absurd (h.symm.trans hobserved) Bool.false_ne_true

/-- What every step of a poll but the restart keeps. -/
structure Kept (app app' : MinerApp) : Prop where
  receiver : app'.receiver = true → app.receiver = true
  spawned : app'.spawned = app.spawned
  fatal : app.engineFatalSeen = true → app'.engineFatalSeen = true
  stop : app'.requestedStop = true → app.requestedStop = true

theorem Kept.trans (h : Kept app app') (h' : Kept app' app'') : Kept app app'' :=
  ⟨fun hr => h.receiver (h'.receiver hr), h'.spawned.trans h.spawned,
    fun hf => h'.fatal (h.fatal hf), fun hs => h.stop (h'.stop hs)⟩

theorem Kept.rehears (h : Kept app app') : Rehears app app' := .kept h.receiver h.spawned h.fatal

theorem kept_of_hearing (h : app'.hearing = app.hearing) : Kept app app' := by
  simp only [hearing, stages, Prod.mk.injEq] at h
  obtain ⟨⟨-, -, -, hreceiver⟩, hspawned, hfatal, hstop⟩ := h
  exact ⟨fun hr => hreceiver ▸ hr, hspawned, fun hf => hfatal.trans hf, fun hs => hstop ▸ hs⟩

@[simp] theorem hearing_scheduleAutomaticRestart (app : MinerApp) (now : ℕ) :
    (app.scheduleAutomaticRestart platform now).hearing = app.hearing := by
  unfold scheduleAutomaticRestart
  dsimp only
  split_ifs <;> rfl

theorem rests_scheduleAutomaticRestart (app : MinerApp) (now : ℕ) :
    Rests app (app.scheduleAutomaticRestart platform now) := by
  unfold scheduleAutomaticRestart Rests
  dsimp only
  split_ifs
  · exact id
  · exact fun h => by cases h
  · exact fun h => by cases h

@[simp] theorem hearing_failEngineStart (app : MinerApp) (automatic : Bool) (now : ℕ) :
    (app.failEngineStart platform automatic now).hearing = app.hearing := by
  unfold failEngineStart
  dsimp only
  split_ifs
  · exact hearing_scheduleAutomaticRestart _ now
  · rfl

/-- Whatever was shown before, a failed start is not. -/
theorem rests_failEngineStart (before app : MinerApp) (automatic : Bool) (now : ℕ) :
    Rests before (app.failEngineStart platform automatic now) := by
  apply rests_of_ne
  unfold failEngineStart
  dsimp only
  split_ifs
  · exact fun h => by cases rests_scheduleAutomaticRestart { app with phase := .error } now h
  · exact fun h => by cases h

@[simp] theorem hearing_reapOrQuarantine (app : MinerApp) (child : Child) (os : Cleanup) :
    (app.reapOrQuarantine child os).1.hearing = app.hearing := by
  unfold reapOrQuarantine
  split <;> rfl

theorem phase_reapOrQuarantine (app : MinerApp) (child : Child) (os : Cleanup) :
    (app.reapOrQuarantine child os).1.phase = app.phase := by
  unfold reapOrQuarantine
  split <;> rfl

theorem rests_attachEngine (child : Child) (automatic : Bool) (env : StartEnv) :
    Rests app (app.attachEngine platform child automatic env) := by
  unfold attachEngine
  split
  · exact rests_failEngineStart _ _ _ _
  · split_ifs
    · exact rests_failEngineStart _ _ _ _
    · exact id

theorem rests_startEngine (app : MinerApp) (automatic : Bool) (env : StartEnv) :
    Rests app (app.startEngine platform automatic env) := by
  unfold startEngine
  split_ifs
  · exact rests_refl app
  · exact rests_failEngineStart _ _ _ _
  · exact rests_failEngineStart _ _ _ _
  · apply rests_of_ne
    intro hidle
    cases rests_attachEngine _ automatic env hidle

/-- What a start leaves of an app whose output is not read. -/
structure Starts (n : ℕ) (app : MinerApp) : Prop where
  spawned : n ≤ app.spawned
  attached : app.receiver = true → app.spawned = n + 1
  received : Received app

theorem Starts.of_hearing {n : ℕ} (h : Starts n app) (heq : app'.hearing = app.hearing) :
    Starts n app' := by
  have hstages : app'.stages = app.stages := congrArg Prod.fst heq
  simp only [hearing, stages, Prod.mk.injEq] at heq
  obtain ⟨⟨-, -, -, hreceiver⟩, hspawned, -⟩ := heq
  refine ⟨?_, ?_, h.received.congr hstages⟩
  · rw [hspawned]
    exact h.spawned
  · rw [hspawned, hreceiver]
    exact h.attached

/-- Nothing is heard, and `n` engines were spawned at least. -/
structure Silent (n : ℕ) (app : MinerApp) : Prop where
  receiver : app.receiver = false
  observed : app.observed = false
  spawned : n ≤ app.spawned

theorem Silent.starts {n : ℕ} (h : Silent n app) : Starts n app :=
  ⟨h.spawned, fun hr => absurd (h.receiver.symm.trans hr) Bool.false_ne_true,
    received_of_not_observed h.observed⟩

theorem Silent.attachEngine {n : ℕ} (h : Silent n app) (hn : app.spawned = n + 1) (child : Child)
    (automatic : Bool) (env : StartEnv) :
    Starts n (app.attachEngine platform child automatic env) := by
  have hreap := h.starts.of_hearing (hearing_reapOrQuarantine app child env.cleanup)
  unfold MinerApp.attachEngine
  split
  · exact hreap.of_hearing (hearing_failEngineStart ..)
  · split_ifs
    · exact hreap.of_hearing (hearing_failEngineStart ..)
    · exact ⟨h.spawned, fun _ => hn, fun _ => rfl⟩

theorem starts_startEngine (platform : Platform) (app : MinerApp)
    (hlive : app.hasLiveEngineState = false) (hreceiver : app.receiver = false) (automatic : Bool)
    (env : StartEnv) :
    Starts app.spawned (app.startEngine platform automatic env) := by
  have hidle := Budgeted.observed_of_live hlive
  have hreset : app.resetTelemetry.observed = false := by
    simp only [observed, Bool.or_eq_false_iff] at hidle ⊢
    exact ⟨hidle.1, rfl⟩
  unfold startEngine
  rw [if_neg (by simp [hlive])]
  dsimp only
  split_ifs
  · -- the settings or the memory do not allow it
    apply Starts.of_hearing _ (hearing_failEngineStart ..)
    apply Silent.starts
    exact ⟨hreceiver, hidle, le_rfl⟩
  · -- no process could be spawned
    apply Starts.of_hearing _ (hearing_failEngineStart ..)
    apply Silent.starts
    exact ⟨hreceiver, hreset, le_rfl⟩
  · apply Silent.attachEngine
    · exact ⟨hreceiver, hreset, Nat.le_succ _⟩
    · rfl

theorem hearing_cancelRecovery (app : MinerApp) : app.cancelRecovery.hearing = app.hearing := by
  unfold cancelRecovery
  dsimp only
  split_ifs <;> rfl

theorem kept_cleanupChild (app : MinerApp) (os : Cleanup) : Kept app (app.cleanupChild os) := by
  unfold cleanupChild
  split
  · exact kept_of_hearing rfl
  · next child _ =>
    have hreap := kept_of_hearing (hearing_reapOrQuarantine { app with child := none } child os)
    exact ⟨hreap.receiver, hreap.spawned, hreap.fatal, hreap.stop⟩

/-- Its one lasting mark on what is heard is the deadline, and it counts as fatal. -/
theorem kept_beginObservationFailure (app : MinerApp) (os : Cleanup) (now : ℕ) :
    Kept app (app.beginObservationFailure os now) := by
  unfold beginObservationFailure
  split_ifs
  · exact kept_of_hearing rfl
  · have hcleanup := kept_cleanupChild { app with
      engineFatalSeen := true, nodeLinkLive := false, requestedStop := false,
      workerErrorCanRestoreMining := false, phase := .error } os
    exact ⟨hcleanup.receiver, hcleanup.spawned, fun _ => hcleanup.fatal rfl,
      fun hs => absurd (hcleanup.stop hs) Bool.false_ne_true⟩

theorem phase_cleanupChild (app : MinerApp) (os : Cleanup) :
    (app.cleanupChild os).phase = app.phase := by
  unfold cleanupChild
  split
  · rfl
  · exact phase_reapOrQuarantine { app with child := none } _ os

theorem rests_beginObservationFailure (app : MinerApp) (os : Cleanup) (now : ℕ) :
    Rests app (app.beginObservationFailure os now) := by
  unfold beginObservationFailure
  split_ifs
  · exact rests_refl app
  · unfold Rests
    dsimp only
    rw [phase_cleanupChild]
    exact fun h => by cases h

theorem received_beginObservationFailure {starts : ℕ} (h : Budgeted starts app)
    (hreceived : Received app) (hchild : app.child.isSome) (os : Cleanup) (now : ℕ) :
    Received (app.beginObservationFailure os now) ∧
      (app.beginObservationFailure os now).receiver = app.receiver := by
  have hfailure : app.pendingObservationFailure = none := by
    by_contra hfailure
    rw [h.observation (Option.isSome_iff_ne_none.2 hfailure)] at hchild
    cases hchild
  have hstages := stages_beginObservationFailure os now hfailure
  simp only [stages, Prod.mk.injEq] at hstages
  obtain ⟨-, -, -, hreceiver⟩ := hstages
  refine ⟨fun _ => ?_, hreceiver⟩
  rw [hreceiver]
  exact hreceived (by simp [observed, hchild])

theorem rehears_stop {starts : ℕ} (h : Budgeted starts app) (hreceived : Received app)
    (env : StopEnv) : Rehears app (app.stop env) ∧ Received (app.stop env) := by
  have hcancel := hearing_cancelRecovery app
  have hkept := kept_of_hearing hcancel
  have hreceived' : Received app.cancelRecovery := hreceived.congr (congrArg Prod.fst hcancel)
  have hretry : (app.cancelRecovery.retryQuarantined env.quarantined).hearing =
      app.cancelRecovery.hearing := by
    unfold retryQuarantined
    split
    · rfl
    · exact hearing_reapOrQuarantine { app.cancelRecovery with quarantinedChild := none } _ _
  unfold MinerApp.stop
  dsimp only
  split
  · have hwithout : (app.cancelRecovery.stopWithoutChild env).hearing =
        app.cancelRecovery.hearing := by
      unfold stopWithoutChild
      dsimp only
      split_ifs <;> exact hretry
    exact ⟨(hkept.trans (kept_of_hearing hwithout)).rehears,
      hreceived'.congr (stages_stopWithoutChild ..)⟩
  · next child hchild =>
    have hsome : app.cancelRecovery.child.isSome := by rw [hchild]; rfl
    have hreceiver : app.cancelRecovery.receiver = true :=
      hreceived' (by simp [observed, hchild])
    split
    · exact ⟨(hkept.trans (kept_beginObservationFailure ..)).rehears,
        (received_beginObservationFailure h.cancelRecovery hreceived' hsome _ _).1⟩
    · exact ⟨Rehears.kept hkept.receiver hkept.spawned hkept.fatal, fun _ => hreceiver⟩
    · split
      · exact ⟨Rehears.kept hkept.receiver hkept.spawned hkept.fatal, fun _ => hreceiver⟩
      · exact ⟨Rehears.kept hkept.receiver hkept.spawned fun _ => rfl, fun _ => hreceiver⟩

/-- Without a child there is nothing to stop. -/
theorem stages_stop (hchild : app.child = none) (env : StopEnv) :
    (app.stop env).stages = app.stages := by
  have hcancel : app.cancelRecovery.stages = app.stages :=
    congrArg Prod.fst (hearing_cancelRecovery app)
  have hnone : app.cancelRecovery.child = none := (congrArg Prod.fst hcancel).trans hchild
  unfold MinerApp.stop
  dsimp only
  rw [hnone]
  exact (stages_stopWithoutChild ..).trans hcancel

end Supervision

section Polling

/-- The child exited, or can no longer be observed, or nothing happened. -/
theorem pollChild_cases (app : MinerApp) (env : PollEnv) :
    app.pollChild env = app ∨
    (∃ child status, app.child = some child ∧ env.childTryWait = .ok (some status) ∧
      app.pollChild env = { app with
        child := none, nodeLinkLive := false, pendingExit := some status,
        osLog := .exited child :: app.osLog }) ∨
    ∃ child error, app.child = some child ∧ env.childTryWait = .error error ∧
      app.pollChild env = app.beginObservationFailure env.childCleanup env.observedAt := by
  unfold pollChild
  split_ifs
  · exact .inl rfl
  · split
    · next child status hchild hwait => exact .inr (.inl ⟨child, status, hchild, hwait, rfl⟩)
    · next child error hchild hwait => exact .inr (.inr ⟨child, error, hchild, hwait, rfl⟩)
    · exact .inl rfl

theorem kept_pollChild (app : MinerApp) (env : PollEnv) : Kept app (app.pollChild env) := by
  rcases pollChild_cases app env with h | ⟨child, status, -, -, h⟩ | ⟨child, error, -, -, h⟩
  · rw [h]
    exact kept_of_hearing rfl
  · rw [h]
    exact ⟨id, rfl, id, id⟩
  · rw [h]
    exact kept_beginObservationFailure ..

theorem rests_pollChild (app : MinerApp) (env : PollEnv) : Rests app (app.pollChild env) := by
  rcases pollChild_cases app env with h | ⟨child, status, -, -, h⟩ | ⟨child, error, -, -, h⟩
  · rw [h]
    exact rests_refl app
  · rw [h]
    exact id
  · rw [h]
    exact rests_beginObservationFailure app _ _

/-- Either the failure was there before, or this is its beginning. -/
theorem failure_pollChild (app : MinerApp) (env : PollEnv)
    (h : (app.pollChild env).pendingObservationFailure.isSome) :
    app.pendingObservationFailure.isSome ∨ ∃ error, env.childTryWait = .error error := by
  rcases pollChild_cases app env with hcase | ⟨child, status, -, -, hcase⟩ |
    ⟨child, error, -, hwait, -⟩
  · rw [hcase] at h
    exact .inl h
  · rw [hcase] at h
    exact .inl h
  · exact .inr ⟨error, hwait⟩

theorem received_pollChild {starts : ℕ} (h : Budgeted starts app) (hreceived : Received app)
    (env : PollEnv) :
    Received (app.pollChild env) ∧ (app.pollChild env).receiver = app.receiver := by
  rcases pollChild_cases app env with hcase | ⟨child, status, hchild, -, hcase⟩ |
    ⟨child, error, hchild, -, hcase⟩
  · rw [hcase]
    exact ⟨hreceived, rfl⟩
  · rw [hcase]
    exact ⟨fun _ => hreceived (by simp [observed, hchild]), rfl⟩
  · rw [hcase]
    exact received_beginObservationFailure h hreceived (by simp [hchild]) _ _

/-- The deadline of a child that cannot be observed: what is not read by then is given up. -/
theorem pollObservationFailure_cases (app : MinerApp) (env : PollEnv) (disconnected : Bool) :
    app.pollObservationFailure platform env disconnected = app ∨
    app.pendingObservationFailure.isSome ∧
      app.pollObservationFailure platform env disconnected =
        { app with receiver := false, readerThreads := 0, pendingObservationFailure := none
          }.finishObservationFailure platform env.observationFinishedAt := by
  unfold pollObservationFailure
  split
  · exact .inl rfl
  · next deadline hfailure =>
    split_ifs
    · exact .inr ⟨by rw [hfailure]; rfl, rfl⟩
    · exact .inl rfl

theorem hearing_finishObservationFailure (platform : Platform) (app : MinerApp) (now : ℕ) :
    (app.finishObservationFailure platform now).hearing = app.hearing := by
  unfold finishObservationFailure
  exact hearing_scheduleAutomaticRestart _ now

theorem pollObservationFailure_spec (platform : Platform) {starts : ℕ} (h : Budgeted starts app)
    (hreceived : Received app) (env : PollEnv) (disconnected : Bool) :
    Kept app (app.pollObservationFailure platform env disconnected) ∧
      Received (app.pollObservationFailure platform env disconnected) ∧
      Rests app (app.pollObservationFailure platform env disconnected) ∧
      ((app.pollObservationFailure platform env disconnected).receiver = app.receiver ∨
        app.pendingObservationFailure.isSome) := by
  rcases pollObservationFailure_cases app env disconnected with hcase | ⟨hsome, hcase⟩
  · rw [hcase]
    exact ⟨kept_of_hearing rfl, hreceived, rests_refl app, .inl rfl⟩
  · have hexit : app.pendingExit = none := by
      by_contra hexit
      rw [(h.exit (Option.isSome_iff_ne_none.2 hexit)).2] at hsome
      cases hsome
    have hidle : observed { app with
        receiver := false, readerThreads := 0, pendingObservationFailure := none } = false := by
      simp [observed, h.observation hsome, hexit]
    have hhearing := hearing_finishObservationFailure platform { app with
      receiver := false, readerThreads := 0, pendingObservationFailure := none }
      env.observationFinishedAt
    have hkept := kept_of_hearing hhearing
    rw [hcase]
    refine ⟨⟨fun hr => absurd (hkept.receiver hr) Bool.false_ne_true, hkept.spawned, hkept.fatal,
        hkept.stop⟩, (received_of_not_observed hidle).congr (congrArg Prod.fst hhearing), ?_,
      .inr hsome⟩
    unfold finishObservationFailure
    intro hrests
    cases rests_scheduleAutomaticRestart _ _ hrests

theorem hearing_pollQuarantined (app : MinerApp) (env : PollEnv) :
    (app.pollQuarantined env).hearing = app.hearing := by
  unfold pollQuarantined
  split <;> rfl

theorem phase_pollQuarantined (app : MinerApp) (env : PollEnv) :
    (app.pollQuarantined env).phase = app.phase := by
  unfold pollQuarantined
  split <;> rfl

theorem hearing_finishExitedChild (platform : Platform) (app : MinerApp) (status : ExitStatus)
    (now : ℕ) : (app.finishExitedChild platform status now).hearing = app.hearing := by
  unfold finishExitedChild
  dsimp only
  split_ifs
  · rfl
  · rw [hearing_scheduleAutomaticRestart]
    split <;> rfl

/-- An engine that was asked to stop, and exited as a killed process does. -/
def StoppedCleanly (platform : Platform) (app : MinerApp) (status : ExitStatus) : Prop :=
  app.requestedStop = true ∧ app.engineFatalSeen = false ∧
    exitStatusMatchesRequestedStop platform status = true

theorem phase_finishExitedChild {status : ExitStatus} {now : ℕ}
    (h : (app.finishExitedChild platform status now).phase = .idle) :
    StoppedCleanly platform app status := by
  unfold finishExitedChild at h
  dsimp only at h
  split_ifs at h with hclean
  · obtain ⟨hstop, hfatal, hstatus⟩ := hclean
    exact ⟨hstop, by simpa [clearActiveWork] using hfatal, hstatus⟩
  · have hphase := rests_scheduleAutomaticRestart _ _ h
    split at hphase <;> cases hphase

theorem pollExit_spec (platform : Platform) {starts : ℕ} (h : Budgeted starts app)
    (hreceived : Received app) (env : PollEnv) (disconnected : Bool) :
    Kept app (app.pollExit platform env disconnected) ∧
      Received (app.pollExit platform env disconnected) ∧
      ((app.pollExit platform env disconnected).receiver = app.receiver ∨ disconnected = true) ∧
      ((app.pollExit platform env disconnected).phase = .idle → app.phase = .idle ∨
        ∃ status, app.pendingExit = some status ∧ disconnected = true ∧
          StoppedCleanly platform app status) := by
  unfold MinerApp.pollExit
  split
  · next status hexit =>
    have hsome : app.pendingExit.isSome := by rw [hexit]; rfl
    have hidle : observed { app with
        pendingExit := none, receiver := false, readerThreads := 0 } = false := by
      simp [observed, (h.exit hsome).1, (h.exit hsome).2]
    split_ifs with hdisconnected
    · have hhearing := hearing_finishExitedChild platform { app with
        pendingExit := none, receiver := false, readerThreads := 0 } status env.exitFinishedAt
      have hkept := kept_of_hearing hhearing
      refine ⟨⟨fun hr => absurd (hkept.receiver hr) Bool.false_ne_true, hkept.spawned, hkept.fatal,
          hkept.stop⟩, (received_of_not_observed hidle).congr (congrArg Prod.fst hhearing),
        .inr hdisconnected, fun hrests => .inr ⟨status, hexit, hdisconnected, ?_⟩⟩
      have hclean : StoppedCleanly platform { app with
        pendingExit := none, receiver := false, readerThreads := 0 } status :=
        phase_finishExitedChild hrests
      exact hclean
    · exact ⟨kept_of_hearing rfl, hreceived, .inl rfl, .inl⟩
  · exact ⟨kept_of_hearing rfl, hreceived, .inl rfl, .inl⟩

theorem kept_pollReaders (app : MinerApp) (env : PollEnv) (had disconnected : Bool) :
    Kept app (app.pollReaders env had disconnected) := by
  unfold pollReaders
  dsimp only
  split_ifs
  · exact ⟨id, rfl, fun _ => rfl, id⟩
  · exact ⟨id, rfl, id, id⟩
  · exact ⟨id, rfl, id, id⟩
  · exact ⟨id, rfl, id, id⟩

theorem rests_pollReaders (app : MinerApp) (env : PollEnv) (had disconnected : Bool) :
    Rests app (app.pollReaders env had disconnected) := by
  unfold pollReaders Rests
  dsimp only
  split_ifs
  · exact fun h => by cases h
  · exact id
  · exact id
  · exact id

/-- What the poll makes of the engine once its messages are drained. -/
structure Polled (platform : Platform) (env : PollEnv) (disconnected : Bool)
    (app app' : MinerApp) : Prop where
  kept : Kept app app'
  received : Received app'
  /-- The output is given up when it is complete, or when the engine could not be observed. -/
  ends : app'.receiver = app.receiver ∨ disconnected = true ∨
    app.pendingObservationFailure.isSome ∨ ∃ error, env.childTryWait = .error error
  rests : app'.phase = .idle → app.phase = .idle ∨ disconnected = true ∧
    app.receiver = true ∧ ∃ status, StoppedCleanly platform app status

theorem polled (platform : Platform) {starts : ℕ} (h : Budgeted starts app)
    (hreceived : Received app) (env : PollEnv) (had disconnected : Bool) :
    Polled platform env disconnected app
      (((((app.pollChild env).pollObservationFailure platform env disconnected).pollQuarantined
        env).pollExit platform env disconnected).pollReaders env had disconnected) := by
  have hkeptChild := kept_pollChild app env
  have hrestsChild := rests_pollChild app env
  have hfailureChild := failure_pollChild app env
  obtain ⟨hreceivedChild, hreceiverChild⟩ := received_pollChild h hreceived env
  have hbudgeted := h.pollChild env
  set a := app.pollChild env
  obtain ⟨hkeptFailure, hreceivedFailure, hrestsFailure, hends⟩ :=
    pollObservationFailure_spec platform hbudgeted hreceivedChild env disconnected
  have hbudgeted' := @Budgeted.pollObservationFailure platform a starts hbudgeted env disconnected
  set b := a.pollObservationFailure platform env disconnected
  have hkeptQuarantined := kept_of_hearing (hearing_pollQuarantined b env)
  have hstages := stages_pollQuarantined b env
  have hreceiver : (b.pollQuarantined env).receiver = b.receiver :=
    congrArg (fun x => x.2.2.2) hstages
  have hphase := phase_pollQuarantined b env
  have hbudgeted'' := hbudgeted'.congr hstages (recovery_pollQuarantined b env)
  have hreceived'' := hreceivedFailure.congr hstages
  set c := b.pollQuarantined env
  obtain ⟨hkeptExit, hreceivedExit, hendsExit, hrestsExit⟩ :=
    pollExit_spec platform hbudgeted'' hreceived'' env disconnected
  set d := c.pollExit platform env disconnected
  have hkeptReaders := kept_pollReaders d env had disconnected
  have hstagesReaders := stages_pollReaders d env had disconnected
  have hkept : Kept app c := (hkeptChild.trans hkeptFailure).trans hkeptQuarantined
  refine ⟨(hkept.trans hkeptExit).trans hkeptReaders, hreceivedExit.congr hstagesReaders, ?_, ?_⟩
  · have hreaders : (d.pollReaders env had disconnected).receiver = d.receiver :=
      congrArg (fun x => x.2.2.2) hstagesReaders
    rw [hreaders]
    rcases hendsExit with hsame | hcomplete
    · rcases hends with hsame' | hsome
      · exact .inl (hsame.trans (hreceiver.trans (hsame'.trans hreceiverChild)))
      · exact .inr (.inr (hfailureChild hsome))
    · exact .inr (.inl hcomplete)
  · intro hidle
    -- it was at rest before, or the end of an exit brought it there
    have hidle' : d.phase = .idle := rests_pollReaders d env had disconnected hidle
    rcases hrestsExit hidle' with hrests | ⟨status, hexit, hcomplete, hclean⟩
    · exact .inl (hrestsChild (hrestsFailure (hphase.symm.trans hrests)))
    · have hreading : c.receiver = true := hreceived'' (by simp [observed, hexit])
      have hfatal : app.engineFatalSeen = false := by
        by_contra hseen
        rw [Bool.not_eq_false] at hseen
        exact Bool.false_ne_true (hclean.2.1.symm.trans (hkept.fatal hseen))
      exact .inr ⟨hcomplete, hkept.receiver hreading, status, hkept.stop hclean.1, hfatal,
        hclean.2.2⟩

theorem rehears_pollRestart (platform : Platform) {starts : ℕ} (h : Budgeted starts app)
    (hreceived : Received app) (env : PollEnv) :
    Rehears app (app.pollRestart platform env) ∧ Received (app.pollRestart platform env) := by
  unfold MinerApp.pollRestart
  split_ifs with hdue
  · have hlive : app.hasLiveEngineState = false := by simpa using hdue.2
    have hreceiver := h.notReading (Budgeted.observed_of_live hlive)
    have hstarts : Starts app.spawned ({ app with automaticRestartAt := none }.startEngine platform
        true env.restart) :=
      starts_startEngine platform { app with automaticRestartAt := none } hlive hreceiver true _
    exact ⟨.started hreceiver hstarts.spawned hstarts.attached, hstarts.received⟩
  · exact ⟨.refl app, hreceived⟩

/-- Nothing is restarted while output is read. -/
theorem pollRestart_of_receiver {starts : ℕ} (h : Budgeted starts app)
    (hreceiver : app.receiver = true) (env : PollEnv) : app.pollRestart platform env = app := by
  have hobserved := h.reading hreceiver
  unfold MinerApp.pollRestart
  apply if_neg
  rintro ⟨-, hlive⟩
  have hidle : app.observed = false := Budgeted.observed_of_live (by simpa using hlive)
  exact Bool.false_ne_true (hidle.symm.trans hobserved)

theorem rests_pollRestart (platform : Platform) (app : MinerApp) (env : PollEnv) :
    Rests app (app.pollRestart platform env) := by
  unfold pollRestart
  split_ifs
  · exact rests_startEngine { app with automaticRestartAt := none } true env.restart
  · exact rests_refl app

theorem stages_drainProcessMessages (platform : Platform) (app : MinerApp) (env : PollEnv) :
    (app.drainProcessMessages platform env).1.stages = app.stages :=
  show (app.drainProcessMessages platform env).1.unpainted.stages = app.unpainted.stages from
    congrArg stages (Repaints.drainProcessMessages env).unpainted

theorem spawned_drainProcessMessages (platform : Platform) (app : MinerApp) (env : PollEnv) :
    (app.drainProcessMessages platform env).1.spawned = app.spawned :=
  show (app.drainProcessMessages platform env).1.unpainted.spawned = app.unpainted.spawned from
    congrArg spawned (Repaints.drainProcessMessages env).unpainted

theorem requestedStop_drainProcessMessages (platform : Platform) (app : MinerApp) (env : PollEnv) :
    (app.drainProcessMessages platform env).1.requestedStop = app.requestedStop :=
  show (app.drainProcessMessages platform env).1.unpainted.requestedStop =
      app.unpainted.requestedStop from
    congrArg requestedStop (Repaints.drainProcessMessages env).unpainted

theorem disconnected_drainProcessMessages (platform : Platform) (hreceiver : app.receiver = true)
    (env : PollEnv) : (app.drainProcessMessages platform env).2 = env.disconnected := by
  rw [drainProcessMessages, if_pos hreceiver]

theorem polled_beforeRestart (platform : Platform) {starts : ℕ} (h : Budgeted starts app)
    (hreceived : Received app) (env : PollEnv) :
    Polled platform env (app.drainProcessMessages platform env).2
      (app.drainProcessMessages platform env).1 (app.beforeRestart platform env) :=
  polled platform (@Budgeted.drainProcessMessages platform app starts h env)
    (hreceived.congr (stages_drainProcessMessages platform app env)) env app.receiver _

end Polling

end MinerApp
end XusMiner.Gui

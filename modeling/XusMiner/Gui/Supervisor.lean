import XusMiner.Gui.App

namespace XusMiner.Gui

def outputDisconnectGrace : Nat := 500
def observationFailureDrainGrace : Nat := 2000
def maxProcessMessagesPerFrame : Nat := 64

inductive ProcessMessage
  | telemetry (value : Value)
  | log (line : String)

/-- What `start_engine` is told on its way: by the settings check and the memory preflight, by
the operating system, and by the spawns of the two reader threads. -/
structure StartEnv where
  settingsError : Option String
  memoryError : Option String
  executableError : Option IoError
  spawnError : Option IoError
  stdin : Option (Except IoError Unit)
  telemetryReaderError : Option String
  engineLogReaderError : Option String
  cleanup : Cleanup
  now : Nat

/-- What one `poll_process` is told. The instants are the separate readings of the clock. -/
structure PollEnv where
  messages : List (Nat × ProcessMessage)
  disconnected : Bool
  childTryWait : Except IoError (Option ExitStatus)
  childCleanup : Cleanup
  observedAt : Nat
  drainCheckedAt : Nat
  observationFinishedAt : Nat
  quarantinedTryWait : Except IoError (Option ExitStatus)
  exitFinishedAt : Nat
  readerFinished : Bool
  readersCheckedAt : Nat
  graceCheckedAt : Nat
  restartCheckedAt : Nat
  restart : StartEnv

/-- What the operating system answers to a `stop`. -/
structure StopEnv where
  quarantined : Cleanup
  childTryWait : Except IoError (Option ExitStatus)
  childCleanup : Cleanup
  observedAt : Nat
  kill : Except IoError Unit

namespace MinerApp

/-- `terminate_and_reap_child` and what every caller does with the handle: it is dropped once
the exit is proven, and quarantined otherwise. -/
def reapOrQuarantine (app : MinerApp) (child : Child) (os : Cleanup) :
    MinerApp × Except String ExitStatus :=
  match terminateAndReapChild os with
  | .ok status => ({ app with osLog := .exited child :: app.osLog }, .ok status)
  | .error error => ({ app with quarantinedChild := some child }, .error error)

variable (platform : Platform)

def scheduleAutomaticRestart (app : MinerApp) (now : Nat) : MinerApp :=
  if app.requestedStop ∨ !app.automaticRecoveryEnabled then app
  else
    let app := { app with
      singleWorkerRecovery := app.singleWorkerRecovery || platform == Platform.windows }
    -- the budget is spent: the operator has to start again
    if maxAutomaticEngineRestarts ≤ app.automaticRestartAttempts then
      { app with automaticRecoveryEnabled := false, automaticRestartAt := none, phase := .error }
    else
      let attempts := app.automaticRestartAttempts + 1
      { app with
        automaticRestartAttempts := attempts,
        automaticRestartAt := some (now + automaticRestartDelay attempts),
        phase := .reconnecting }

def failEngineStart (app : MinerApp) (automatic : Bool) (now : Nat) : MinerApp :=
  let app := { app with phase := .error }
  if automatic then app.scheduleAutomaticRestart platform now else app

/-- `start_engine` once `spawn` has returned a child. -/
def attachEngine (app : MinerApp) (child : Child) (automatic : Bool) (env : StartEnv) : MinerApp :=
  match env.stdin with
  | some (.error _) =>
    (app.reapOrQuarantine child env.cleanup).1.failEngineStart platform automatic env.now
  | _ =>
    if env.telemetryReaderError.isSome ∨ env.engineLogReaderError.isSome then
      (app.reapOrQuarantine child env.cleanup).1.failEngineStart platform automatic env.now
    else { app with receiver := true, readerThreads := 2, child := some child }

def startEngine (app : MinerApp) (automatic : Bool) (env : StartEnv) : MinerApp :=
  if app.hasLiveEngineState then app
  else
    let app := { app with automaticRestartAt := none }
    if env.settingsError.isSome ∨ env.memoryError.isSome then
      app.failEngineStart platform automatic env.now
    else
      let app := { app.resetTelemetry with phase := .starting, requestedStop := false }
      if env.executableError.isSome ∨ env.spawnError.isSome then
        app.failEngineStart platform automatic env.now
      else
        let child : Child := ⟨app.spawned⟩
        let app := { app with
          spawned := app.spawned + 1, osLog := .spawned child :: app.osLog }
        app.attachEngine platform child automatic env

def start (app : MinerApp) (env : StartEnv) : MinerApp :=
  if app.isRunning then app
  else
    { app with
      automaticRestartAttempts := 0, singleWorkerRecovery := false,
      lightRandomxRecovery := false,
      automaticRecoveryEnabled := true }.startEngine platform false env

/-- The cleanup of a child that can no longer be observed. -/
def cleanupChild (app : MinerApp) (os : Cleanup) : MinerApp :=
  match app.child with
  | none => app
  | some child => ({ app with child := none }.reapOrQuarantine child os).1

def beginObservationFailure (app : MinerApp) (os : Cleanup) (now : Nat) : MinerApp :=
  if app.pendingObservationFailure.isSome then app
  else
    let app := { app with
      engineFatalSeen := true, nodeLinkLive := false, requestedStop := false,
      workerErrorCanRestoreMining := false, phase := .error }
    { app.cleanupChild os with
      pendingObservationFailure := some (now + observationFailureDrainGrace) }

/-- One more attempt at a quarantined child. -/
def retryQuarantined (app : MinerApp) (os : Cleanup) : MinerApp :=
  match app.quarantinedChild with
  | none => app
  | some child => ({ app with quarantinedChild := none }.reapOrQuarantine child os).1

def stopWithoutChild (app : MinerApp) (env : StopEnv) : MinerApp :=
  let app := app.retryQuarantined env.quarantined
  if app.pendingExit.isSome ∨ app.pendingObservationFailure.isSome then
    { app with phase := .stopping }
  else if app.quarantinedChild.isNone then { app with phase := .idle }
  else app

/-- The operator's stop clears the recovery latch before anything else. -/
def cancelRecovery (app : MinerApp) : MinerApp :=
  let app := { app with automaticRecoveryEnabled := false }
  if app.automaticRestartAt.isSome then
    { app with automaticRestartAt := none, automaticRestartAttempts := 0, nodeLinkLive := false }
  else app

def stop (app : MinerApp) (env : StopEnv) : MinerApp :=
  let app := app.cancelRecovery
  match app.child with
  | none => app.stopWithoutChild env
  | some child =>
    match env.childTryWait with
    | .error _ => app.beginObservationFailure env.childCleanup env.observedAt
    -- it exited by itself in the meantime
    | .ok (some status) =>
      { app with child := none, pendingExit := some status, osLog := .exited child :: app.osLog }
    | .ok none =>
      let app := { app with
        workerErrorCanRestoreMining := false, nodeLinkLive := false, phase := .stopping }
      match env.kill with
      | .ok () => { app with requestedStop := true }
      | .error _ => { app with engineFatalSeen := true, phase := .error }

def applyProcessMessage (app : MinerApp) (message : Nat × ProcessMessage) : MinerApp :=
  match message.2 with
  | .telemetry value => app.applyTelemetry platform message.1 value
  | .log _ => app

def drainProcessMessages (app : MinerApp) (env : PollEnv) : MinerApp × Bool :=
  if app.receiver then
    ((env.messages.take maxProcessMessagesPerFrame).foldl (applyProcessMessage platform) app,
      env.disconnected)
  else (app, true)

def finishObservationFailure (app : MinerApp) (now : Nat) : MinerApp :=
  { app.clearActiveWork with
    hashrate := .float 0, readyWorkerIds := ∅, readyWorkers := 0, outputDisconnectedAt := none,
    nodeLinkLive := false, phase := .error }.scheduleAutomaticRestart platform now

def finishExitedChild (app : MinerApp) (status : ExitStatus) (now : Nat) : MinerApp :=
  let app := { app.clearActiveWork with
    workerErrorCanRestoreMining := false, hashrate := .float 0, readyWorkerIds := ∅,
    readyWorkers := 0, outputDisconnectedAt := none, nodeLinkLive := false }
  if app.requestedStop ∧ !app.engineFatalSeen ∧
      exitStatusMatchesRequestedStop platform status then
    { app with phase := .idle }
  else
    let app := { app with phase := .error }
    let app := match recoveryEscalation platform status app.lightRandomxRecovery
        app.automaticRestartAttempts with
      | .keep =>
        { app with
          singleWorkerRecovery := app.singleWorkerRecovery || platform == Platform.windows }
      | .light => { app with singleWorkerRecovery := true, lightRandomxRecovery := true }
      | .terminal => { app with automaticRecoveryEnabled := false }
    app.scheduleAutomaticRestart platform now

/-- The observation of the child at the top of `poll_process`. -/
def pollChild (app : MinerApp) (env : PollEnv) : MinerApp :=
  if app.pendingExit.isSome ∨ app.pendingObservationFailure.isSome then app
  else match app.child, env.childTryWait with
    | some child, .ok (some status) =>
      { app with
        child := none, nodeLinkLive := false, pendingExit := some status,
        osLog := .exited child :: app.osLog }
    | some _, .error _ => app.beginObservationFailure env.childCleanup env.observedAt
    | _, _ => app

def pollObservationFailure (app : MinerApp) (env : PollEnv) (disconnected : Bool) : MinerApp :=
  match app.pendingObservationFailure with
  | none => app
  | some drainDeadline =>
    -- what the child said before is drained first
    if disconnected ∨ drainDeadline ≤ env.drainCheckedAt then
      { app with receiver := false, readerThreads := 0, pendingObservationFailure := none
        }.finishObservationFailure platform env.observationFinishedAt
    else app

def pollQuarantined (app : MinerApp) (env : PollEnv) : MinerApp :=
  match app.quarantinedChild, env.quarantinedTryWait with
  | some child, .ok (some _) =>
    { app with quarantinedChild := none, osLog := .exited child :: app.osLog }
  | _, _ => app

def pollExit (app : MinerApp) (env : PollEnv) (disconnected : Bool) : MinerApp :=
  match app.pendingExit with
  | some status =>
    -- the exit waits for the last line of output
    if disconnected then
      { app with pendingExit := none, receiver := false, readerThreads := 0
        }.finishExitedChild platform status env.exitFinishedAt
    else app
  | none => app

def pollReaders (app : MinerApp) (env : PollEnv) (hadOutputReceiver disconnected : Bool) :
    MinerApp :=
  let readerEnded := disconnected || (app.readerThreads ≠ 0 && env.readerFinished)
  if app.pendingExit.isNone ∧ app.child.isSome ∧ readerEnded then
    -- the child still runs, but nobody can read it
    let endedAt := app.outputDisconnectedAt.getD env.readersCheckedAt
    let app := { app with outputDisconnectedAt := some endedAt }
    if endedAt + outputDisconnectGrace ≤ env.graceCheckedAt ∧ !app.requestedStop ∧
        !app.engineFatalSeen then
      { app with
        engineFatalSeen := true, nodeLinkLive := false, workerErrorCanRestoreMining := false,
        phase := .error }
    else app
  else if hadOutputReceiver ∧ !readerEnded then { app with outputDisconnectedAt := none }
  else app

def pollRestart (app : MinerApp) (env : PollEnv) : MinerApp :=
  if app.automaticRestartAt.any (· ≤ env.restartCheckedAt) ∧ !app.hasLiveEngineState then
    { app with automaticRestartAt := none }.startEngine platform true env.restart
  else app

def pollProcess (app : MinerApp) (env : PollEnv) : MinerApp :=
  let hadOutputReceiver := app.receiver
  let drained := app.drainProcessMessages platform env
  let app := drained.1.pollChild env
  let app := app.pollObservationFailure platform env drained.2
  let app := app.pollQuarantined env
  let app := app.pollExit platform env drained.2
  let app := app.pollReaders env hadOutputReceiver drained.2
  app.pollRestart platform env

end MinerApp

/-- The operations of the window on its supervisor. -/
inductive Operation
  | start (env : StartEnv)
  | stop (env : StopEnv)
  | pollProcess (env : PollEnv)
  | applyTelemetry (now : Nat) (value : Value)
  | automaticRestart (env : StartEnv)
  | staleTelemetry
  | editWorkers (workers : UInt64)

def MinerApp.step (platform : Platform) (app : MinerApp) : Operation → MinerApp
  | .start env => app.start platform env
  | .stop env => app.stop env
  | .pollProcess env => app.pollProcess platform env
  | .applyTelemetry now value => app.applyTelemetry platform now value
  | .automaticRestart env => app.startEngine platform true env
  | .staleTelemetry => { app with stableHashingSince := none }
  | .editWorkers workers => if app.isRunning then app else { app with workers := workers }

def MinerApp.run (platform : Platform) (app : MinerApp) (operations : List Operation) : MinerApp :=
  operations.foldl (MinerApp.step platform) app

end XusMiner.Gui

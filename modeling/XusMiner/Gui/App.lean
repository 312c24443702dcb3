import XusMiner.Gui.Process
import XusMiner.Json

namespace XusMiner.Gui

inductive Phase
  | idle
  | starting
  | connecting
  | authenticating
  | mining
  | reconnecting
  | stopping
  | error
  deriving DecidableEq

/-- The events that change more than what is displayed. -/
inductive EngineEvent
  | startup
  | connecting
  | poolConnected
  | nodeConnected
  | workerInitializing
  | workerReady
  | workerError
  | workerRecovered
  | engineFatal
  | job
  | jobCleared
  | metrics
  | sessionError
  deriving DecidableEq

def EngineEvent.ofName : String → Option EngineEvent
  | "startup" => some .startup
  | "connecting" => some .connecting
  | "pool_connected" => some .poolConnected
  | "node_connected" => some .nodeConnected
  | "worker_initializing" => some .workerInitializing
  | "worker_ready" => some .workerReady
  | "worker_error" => some .workerError
  | "worker_recovered" => some .workerRecovered
  | "engine_fatal" => some .engineFatal
  | "job" => some .job
  | "job_cleared" => some .jobCleared
  | "metrics" => some .metrics
  | "session_error" => some .sessionError
  | _ => none

def waitingForWork : String := "Waiting for work"

def engineStabilityReset : Nat := 5 * 60 * 1000

/-- The window's state, less what it only displays: log lines, error texts, rates and charts.
`osLog` records what the operating system was asked to run and what it proved to have ended. -/
structure MinerApp where
  workers : UInt64 := 1
  phase : Phase := .idle
  child : Option Child := none
  quarantinedChild : Option Child := none
  pendingExit : Option ExitStatus := none
  pendingObservationFailure : Option Nat := none
  receiver : Bool := false
  readerThreads : Nat := 0
  outputDisconnectedAt : Option Nat := none
  requestedStop : Bool := false
  automaticRecoveryEnabled : Bool := false
  automaticRestartAt : Option Nat := none
  automaticRestartAttempts : Nat := 0
  singleWorkerRecovery : Bool := false
  lightRandomxRecovery : Bool := false
  stableHashingSince : Option Nat := none
  hashrate : Number := .float 0
  height : Option UInt64 := none
  jobId : String := waitingForWork
  jobObservedInMetrics : Bool := false
  joblessMetricsSeen : UInt8 := 0
  coinbase : Option String := none
  expectedHashes : Option Number := none
  roundHashes : UInt64 := 0
  roundProbability : Option Number := none
  readyWorkers : Nat := 0
  readyWorkerIds : Finset UInt64 := ∅
  workerErrors : Finset UInt64 := ∅
  workerErrorCanRestoreMining : Bool := false
  engineFatalSeen : Bool := false
  nodeLinkLive : Bool := false
  spawned : Nat := 0
  osLog : List OsEvent := []

namespace MinerApp

def effectiveEngineWorkers (platform : Platform) (app : MinerApp) : UInt64 :=
  if platform = .windows ∧ app.singleWorkerRecovery then 1 else app.workers

def hasLiveEngineState (app : MinerApp) : Bool :=
  app.child.isSome || app.quarantinedChild.isSome || app.pendingExit.isSome ||
    app.pendingObservationFailure.isSome

def isRunning (app : MinerApp) : Bool := app.hasLiveEngineState || app.automaticRestartAt.isSome

def resetTelemetry (app : MinerApp) : MinerApp :=
  { app with
    hashrate := .float 0, height := none, jobId := waitingForWork, jobObservedInMetrics := false,
    joblessMetricsSeen := 0, coinbase := none, expectedHashes := none, roundHashes := 0,
    roundProbability := none, readyWorkers := 0, readyWorkerIds := ∅, workerErrors := ∅,
    workerErrorCanRestoreMining := false, engineFatalSeen := false, outputDisconnectedAt := none,
    pendingObservationFailure := none, nodeLinkLive := false, stableHashingSince := none }

def clearActiveWork (app : MinerApp) : MinerApp :=
  { app with
    height := none, jobId := waitingForWork, jobObservedInMetrics := false,
    joblessMetricsSeen := 0, coinbase := none, expectedHashes := none, roundHashes := 0,
    roundProbability := none, stableHashingSince := none }

def markWorkerUnready (app : MinerApp) (worker : UInt64) : MinerApp :=
  let ids := app.readyWorkerIds.erase worker
  { app with readyWorkerIds := ids, readyWorkers := ids.card, stableHashingSince := none }

def markWorkerReady (platform : Platform) (app : MinerApp) (worker : UInt64) : MinerApp :=
  if app.effectiveEngineWorkers platform ≤ worker ∨ app.engineFatalSeen then app
  else
    let ids := insert worker app.readyWorkerIds
    let errors := app.workerErrors.erase worker
    let restored := worker ∈ app.workerErrors ∧ app.workerErrorCanRestoreMining ∧
      app.phase = .error ∧ errors = ∅
    { app with
      readyWorkerIds := ids, readyWorkers := ids.card, workerErrors := errors,
      phase := if restored then .mining else app.phase,
      workerErrorCanRestoreMining := app.workerErrorCanRestoreMining && errors ≠ ∅ }

def enterMiningPhase (app : MinerApp) : MinerApp :=
  if app.engineFatalSeen then { app with phase := .error, workerErrorCanRestoreMining := false }
  else if app.workerErrors ≠ ∅ then
    { app with phase := .error, workerErrorCanRestoreMining := true }
  else { app with phase := .mining, workerErrorCanRestoreMining := false }

def enterConnectionPhase (app : MinerApp) (phase : Phase) : MinerApp :=
  { app with
    phase := if app.engineFatalSeen || app.workerErrors ≠ ∅ then .error else phase,
    workerErrorCanRestoreMining := false }

/-- A `metrics` event confirms the job at hand, or counts as one without a job. -/
def metricsActiveWork (app : MinerApp) (value : Value) : MinerApp :=
  match (value.get "height").bind Value.asU64 with
  | some height =>
    if app.height = some height ∧ app.jobId ≠ waitingForWork then
      { app with jobObservedInMetrics := true, joblessMetricsSeen := 0 }
    else app
  | none =>
    if (value.get "height").any Value.isNull ∧ app.jobId ≠ waitingForWork then
      let seen := if app.joblessMetricsSeen = 255 then 255 else app.joblessMetricsSeen + 1
      if app.jobObservedInMetrics ∨ 2 ≤ seen then app.clearActiveWork
      else { app with joblessMetricsSeen := seen }
    else app

def metricsRound (app : MinerApp) (value : Value) : MinerApp :=
  let metricsHeight := (value.get "height").bind Value.asU64
  if (value.get "round_height").bind Value.asU64 = metricsHeight ∧ metricsHeight = app.height then
    { app with
      roundHashes := ((value.get "round_hashes").bind Value.asU64).getD app.roundHashes,
      roundProbability := app.expectedHashes.bind fun _ =>
        (((value.get "round_probability").bind Value.asF64).filter Number.isFinite).map
          Number.clampUnit }
  else app

/-- Five minutes of hashing by all workers reset the recovery budget. -/
def metricsStability (platform : Platform) (app : MinerApp) (now : Nat) : MinerApp :=
  if app.hashrate.isPositive ∧ app.nodeLinkLive ∧ app.workerErrors = ∅ ∧
      app.readyWorkers = (app.effectiveEngineWorkers platform).toNat then
    let stableSince := app.stableHashingSince.getD now
    { app with
      stableHashingSince := some stableSince,
      automaticRestartAttempts :=
        if stableSince + engineStabilityReset ≤ now then 0 else app.automaticRestartAttempts }
  else { app with stableHashingSince := none }

/-- The `metrics` event; `now` is when it is applied. -/
def applyMetrics (platform : Platform) (app : MinerApp) (now : Nat) (value : Value) : MinerApp :=
  let app := { app with
    hashrate := ((value.get "hashrate").bind Value.asF64).getD (.float 0),
    height := app.height.or ((value.get "height").bind Value.asU64) }
  ((app.metricsActiveWork value).metricsRound value).metricsStability platform now

def applyJob (app : MinerApp) (value : Value) : MinerApp :=
  let app := { app with nodeLinkLive := true }.enterMiningPhase
  let nextHeight := (value.get "height").bind Value.asU64
  let app := if nextHeight.isSome ∧ nextHeight ≠ app.height then
      { app with roundHashes := 0, roundProbability := some (.float 0) }
    else app
  let expected := ((value.get "expected_hashes").bind Value.asF64).filter fun n =>
    n.isFinite && n.isPositive
  { app with
    height := nextHeight,
    jobId := ((value.get "job_id").bind Value.asStr).getD "unknown",
    jobObservedInMetrics := false, joblessMetricsSeen := 0,
    coinbase := ((value.get "coinbase").bind Value.asStr).filter (· ≠ ""),
    expectedHashes := expected,
    roundProbability := if expected.isNone then none else app.roundProbability }

def applyJobCleared (app : MinerApp) (value : Value) : MinerApp :=
  let clearedHeight := (value.get "height").bind Value.asU64
  if clearedHeight.isSome ∧ (value.get "job_id").bind Value.asStr = some app.jobId ∧
      app.height = clearedHeight then app.clearActiveWork
  else app

def applyWorkerError (app : MinerApp) (worker : UInt64) : MinerApp :=
  let app := { app with
    workerErrorCanRestoreMining :=
      if app.workerErrors = ∅ then decide (app.phase = Phase.mining)
      else app.workerErrorCanRestoreMining }
  { app.markWorkerUnready worker with
    workerErrors := insert worker app.workerErrors, phase := .error }

def applyEngineFatal (app : MinerApp) : MinerApp :=
  { app.clearActiveWork with
    engineFatalSeen := true, nodeLinkLive := false, workerErrorCanRestoreMining := false,
    phase := .error, hashrate := .float 0, readyWorkerIds := ∅, readyWorkers := 0 }

def applySessionError (app : MinerApp) : MinerApp :=
  { app.clearActiveWork with
    nodeLinkLive := false, workerErrorCanRestoreMining := false, hashrate := .float 0,
    phase := if app.engineFatalSeen then app.phase else .reconnecting }

/-- The arms of `apply_telemetry`. -/
def applyEvent (platform : Platform) (app : MinerApp) (now : Nat) (value : Value) :
    EngineEvent → MinerApp
  | .startup | .connecting => { app with nodeLinkLive := false }.enterConnectionPhase .connecting
  | .poolConnected => app.enterConnectionPhase .authenticating
  | .nodeConnected => { app with nodeLinkLive := true }.enterMiningPhase
  | .workerInitializing => ((value.get "worker").bind Value.asU64).elim app app.markWorkerUnready
  | .workerReady | .workerRecovered =>
    ((value.get "worker").bind Value.asU64).elim app (app.markWorkerReady platform)
  | .workerError =>
    (((value.get "worker").bind Value.asU64).filter (· < app.effectiveEngineWorkers platform)).elim
      app app.applyWorkerError
  | .engineFatal => app.applyEngineFatal
  | .job => app.applyJob value
  | .jobCleared => app.applyJobCleared value
  | .metrics => app.applyMetrics platform now value
  | .sessionError => app.applySessionError

def applyTelemetry (platform : Platform) (app : MinerApp) (now : Nat) (value : Value) : MinerApp :=
  let event := ((value.get "event").bind Value.asStr).bind EngineEvent.ofName
  if app.engineFatalSeen ∨ (app.requestedStop ∧ event ≠ some .engineFatal) then app
  else event.elim app (app.applyEvent platform now value)

end MinerApp

end XusMiner.Gui

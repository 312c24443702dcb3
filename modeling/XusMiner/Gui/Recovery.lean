import XusMiner.Gui.Telemetry

namespace XusMiner.Gui

/-- The spawns of a log, newest first. -/
def spawns (log : List OsEvent) : List Child :=
  log.filterMap fun
    | .spawned child => some child
    | .exited _ => none

/-- The calls that ask for an engine. -/
def Operation.starts : Operation → Bool
  | .start _ | .automaticRestart _ => true
  | _ => false

/-- The calls of the window; `poll_process` makes `start_engine(true)` and `apply_telemetry`. -/
def Operation.ofWindow : Operation → Bool
  | .automaticRestart _ | .applyTelemetry .. => false
  | _ => true

namespace MinerApp

/-- What restarts are decided by, and the processes spawned so far. -/
def recovery (app : MinerApp) : Bool × Option Nat × Nat × List Child :=
  (app.automaticRecoveryEnabled, app.automaticRestartAt, app.automaticRestartAttempts,
    spawns app.osLog)

variable {platform : Platform} {app app' : MinerApp}

@[simp] theorem recovery_reapOrQuarantine (app : MinerApp) (child : Child) (os : Cleanup) :
    (app.reapOrQuarantine child os).1.recovery = app.recovery := by
  unfold reapOrQuarantine
  split <;> rfl

@[simp] theorem recovery_cleanupChild (app : MinerApp) (os : Cleanup) :
    (app.cleanupChild os).recovery = app.recovery := by
  unfold cleanupChild
  split
  · rfl
  · exact recovery_reapOrQuarantine ..

@[simp] theorem recovery_beginObservationFailure (app : MinerApp) (os : Cleanup) (now : Nat) :
    (app.beginObservationFailure os now).recovery = app.recovery := by
  unfold beginObservationFailure
  split_ifs
  · rfl
  · exact recovery_cleanupChild ..

@[simp] theorem recovery_retryQuarantined (app : MinerApp) (os : Cleanup) :
    (app.retryQuarantined os).recovery = app.recovery := by
  unfold retryQuarantined
  split
  · rfl
  · exact recovery_reapOrQuarantine ..

@[simp] theorem recovery_stopWithoutChild (app : MinerApp) (env : StopEnv) :
    (app.stopWithoutChild env).recovery = app.recovery := by
  have hretry := recovery_retryQuarantined app env.quarantined
  unfold stopWithoutChild
  dsimp only
  split_ifs <;> exact hretry

@[simp] theorem recovery_pollChild (app : MinerApp) (env : PollEnv) :
    (app.pollChild env).recovery = app.recovery := by
  unfold pollChild
  split_ifs
  · rfl
  · split
    · rfl
    · exact recovery_beginObservationFailure ..
    · rfl

@[simp] theorem recovery_pollQuarantined (app : MinerApp) (env : PollEnv) :
    (app.pollQuarantined env).recovery = app.recovery := by
  unfold pollQuarantined
  split <;> rfl

@[simp] theorem recovery_pollReaders (app : MinerApp) (env : PollEnv) (had disconnected : Bool) :
    (app.pollReaders env had disconnected).recovery = app.recovery := by
  unfold pollReaders recovery
  dsimp only
  split_ifs <;> rfl

/-- After a stop: recovery is off, nothing is due and `children` are all that was spawned. -/
structure Canceled (children : List Child) (app : MinerApp) : Prop where
  disabled : app.automaticRecoveryEnabled = false
  notDue : app.automaticRestartAt = none
  spawns : spawns app.osLog = children

namespace Canceled
variable {children : List Child}

theorem congr (h : Canceled children app) (heq : app'.recovery = app.recovery) :
    Canceled children app' := by
  simp only [recovery, Prod.mk.injEq] at heq
  exact ⟨heq.1.trans h.disabled, heq.2.1.trans h.notDue, heq.2.2.2.trans h.spawns⟩

theorem repaint (h : Canceled children app) (hrepaints : Repaints app app') :
    Canceled children app' := by
  have hsame : ∀ {β : Type} (f : MinerApp → β), f app'.unpainted = f app.unpainted :=
    fun f => congrArg f hrepaints.unpainted
  exact ⟨(hsame (·.automaticRecoveryEnabled)).trans h.disabled,
    (hsame (·.automaticRestartAt)).trans h.notDue,
    (hsame fun app => Gui.spawns app.osLog).trans h.spawns⟩

theorem scheduleAutomaticRestart (h : Canceled children app) (now : Nat) :
    Canceled children (app.scheduleAutomaticRestart platform now) := by
  unfold MinerApp.scheduleAutomaticRestart
  rw [if_pos (by simp [h.disabled])]
  exact h

theorem finishExitedChild (h : Canceled children app) (status : ExitStatus) (now : Nat) :
    Canceled children (app.finishExitedChild platform status now) := by
  unfold MinerApp.finishExitedChild
  dsimp only
  split_ifs
  · exact ⟨h.disabled, h.notDue, h.spawns⟩
  · apply scheduleAutomaticRestart
    split
    · exact ⟨h.disabled, h.notDue, h.spawns⟩
    · exact ⟨h.disabled, h.notDue, h.spawns⟩
    · exact ⟨rfl, h.notDue, h.spawns⟩

theorem pollObservationFailure (h : Canceled children app) (env : PollEnv) (disconnected : Bool) :
    Canceled children (app.pollObservationFailure platform env disconnected) := by
  unfold MinerApp.pollObservationFailure
  split
  · exact h
  · split_ifs
    · apply scheduleAutomaticRestart
      exact ⟨h.disabled, h.notDue, h.spawns⟩
    · exact h

theorem pollExit (h : Canceled children app) (env : PollEnv) (disconnected : Bool) :
    Canceled children (app.pollExit platform env disconnected) := by
  unfold MinerApp.pollExit
  split
  · split_ifs
    · apply finishExitedChild
      exact ⟨h.disabled, h.notDue, h.spawns⟩
    · exact h
  · exact h

theorem pollRestart (h : Canceled children app) (env : PollEnv) :
    Canceled children (app.pollRestart platform env) := by
  unfold MinerApp.pollRestart
  rw [if_neg (by simp [h.notDue])]
  exact h

theorem pollProcess (h : Canceled children app) (env : PollEnv) :
    Canceled children (app.pollProcess platform env) := by
  have hdrained : Canceled children (app.drainProcessMessages platform env).1 :=
    h.repaint (.drainProcessMessages env)
  unfold MinerApp.pollProcess
  apply pollRestart
  refine congr ?_ (recovery_pollReaders ..)
  apply pollExit
  refine congr ?_ (recovery_pollQuarantined ..)
  apply pollObservationFailure
  exact hdrained.congr (recovery_pollChild ..)

/-- The operator's stop, whatever the window was doing. -/
theorem stop (app : MinerApp) (env : StopEnv) : Canceled (Gui.spawns app.osLog) (app.stop env) := by
  have hcancel : Canceled (Gui.spawns app.osLog) app.cancelRecovery := by
    unfold cancelRecovery
    dsimp only
    split_ifs with hdue
    · exact ⟨rfl, rfl, rfl⟩
    · exact ⟨rfl, by simpa using hdue, rfl⟩
  unfold MinerApp.stop
  dsimp only
  split
  · exact hcancel.congr (recovery_stopWithoutChild ..)
  · split
    · exact hcancel.congr (recovery_beginObservationFailure ..)
    · exact ⟨hcancel.disabled, hcancel.notDue, hcancel.spawns⟩
    · split <;> exact ⟨hcancel.disabled, hcancel.notDue, hcancel.spawns⟩

theorem step (h : Canceled children app) {operation : Operation}
    (hstarts : operation.starts = false) : Canceled children (app.step platform operation) := by
  cases operation with
  | start env => cases hstarts
  | automaticRestart env => cases hstarts
  | stop env => exact h.spawns ▸ stop app env
  | pollProcess env => exact h.pollProcess env
  | applyTelemetry now value => exact h.repaint (.applyTelemetry now value)
  | staleTelemetry => exact ⟨h.disabled, h.notDue, h.spawns⟩
  | editWorkers workers =>
    unfold MinerApp.step
    split_ifs
    · exact h
    · exact ⟨h.disabled, h.notDue, h.spawns⟩

theorem run (h : Canceled children app) {operations : List Operation}
    (hstarts : ∀ operation ∈ operations, operation.starts = false) :
    Canceled children (app.run platform operations) := by
  induction operations generalizing app with
  | nil => exact h
  | cons operation operations ih =>
    exact ih (h.step (hstarts operation List.mem_cons_self))
      fun later hlater => hstarts later (List.mem_cons_of_mem _ hlater)

end Canceled

/-- A child runs, or its output is still being read to the end. -/
def observed (app : MinerApp) : Bool :=
  app.child.isSome || app.pendingExit.isSome || app.pendingObservationFailure.isSome

/-- How far the observed child is, and whether its output is read. -/
def stages (app : MinerApp) : Option Child × Option ExitStatus × Option Nat × Bool :=
  (app.child, app.pendingExit, app.pendingObservationFailure, app.receiver)

@[simp] theorem stages_reapOrQuarantine (app : MinerApp) (child : Child) (os : Cleanup) :
    (app.reapOrQuarantine child os).1.stages = app.stages := by
  unfold reapOrQuarantine
  split <;> rfl

theorem stages_cleanupChild (app : MinerApp) (os : Cleanup) : (app.cleanupChild os).stages =
    (none, app.pendingExit, app.pendingObservationFailure, app.receiver) := by
  unfold cleanupChild
  split
  · next hchild => rw [stages, hchild]
  · exact stages_reapOrQuarantine ..

theorem stages_beginObservationFailure (os : Cleanup) (now : Nat)
    (hfailure : app.pendingObservationFailure = none) :
    (app.beginObservationFailure os now).stages = (none, app.pendingExit,
      some (now + observationFailureDrainGrace), app.receiver) := by
  have hcleanup := fun app : MinerApp => stages_cleanupChild app os
  simp only [stages, Prod.mk.injEq] at hcleanup
  unfold beginObservationFailure
  rw [if_neg (by simp [hfailure])]
  simp only [stages, hcleanup]

@[simp] theorem stages_stopWithoutChild (app : MinerApp) (env : StopEnv) :
    (app.stopWithoutChild env).stages = app.stages := by
  have hretry : (app.retryQuarantined env.quarantined).stages = app.stages := by
    unfold retryQuarantined
    split
    · rfl
    · exact stages_reapOrQuarantine ..
  unfold stopWithoutChild
  dsimp only
  split_ifs <;> exact hretry

@[simp] theorem stages_pollQuarantined (app : MinerApp) (env : PollEnv) :
    (app.pollQuarantined env).stages = app.stages := by
  unfold pollQuarantined
  split <;> rfl

@[simp] theorem stages_pollReaders (app : MinerApp) (env : PollEnv) (had disconnected : Bool) :
    (app.pollReaders env had disconnected).stages = app.stages := by
  unfold pollReaders stages
  dsimp only
  split_ifs <;> rfl

/-- `poll_process` up to its last decision. -/
def beforeRestart (platform : Platform) (app : MinerApp) (env : PollEnv) : MinerApp :=
  let drained := app.drainProcessMessages platform env
  let app' := (drained.1.pollChild env).pollObservationFailure platform env drained.2
  ((app'.pollQuarantined env).pollExit platform env drained.2).pollReaders env app.receiver
    drained.2

def restartDue (app : MinerApp) (env : PollEnv) : Bool :=
  app.automaticRestartAt.any (· ≤ env.restartCheckedAt) && !app.hasLiveEngineState

/-- The automatic starts since the last start or stability reset, counted over one operation. -/
def automaticStarts (platform : Platform) (app : MinerApp) (starts : Nat) : Operation → Nat
  | .start _ => if app.isRunning then starts else 0
  | .pollProcess env =>
    let drained := (app.drainProcessMessages platform env).1
    let starts :=
      if drained.automaticRestartAttempts < app.automaticRestartAttempts then 0 else starts
    if (app.beforeRestart platform env).restartDue env then starts + 1 else starts
  | _ => starts

def countedStep (platform : Platform) (x : MinerApp × Nat) (operation : Operation) :
    MinerApp × Nat :=
  (x.1.step platform operation, x.1.automaticStarts platform x.2 operation)

/-- A run from the first frame, with the automatic starts counted. -/
def countedRun (platform : Platform) (operations : List Operation) : MinerApp × Nat :=
  operations.foldl (countedStep platform) ({}, 0)

/-- An automatic start was scheduled before, and a schedule takes one of the attempts. A restart
is only scheduled once the output of the last child is read to the end. -/
structure Budgeted (starts : Nat) (app : MinerApp) : Prop where
  exit : app.pendingExit.isSome → app.child = none ∧ app.pendingObservationFailure = none
  observation : app.pendingObservationFailure.isSome → app.child = none
  reading : app.receiver = true → app.observed = true
  due : app.automaticRestartAt.isSome →
    app.automaticRecoveryEnabled = true ∧ app.observed = false
  budget : app.automaticRecoveryEnabled = true →
    starts + app.automaticRestartAt.toList.length ≤ app.automaticRestartAttempts
  starts_le : starts ≤ maxAutomaticEngineRestarts
  attempts_le : app.automaticRestartAttempts ≤ maxAutomaticEngineRestarts

namespace Budgeted
variable {starts : Nat}

theorem init : Budgeted 0 {} where
  exit h := nomatch h
  observation h := nomatch h
  reading h := nomatch h
  due h := nomatch h
  budget h := nomatch h
  starts_le := Nat.zero_le _
  attempts_le := Nat.zero_le _

/-- Nothing is due while a child is observed. -/
theorem notDue (h : Budgeted starts app) (hobserved : app.observed = true) :
    app.automaticRestartAt = none := by
  by_contra hdue
  have hidle := (h.due (Option.isSome_iff_ne_none.2 hdue)).2
  exact nomatch hobserved.symm.trans hidle

theorem notReading (h : Budgeted starts app) (hidle : app.observed = false) :
    app.receiver = false := by
  apply Bool.eq_false_iff.2
  intro hreading
  exact nomatch hidle.symm.trans (h.reading hreading)

/-- A child that is observed goes from one stage to the next. -/
theorem moved (h : Budgeted starts app) (hobserved : app.observed = true)
    (hobserved' : app'.observed = true) (hrecovery : app'.recovery = app.recovery)
    (hexit : app'.pendingExit.isSome → app'.child = none ∧ app'.pendingObservationFailure = none)
    (hobservation : app'.pendingObservationFailure.isSome → app'.child = none) :
    Budgeted starts app' := by
  simp only [recovery, Prod.mk.injEq] at hrecovery
  obtain ⟨henabled, hdue, hattempts, -⟩ := hrecovery
  refine ⟨hexit, hobservation, fun _ => hobserved', ?_, ?_, h.starts_le, hattempts ▸ h.attempts_le⟩
  · intro hsome
    rw [hdue, h.notDue hobserved] at hsome
    cases hsome
  · rw [henabled, hdue, hattempts]
    exact h.budget

theorem congr (h : Budgeted starts app) (hstages : app'.stages = app.stages)
    (hrecovery : app'.recovery = app.recovery) : Budgeted starts app' := by
  simp only [recovery, Prod.mk.injEq] at hrecovery
  simp only [stages, Prod.mk.injEq] at hstages
  obtain ⟨henabled, hdue, hattempts, -⟩ := hrecovery
  obtain ⟨hchild, hexit, hfailure, hreceiver⟩ := hstages
  have hobserved : app'.observed = app.observed := by
    rw [observed, hchild, hexit, hfailure, observed]
  constructor
  · rw [hexit, hchild, hfailure]
    exact h.exit
  · rw [hchild, hfailure]
    exact h.observation
  · rw [hreceiver, hobserved]
    exact h.reading
  · rw [hdue, henabled, hobserved]
    exact h.due
  · rw [henabled, hdue, hattempts]
    exact h.budget
  · exact h.starts_le
  · rw [hattempts]
    exact h.attempts_le

theorem budget_of_observed (h : Budgeted starts app) (hobserved : app.observed = true) :
    app.automaticRecoveryEnabled = true → starts ≤ app.automaticRestartAttempts := by
  have hbudget := h.budget
  rwa [h.notDue hobserved] at hbudget

/-- A child that has exited is kept until its output is read to the end. -/
theorem exited (h : Budgeted starts app) {status : ExitStatus} (hchild : app.child.isSome)
    (hstages : app'.stages = (none, some status, app.pendingObservationFailure, app.receiver))
    (hrecovery : app'.recovery = app.recovery) : Budgeted starts app' := by
  simp only [stages, Prod.mk.injEq] at hstages
  obtain ⟨hchild', hexit', hfailure', -⟩ := hstages
  have hfailure : app.pendingObservationFailure = none := by
    by_contra hfailure
    rw [h.observation (Option.isSome_iff_ne_none.2 hfailure)] at hchild
    cases hchild
  apply h.moved (by simp [observed, hchild])
  · simp [observed, hexit']
  · exact hrecovery
  · exact fun _ => ⟨hchild', hfailure'.trans hfailure⟩
  · exact fun _ => hchild'

/-- A stability reset comes while a child is observed, when nothing is due. -/
theorem repaint (h : Budgeted starts app) (hrepaints : Repaints app app')
    (hobserved : app.observed = true) :
    Budgeted (if app'.automaticRestartAttempts < app.automaticRestartAttempts then 0 else starts)
      app' := by
  have hsame : ∀ {β : Type} (f : MinerApp → β), f app'.unpainted = f app.unpainted :=
    fun f => congrArg f hrepaints.unpainted
  have hobserved' : app'.observed = true := (hsame observed).trans hobserved
  have hdue : app'.automaticRestartAt = none :=
    (hsame (·.automaticRestartAt)).trans (h.notDue hobserved)
  have hbudget := h.budget
  rw [h.notDue hobserved] at hbudget
  have henabled : app'.automaticRecoveryEnabled = app.automaticRecoveryEnabled :=
    hsame (·.automaticRecoveryEnabled)
  refine ⟨?_, ?_, fun _ => hobserved', ?_, ?_, ?_, ?_⟩
  · exact (hsame fun app => (app.pendingExit.isSome → app.child = none ∧
      app.pendingObservationFailure = none)).mpr h.exit
  · exact (hsame fun app => (app.pendingObservationFailure.isSome → app.child = none)).mpr
      h.observation
  · intro hsome
    rw [hdue] at hsome
    cases hsome
  · intro hon
    have hle := hbudget (henabled.symm.trans hon)
    rw [hdue]
    rcases hrepaints.attempts with hattempts | hattempts
    · rw [hattempts, if_neg (lt_irrefl _)]
      exact hle
    · rw [hattempts]
      split_ifs with hreset
      · exact le_rfl
      · exact hle.trans (Nat.le_of_not_lt hreset)
  · split_ifs
    · exact Nat.zero_le _
    · exact h.starts_le
  · rcases hrepaints.attempts with hattempts | hattempts
    · rw [hattempts]
      exact h.attempts_le
    · rw [hattempts]
      exact Nat.zero_le _

theorem drainProcessMessages (h : Budgeted starts app) (env : PollEnv) :
    Budgeted (if (app.drainProcessMessages platform env).1.automaticRestartAttempts <
      app.automaticRestartAttempts then 0 else starts)
        (app.drainProcessMessages platform env).1 := by
  by_cases hreceiver : app.receiver = true
  · exact h.repaint (.drainProcessMessages env) (h.reading hreceiver)
  · simpa [MinerApp.drainProcessMessages, hreceiver] using h

end Budgeted

/-- No child is observed and no restart is due. -/
structure Idle (starts : Nat) (app : MinerApp) : Prop where
  observed : app.observed = false
  receiver : app.receiver = false
  notDue : app.automaticRestartAt = none
  budget : app.automaticRecoveryEnabled = true → starts ≤ app.automaticRestartAttempts
  starts_le : starts ≤ maxAutomaticEngineRestarts
  attempts_le : app.automaticRestartAttempts ≤ maxAutomaticEngineRestarts

namespace Idle
variable {starts : Nat}

theorem budgeted (h : Idle starts app) : Budgeted starts app where
  exit hexit := by simpa [MinerApp.observed, hexit] using h.observed
  observation hfailure := by simpa [MinerApp.observed, hfailure] using h.observed
  reading hreading := nomatch h.receiver.symm.trans hreading
  due hdue := by simp [h.notDue] at hdue
  budget hon := by simpa [h.notDue] using h.budget hon
  starts_le := h.starts_le
  attempts_le := h.attempts_le

theorem scheduleAutomaticRestart (h : Idle starts app) (now : Nat) :
    Budgeted starts (app.scheduleAutomaticRestart platform now) := by
  unfold MinerApp.scheduleAutomaticRestart
  dsimp only
  split_ifs with hoff hexhausted
  · exact h.budgeted
  · exact Idle.budgeted
      ⟨h.observed, h.receiver, rfl, fun hon => (nomatch hon), h.starts_le, h.attempts_le⟩
  · have hon : app.automaticRecoveryEnabled = true := by
      by_contra hdisabled
      exact hoff (.inr (by simpa using hdisabled))
    have hidle := h.budgeted
    refine ⟨hidle.exit, hidle.observation, hidle.reading, fun _ => ⟨hon, h.observed⟩, fun _ => ?_,
      h.starts_le, Nat.lt_of_not_le hexhausted⟩
    exact Nat.succ_le_succ (h.budget hon)

theorem failEngineStart (h : Idle starts app) (automatic : Bool) (now : Nat) :
    Budgeted starts (app.failEngineStart platform automatic now) := by
  have hphase : Idle starts { app with phase := .error } :=
    ⟨h.observed, h.receiver, h.notDue, h.budget, h.starts_le, h.attempts_le⟩
  unfold MinerApp.failEngineStart
  dsimp only
  split_ifs
  · exact hphase.scheduleAutomaticRestart now
  · exact hphase.budgeted

theorem finishExitedChild (h : Idle starts app) (status : ExitStatus) (now : Nat) :
    Budgeted starts (app.finishExitedChild platform status now) := by
  unfold MinerApp.finishExitedChild
  dsimp only
  split_ifs
  · exact Idle.budgeted ⟨h.observed, h.receiver, h.notDue, h.budget, h.starts_le, h.attempts_le⟩
  · apply scheduleAutomaticRestart
    split
    · exact ⟨h.observed, h.receiver, h.notDue, h.budget, h.starts_le, h.attempts_le⟩
    · exact ⟨h.observed, h.receiver, h.notDue, h.budget, h.starts_le, h.attempts_le⟩
    · exact ⟨h.observed, h.receiver, h.notDue, fun hon => (nomatch hon), h.starts_le, h.attempts_le⟩

/-- A cleanup that fails leaves the child quarantined, which is not observed. -/
theorem reapOrQuarantine (h : Idle starts app) (child : Child) (os : Cleanup) :
    Idle starts (app.reapOrQuarantine child os).1 := by
  unfold MinerApp.reapOrQuarantine
  split <;> exact ⟨h.observed, h.receiver, h.notDue, h.budget, h.starts_le, h.attempts_le⟩

theorem attachEngine (h : Idle starts app) (child : Child) (automatic : Bool) (env : StartEnv) :
    Budgeted starts (app.attachEngine platform child automatic env) := by
  have hreaped := h.reapOrQuarantine child env.cleanup
  have hidle := h.observed
  simp only [MinerApp.observed, Bool.or_eq_false_iff, Option.isSome_eq_false_iff,
    Option.isNone_iff_eq_none] at hidle
  unfold MinerApp.attachEngine
  split
  · exact hreaped.failEngineStart automatic env.now
  · split_ifs
    · exact hreaped.failEngineStart automatic env.now
    · refine ⟨?_, ?_, fun _ => rfl, ?_, ?_, h.starts_le, h.attempts_le⟩
      · intro hexit
        simp [hidle.1.2] at hexit
      · intro hfailure
        simp [hidle.2] at hfailure
      · intro hdue
        simp [h.notDue] at hdue
      · intro hon
        simpa [h.notDue] using h.budget hon

theorem startEngine (h : Idle starts app) (automatic : Bool) (env : StartEnv) :
    Budgeted starts (app.startEngine platform automatic env) := by
  have hidle := h.observed
  simp only [MinerApp.observed, Bool.or_eq_false_iff, Option.isSome_eq_false_iff,
    Option.isNone_iff_eq_none] at hidle
  have hstarting : Idle starts { { app with automaticRestartAt := none }.resetTelemetry with
      phase := .starting, requestedStop := false } := by
    refine ⟨?_, h.receiver, rfl, h.budget, h.starts_le, h.attempts_le⟩
    simp [MinerApp.observed, MinerApp.resetTelemetry, hidle.1.1, hidle.1.2]
  unfold MinerApp.startEngine
  split_ifs
  · exact h.budgeted
  · apply failEngineStart
    exact ⟨h.observed, h.receiver, rfl, h.budget, h.starts_le, h.attempts_le⟩
  · exact hstarting.failEngineStart automatic env.now
  · apply attachEngine
    exact ⟨hstarting.observed, h.receiver, rfl, h.budget, h.starts_le, h.attempts_le⟩

end Idle

namespace Budgeted
variable {starts : Nat}

theorem observed_of_live (h : app.hasLiveEngineState = false) : app.observed = false := by
  simp only [hasLiveEngineState, Bool.or_eq_false_iff] at h
  simp [observed, h.1.1.1, h.1.2, h.2]

theorem start (h : Budgeted starts app) (env : StartEnv) :
    Budgeted (if app.isRunning then starts else 0) (app.start platform env) := by
  unfold MinerApp.start
  split_ifs with hrunning
  · exact h
  · simp only [isRunning, Bool.or_eq_true, not_or, Bool.not_eq_true, Option.isSome_eq_false_iff,
      Option.isNone_iff_eq_none] at hrunning
    have hidle := observed_of_live hrunning.1
    apply Idle.startEngine
    exact ⟨hidle, h.notReading hidle, hrunning.2, fun _ => le_rfl, Nat.zero_le _, Nat.zero_le _⟩

theorem cancelRecovery (h : Budgeted starts app) : Budgeted starts app.cancelRecovery := by
  unfold MinerApp.cancelRecovery
  dsimp only
  split_ifs with hdue
  · exact ⟨h.exit, h.observation, h.reading, fun hsome => (nomatch hsome), fun hon => (nomatch hon),
      h.starts_le, Nat.zero_le _⟩
  · exact ⟨h.exit, h.observation, h.reading, fun hsome => absurd hsome hdue,
      fun hon => (nomatch hon), h.starts_le, h.attempts_le⟩

/-- A child that cannot be observed any more is on its way out. -/
theorem beginObservationFailure (h : Budgeted starts app) (hchild : app.child.isSome)
    (os : Cleanup) (now : Nat) : Budgeted starts (app.beginObservationFailure os now) := by
  have hfailure : app.pendingObservationFailure = none := by
    by_contra hfailure
    rw [h.observation (Option.isSome_iff_ne_none.2 hfailure)] at hchild
    cases hchild
  have hexit : app.pendingExit = none := by
    by_contra hexit
    rw [(h.exit (Option.isSome_iff_ne_none.2 hexit)).1] at hchild
    cases hchild
  have hobserved : app.observed = true := by simp [observed, hchild]
  have hstages := stages_beginObservationFailure os now hfailure
  simp only [stages, Prod.mk.injEq] at hstages
  obtain ⟨hchild', hexit', hfailure', -⟩ := hstages
  apply h.moved hobserved
  · simp [observed, hfailure']
  · exact recovery_beginObservationFailure ..
  · rw [hexit', hexit]
    exact nofun
  · exact fun _ => hchild'

theorem stop (h : Budgeted starts app) (env : StopEnv) : Budgeted starts (app.stop env) := by
  have hcancel := h.cancelRecovery
  unfold MinerApp.stop
  dsimp only
  split
  · exact hcancel.congr (stages_stopWithoutChild ..) (recovery_stopWithoutChild ..)
  · next child hchild =>
    have hsome : app.cancelRecovery.child.isSome := by rw [hchild]; rfl
    split
    · exact hcancel.beginObservationFailure hsome _ _
    · next status _ =>
      exact @exited app.cancelRecovery _ starts hcancel status hsome rfl rfl
    · split <;> exact hcancel.congr rfl rfl

theorem pollChild (h : Budgeted starts app) (env : PollEnv) :
    Budgeted starts (app.pollChild env) := by
  unfold MinerApp.pollChild
  split_ifs
  · exact h
  · split
    · next hchild _ => exact h.exited (by rw [hchild]; rfl) rfl rfl
    · next hchild _ => exact h.beginObservationFailure (by rw [hchild]; rfl) _ _
    · exact h

theorem pollObservationFailure (h : Budgeted starts app) (env : PollEnv) (disconnected : Bool) :
    Budgeted starts (app.pollObservationFailure platform env disconnected) := by
  unfold MinerApp.pollObservationFailure
  split
  · exact h
  · next deadline hfailure =>
    have hsome : app.pendingObservationFailure.isSome := by rw [hfailure]; rfl
    have hobserved : app.observed = true := by simp [observed, hsome]
    have hexit : app.pendingExit = none := by
      by_contra hexit
      rw [(h.exit (Option.isSome_iff_ne_none.2 hexit)).2] at hfailure
      cases hfailure
    split_ifs
    · apply Idle.scheduleAutomaticRestart
      refine ⟨?_, rfl, h.notDue hobserved, ?_, h.starts_le, h.attempts_le⟩
      · simp [observed, clearActiveWork, h.observation hsome, hexit]
      · exact h.budget_of_observed hobserved
    · exact h

theorem pollExit (h : Budgeted starts app) (env : PollEnv) (disconnected : Bool) :
    Budgeted starts (app.pollExit platform env disconnected) := by
  unfold MinerApp.pollExit
  split
  · next status hexit =>
    have hsome : app.pendingExit.isSome := by rw [hexit]; rfl
    have hobserved : app.observed = true := by simp [observed, hsome]
    split_ifs
    · apply Idle.finishExitedChild
      refine ⟨?_, rfl, h.notDue hobserved, ?_, h.starts_le, h.attempts_le⟩
      · simp [observed, (h.exit hsome).1, (h.exit hsome).2]
      · exact h.budget_of_observed hobserved
    · exact h
  · exact h

theorem beforeRestart (h : Budgeted starts app) (env : PollEnv) :
    Budgeted (if (app.drainProcessMessages platform env).1.automaticRestartAttempts <
      app.automaticRestartAttempts then 0 else starts) (app.beforeRestart platform env) := by
  have hdrained := @drainProcessMessages platform app starts h env
  have hfailure := @pollObservationFailure platform _ _ (hdrained.pollChild env) env
    (app.drainProcessMessages platform env).2
  have hexit := hfailure.congr (stages_pollQuarantined _ env) (recovery_pollQuarantined _ env)
  exact (hexit.pollExit env _).congr (stages_pollReaders ..) (recovery_pollReaders ..)

/-- A restart uses up the attempt it was scheduled with. -/
theorem pollRestart (h : Budgeted starts app) (env : PollEnv) :
    Budgeted (if app.restartDue env then starts + 1 else starts)
      (app.pollRestart platform env) := by
  unfold MinerApp.pollRestart
  by_cases hdue : app.restartDue env = true
  · have hparts := hdue
    simp only [restartDue, Bool.and_eq_true, Option.any_eq_true, Bool.not_eq_true'] at hparts
    obtain ⟨⟨deadline, hat, hreached⟩, hlive⟩ := hparts
    have hidle := observed_of_live hlive
    have hbudget := h.budget (h.due (by rw [hat]; rfl)).1
    have hattempts := h.attempts_le
    simp only [hat, Option.toList_some, List.length_singleton] at hbudget
    rw [if_pos hdue, if_pos (by simp [hat, hlive, hreached])]
    apply Idle.startEngine
    exact ⟨hidle, h.notReading hidle, rfl, fun _ => hbudget, hbudget.trans hattempts, hattempts⟩
  · have hnot : ¬(app.automaticRestartAt.any (· ≤ env.restartCheckedAt) ∧
        !app.hasLiveEngineState) := by simpa [restartDue] using hdue
    rw [if_neg hdue, if_neg hnot]
    exact h

/-- One case per call of the window. -/
theorem step (h : Budgeted starts app) {operation : Operation}
    (hwindow : operation.ofWindow = true) :
    Budgeted (app.automaticStarts platform starts operation) (app.step platform operation) := by
  cases operation with
  | start env => exact h.start env
  | stop env => exact h.stop env
  | pollProcess env => exact (h.beforeRestart env).pollRestart env
  | applyTelemetry now value => cases hwindow
  | automaticRestart env => cases hwindow
  | staleTelemetry => exact h.congr rfl rfl
  | editWorkers workers =>
    unfold MinerApp.step
    split_ifs
    · exact h
    · exact h.congr rfl rfl

theorem countedRun {operations : List Operation}
    (hwindow : ∀ operation ∈ operations, operation.ofWindow = true) :
    Budgeted (MinerApp.countedRun platform operations).2
      (MinerApp.countedRun platform operations).1 := by
  have hfold : ∀ (operations : List Operation) (x : MinerApp × Nat), Budgeted x.2 x.1 →
      (∀ operation ∈ operations, operation.ofWindow = true) →
      Budgeted (operations.foldl (countedStep platform) x).2
        (operations.foldl (countedStep platform) x).1 := by
    intro operations
    induction operations with
    | nil => exact fun _ h _ => h
    | cons operation operations ih =>
      intro x h hwindow
      apply ih
      · exact h.step (hwindow operation List.mem_cons_self)
      · exact fun later hlater => hwindow later (List.mem_cons_of_mem _ hlater)
  exact hfold operations ({}, 0) .init hwindow

end Budgeted

theorem countedRun_fst (operations : List Operation) :
    (countedRun platform operations).1 = MinerApp.run platform {} operations := by
  have hfold : ∀ (operations : List Operation) (x : MinerApp × Nat),
      (operations.foldl (countedStep platform) x).1 = x.1.run platform operations := by
    intro operations
    induction operations with
    | nil => exact fun _ => rfl
    | cons operation operations ih => exact fun x => ih _
  exact hfold operations ({}, 0)

end MinerApp

/-- After a stop nothing is spawned until the operator asks for it again; and however the engine
fails, the automatic starts since the last start or stability reset stay within the budget. -/
structure BoundedRecovery (platform : Platform) (before : List Operation) (env : StopEnv)
    (after operations : List Operation) : Prop where
  canceled : spawns (((MinerApp.run platform {} before).stop env).run platform after).osLog =
    spawns (MinerApp.run platform {} before).osLog
  starts_le : (MinerApp.countedRun platform operations).2 ≤ maxAutomaticEngineRestarts
  attempts_le : (MinerApp.run platform {} operations).automaticRestartAttempts ≤
    maxAutomaticEngineRestarts

theorem recovery_is_bounded (platform : Platform) (before : List Operation) (env : StopEnv)
    {after operations : List Operation} (hafter : ∀ operation ∈ after, operation.starts = false)
    (hwindow : ∀ operation ∈ operations, operation.ofWindow = true) :
    BoundedRecovery platform before env after operations := by
  have hstopped := MinerApp.Canceled.stop (MinerApp.run platform {} before) env
  have hcanceled : MinerApp.Canceled _ (((MinerApp.run platform {} before).stop env).run platform
    after) := hstopped.run hafter
  have hbudgeted : MinerApp.Budgeted (MinerApp.countedRun platform operations).2 _ :=
    MinerApp.Budgeted.countedRun hwindow
  refine ⟨hcanceled.spawns, hbudgeted.starts_le, ?_⟩
  rw [← MinerApp.countedRun_fst]
  exact hbudgeted.attempts_le

def noCleanup : Cleanup := ⟨.ok (), .ok (.exited 0), .ok none⟩

def spawnedEngine : StartEnv :=
  ⟨none, none, none, none, some (.ok ()), none, none, noCleanup, 0⟩

/-- A frame in which the engine has exited with code 101, or is restarted when that is due. -/
def engineExits (now : Nat) : PollEnv where
  messages := []
  disconnected := true
  childTryWait := .ok (some (.exited 101))
  childCleanup := noCleanup
  observedAt := now
  drainCheckedAt := now
  observationFinishedAt := now
  quarantinedTryWait := .ok none
  exitFinishedAt := now
  readerFinished := true
  readersCheckedAt := now
  graceCheckedAt := now
  restartCheckedAt := now
  restart := spawnedEngine

/-- The engine exits as soon as it is started: the budget is used up after five restarts, and a
stop keeps a scheduled one from happening. -/
theorem recovery_is_bounded_exits :
    BoundedRecovery .unix [.start spawnedEngine, .pollProcess (engineExits 0)]
      ⟨noCleanup, .ok none, noCleanup, 0, .ok ()⟩ [.pollProcess (engineExits 100000)]
      (.start spawnedEngine ::
        (List.range 20).map fun i => .pollProcess (engineExits (i * 100000))) ∧
    (MinerApp.countedRun .unix (.start spawnedEngine ::
      (List.range 20).map fun i => .pollProcess (engineExits (i * 100000)))).2 = 5 := by
  refine ⟨recovery_is_bounded _ _ _ ?_ ?_, ?_⟩
  · simp [Operation.starts]
  · simp [Operation.ofWindow]
  · decide +kernel

end XusMiner.Gui

import XusMiner.Gui.Telemetry

namespace XusMiner.Gui
namespace MinerApp

/-- The health the window shows is consistent. -/
structure Healthy (app : MinerApp) : Prop where
  ready : app.readyWorkers = app.readyWorkerIds.card
  apart : Disjoint app.readyWorkerIds app.workerErrors
  mining : app.phase = .mining → app.workerErrors = ∅ ∧ app.engineFatalSeen = false

def workerHealth (app : MinerApp) : Nat × Finset UInt64 × Finset UInt64 :=
  (app.readyWorkers, app.readyWorkerIds, app.workerErrors)

/-- What the window shows of the engine's health. -/
def health (app : MinerApp) : (Nat × Finset UInt64 × Finset UInt64) × Phase × Bool :=
  (app.workerHealth, app.phase, app.engineFatalSeen)

/-- Nothing is recorded, and the phase does not become mining. -/
structure Darkens (app app' : MinerApp) : Prop where
  ready : (app'.readyWorkers = app.readyWorkers ∧ app'.readyWorkerIds = app.readyWorkerIds) ∨
    (app'.readyWorkers = 0 ∧ app'.readyWorkerIds = ∅)
  errors : app'.workerErrors ⊆ app.workerErrors
  mining : app'.phase = .mining →
    app.phase = .mining ∧ app'.engineFatalSeen = app.engineFatalSeen

/-- Only workers below the count in force are recorded, and the health stays consistent. -/
structure Records (platform : Platform) (app app' : MinerApp) : Prop where
  healthy : app.Healthy → app'.Healthy
  ready : ∀ w ∈ app'.readyWorkerIds,
    w ∈ app.readyWorkerIds ∨ w < app.effectiveEngineWorkers platform
  errors : ∀ w ∈ app'.workerErrors,
    w ∈ app.workerErrors ∨ w < app.effectiveEngineWorkers platform

variable {platform : Platform} {app app' app'' : MinerApp}

theorem Repaints.effectiveEngineWorkers (h : Repaints app app') :
    app'.effectiveEngineWorkers platform = app.effectiveEngineWorkers platform :=
  show app'.unpainted.effectiveEngineWorkers platform =
    app.unpainted.effectiveEngineWorkers platform from congrArg _ h.unpainted

theorem Healthy.init : Healthy {} where
  ready := rfl
  apart := Finset.disjoint_empty_left _
  mining h := nomatch h

namespace Darkens

theorem refl (app : MinerApp) : Darkens app app :=
  ⟨.inl ⟨rfl, rfl⟩, Finset.Subset.refl _, fun h => ⟨h, rfl⟩⟩

theorem trans (h : Darkens app app') (h' : Darkens app' app'') : Darkens app app'' where
  ready := by
    rcases h'.ready with ⟨hcount, hids⟩ | hnone
    · rw [hcount, hids]
      exact h.ready
    · exact .inr hnone
  errors := h'.errors.trans h.errors
  mining hmining := by
    obtain ⟨hbefore, hfatal'⟩ := h'.mining hmining
    obtain ⟨hfirst, hfatal⟩ := h.mining hbefore
    exact ⟨hfirst, hfatal'.trans hfatal⟩

theorem readyWorkerIds_subset (h : Darkens app app') :
    app'.readyWorkerIds ⊆ app.readyWorkerIds := by
  rcases h.ready with ⟨-, hids⟩ | ⟨-, hids⟩
  · rw [hids]
  · rw [hids]
    exact Finset.empty_subset _

theorem healthy (h : Darkens app app') (happ : app.Healthy) : app'.Healthy where
  ready := by
    rcases h.ready with ⟨hcount, hids⟩ | ⟨hcount, hids⟩
    · rw [hcount, hids]
      exact happ.ready
    · rw [hcount, hids]
      rfl
  apart := happ.apart.mono h.readyWorkerIds_subset h.errors
  mining hmining := by
    obtain ⟨hbefore, hfatal⟩ := h.mining hmining
    obtain ⟨hnone, hlive⟩ := happ.mining hbefore
    exact ⟨Finset.subset_empty.1 (hnone ▸ h.errors), hfatal.trans hlive⟩

theorem records (h : Darkens app app') : Records platform app app' where
  healthy := h.healthy
  ready _ hw := .inl (h.readyWorkerIds_subset hw)
  errors _ hw := .inl (h.errors hw)

/-- The health stays as it is. -/
theorem same (h : app'.health = app.health) : Darkens app app' := by
  simp only [health, workerHealth, Prod.mk.injEq] at h
  obtain ⟨⟨hready, hids, herrors⟩, hphase, hfatal⟩ := h
  exact ⟨.inl ⟨hready, hids⟩, herrors.subset, fun hmining => ⟨hphase ▸ hmining, hfatal⟩⟩

/-- The workers stay as they are, and the phase is put to something else than mining. -/
theorem leaves (h : app'.workerHealth = app.workerHealth) (hphase : app'.phase ≠ .mining) :
    Darkens app app' := by
  simp only [workerHealth, Prod.mk.injEq] at h
  obtain ⟨hready, hids, herrors⟩ := h
  exact ⟨.inl ⟨hready, hids⟩, herrors.subset, fun hmining => absurd hmining hphase⟩

theorem enterConnectionPhase {phase : Phase} (hphase : phase ≠ .mining) :
    Darkens app (app.enterConnectionPhase phase) := by
  refine leaves rfl ?_
  unfold MinerApp.enterConnectionPhase
  dsimp only
  split_ifs
  · exact nofun
  · exact hphase

theorem applyJobCleared (value : Value) : Darkens app (app.applyJobCleared value) := by
  unfold MinerApp.applyJobCleared
  dsimp only
  split_ifs
  · exact same rfl
  · exact refl app

theorem metricsActiveWork (value : Value) : Darkens app (app.metricsActiveWork value) := by
  unfold MinerApp.metricsActiveWork
  split
  · split_ifs <;> exact same rfl
  · dsimp only
    split_ifs <;> exact same rfl

theorem metricsRound (value : Value) : Darkens app (app.metricsRound value) := by
  unfold MinerApp.metricsRound
  dsimp only
  split <;> exact same rfl

theorem metricsStability (now : Nat) : Darkens app (app.metricsStability platform now) := by
  unfold MinerApp.metricsStability
  dsimp only
  split_ifs <;> exact same rfl

/-- A sample of the metrics says nothing about the workers. -/
theorem applyMetrics (now : Nat) (value : Value) :
    Darkens app (app.applyMetrics platform now value) := by
  unfold MinerApp.applyMetrics
  apply trans (trans (trans _ (metricsActiveWork value)) (metricsRound value))
    (metricsStability now)
  exact same rfl

theorem applyEngineFatal : Darkens app app.applyEngineFatal where
  ready := .inr ⟨rfl, rfl⟩
  errors := Finset.Subset.refl _
  mining h := nomatch h

theorem applySessionError : Darkens app app.applySessionError := by
  unfold MinerApp.applySessionError
  by_cases hfatal : app.engineFatalSeen = true
  · rw [if_pos hfatal]
    exact same rfl
  · rw [if_neg hfatal]
    exact leaves rfl nofun

end Darkens

namespace Records

theorem refl (app : MinerApp) : Records platform app app := (Darkens.refl app).records

theorem darken (h : Records platform app app') (h' : Darkens app' app'') :
    Records platform app app'' where
  healthy happ := h'.healthy (h.healthy happ)
  ready w hw := h.ready w (h'.readyWorkerIds_subset hw)
  errors w hw := h.errors w (h'.errors hw)

theorem trans (h : Records platform app app') (h' : Records platform app' app'')
    (heffective : app'.effectiveEngineWorkers platform = app.effectiveEngineWorkers platform) :
    Records platform app app'' where
  healthy happ := h'.healthy (h.healthy happ)
  ready w hw := by
    rcases h'.ready w hw with hbefore | hbelow
    · exact h.ready w hbefore
    · exact .inr (heffective ▸ hbelow)
  errors w hw := by
    rcases h'.errors w hw with hbefore | hbelow
    · exact h.errors w hbefore
    · exact .inr (heffective ▸ hbelow)

theorem markWorkerUnready (worker : UInt64) :
    Records platform app (app.markWorkerUnready worker) where
  healthy happ :=
    { ready := rfl
      apart := happ.apart.mono_left (Finset.erase_subset _ _)
      mining := happ.mining }
  ready _ hw := .inl (Finset.mem_of_mem_erase hw)
  errors _ hw := .inl hw

/-- The phase is restored only once the last error is gone. -/
theorem markWorkerReady (worker : UInt64) :
    Records platform app (app.markWorkerReady platform worker) := by
  unfold MinerApp.markWorkerReady
  split_ifs with hrefused
  · exact .refl app
  · obtain ⟨hbelow, hlive⟩ := not_or.1 hrefused
    refine ⟨fun happ => ⟨rfl, ?_, ?_⟩, ?_, ?_⟩
    · rw [Finset.disjoint_insert_left]
      exact ⟨Finset.notMem_erase _ _, happ.apart.mono_right (Finset.erase_subset _ _)⟩
    · dsimp only
      split_ifs with hrestored
      · exact fun _ => ⟨hrestored.2.2.2, by simpa using hlive⟩
      · intro hmining
        obtain ⟨hnone, hfatal⟩ := happ.mining hmining
        exact ⟨by rw [hnone]; rfl, hfatal⟩
    · intro w hw
      rcases Finset.mem_insert.1 hw with rfl | hold
      · exact .inr (UInt64.not_le.1 hbelow)
      · exact .inl hold
    · exact fun w hw => .inl (Finset.mem_of_mem_erase hw)

theorem applyWorkerError {worker : UInt64} (hbelow : worker < app.effectiveEngineWorkers platform) :
    Records platform app (app.applyWorkerError worker) where
  healthy happ :=
    { ready := rfl
      apart := by
        show Disjoint (app.readyWorkerIds.erase worker) (insert worker app.workerErrors)
        rw [Finset.disjoint_insert_right]
        exact ⟨Finset.notMem_erase _ _, happ.apart.mono_left (Finset.erase_subset _ _)⟩
      mining := fun hmining => nomatch hmining }
  ready _ hw := .inl (Finset.mem_of_mem_erase hw)
  errors w hw := by
    rcases Finset.mem_insert.1 hw with rfl | hold
    · exact .inr hbelow
    · exact .inl hold

/-- The link is up: the phase is mining if nothing speaks against it. -/
theorem linked : Records platform app { app with nodeLinkLive := true }.enterMiningPhase := by
  unfold MinerApp.enterMiningPhase
  split_ifs with hfatal herrors
  · apply Darkens.records
    exact .leaves rfl nofun
  · apply Darkens.records
    exact .leaves rfl nofun
  · refine ⟨fun happ => ⟨happ.ready, happ.apart, fun _ => ⟨?_, ?_⟩⟩, fun _ => .inl, fun _ => .inl⟩
    · exact not_not.1 herrors
    · simpa using hfatal

theorem applyJob (value : Value) : Records platform app (app.applyJob value) := by
  unfold MinerApp.applyJob
  dsimp only
  split_ifs <;> exact linked.darken (.same rfl)

/-- One case per event. -/
theorem applyEvent (now : Nat) (value : Value) (event : EngineEvent) :
    Records platform app (app.applyEvent platform now value event) := by
  cases event with
  | startup | connecting =>
    apply Darkens.records
    have hdown : Darkens app { app with nodeLinkLive := false } :=
      .same rfl
    exact hdown.trans (.enterConnectionPhase nofun)
  | poolConnected =>
    apply Darkens.records
    exact .enterConnectionPhase nofun
  | nodeConnected => exact linked
  | workerInitializing => exact elim_rule (refl app) fun worker _ => markWorkerUnready worker
  | workerReady | workerRecovered =>
    exact elim_rule (refl app) fun worker _ => markWorkerReady worker
  | workerError =>
    apply elim_rule (refl app)
    intro worker hworker
    obtain ⟨-, hbelow⟩ := Option.filter_eq_some_iff.1 hworker
    exact applyWorkerError (by simpa using hbelow)
  | engineFatal => exact Darkens.applyEngineFatal.records
  | job => exact applyJob value
  | jobCleared => exact (Darkens.applyJobCleared value).records
  | metrics => exact (Darkens.applyMetrics now value).records
  | sessionError => exact Darkens.applySessionError.records

theorem applyTelemetry (now : Nat) (value : Value) :
    Records platform app (app.applyTelemetry platform now value) :=
  applyTelemetry_rule (refl app) (applyEvent now value)

/-- The count in force stays the same while messages are drained. -/
theorem drainProcessMessages (env : PollEnv) :
    Records platform app (app.drainProcessMessages platform env).1 := by
  have hdrained := drainProcessMessages_rule
    (R := fun app app' => Records platform app app' ∧
      app'.effectiveEngineWorkers platform = app.effectiveEngineWorkers platform)
    (fun app => ⟨refl app, rfl⟩) (fun h h' => ⟨h.1.trans h'.1 h.2, h'.2.trans h.2⟩)
    (fun app now value => ⟨applyTelemetry now value,
      (Repaints.applyTelemetry now value).effectiveEngineWorkers⟩) app env
  exact hdrained.1

end Records

namespace Darkens

theorem reapOrQuarantine (child : Child) (os : Cleanup) :
    Darkens app (app.reapOrQuarantine child os).1 := by
  unfold MinerApp.reapOrQuarantine
  split <;> exact same rfl

theorem scheduleAutomaticRestart (now : Nat) :
    Darkens app (app.scheduleAutomaticRestart platform now) := by
  unfold MinerApp.scheduleAutomaticRestart
  dsimp only
  split_ifs
  · exact refl app
  · exact leaves rfl nofun
  · exact leaves rfl nofun

theorem failEngineStart (automatic : Bool) (now : Nat) :
    Darkens app (app.failEngineStart platform automatic now) := by
  have herror : Darkens app { app with phase := .error } := leaves rfl nofun
  unfold MinerApp.failEngineStart
  dsimp only
  split
  · exact herror.trans (scheduleAutomaticRestart now)
  · exact herror

theorem attachEngine (child : Child) (automatic : Bool) (env : StartEnv) :
    Darkens app (app.attachEngine platform child automatic env) := by
  have hreap : Darkens app (app.reapOrQuarantine child env.cleanup).1 := reapOrQuarantine _ _
  unfold MinerApp.attachEngine
  split
  · exact hreap.trans (failEngineStart automatic env.now)
  · split_ifs
    · exact hreap.trans (failEngineStart automatic env.now)
    · exact same rfl

/-- A start forgets what was recorded of the engine before. -/
theorem starting : Darkens app
    { app.resetTelemetry with phase := .starting, requestedStop := false }
    where
  ready := .inr ⟨rfl, rfl⟩
  errors := Finset.empty_subset _
  mining h := nomatch h

theorem startEngine (automatic : Bool) (env : StartEnv) :
    Darkens app (app.startEngine platform automatic env) := by
  have hdue : Darkens app { app with automaticRestartAt := none } :=
    same rfl
  unfold MinerApp.startEngine
  dsimp only
  split_ifs
  · exact refl app
  · exact hdue.trans (failEngineStart automatic env.now)
  · exact (hdue.trans starting).trans (failEngineStart automatic env.now)
  · apply (hdue.trans starting).trans
    apply trans _ (attachEngine _ automatic env)
    exact same rfl

theorem start (env : StartEnv) : Darkens app (app.start platform env) := by
  unfold MinerApp.start
  split_ifs
  · exact refl app
  · apply trans _ (startEngine false env)
    exact same rfl

theorem cleanupChild (os : Cleanup) : Darkens app (app.cleanupChild os) := by
  unfold MinerApp.cleanupChild
  split
  · exact refl app
  · apply trans _ (reapOrQuarantine _ os)
    exact same rfl

theorem beginObservationFailure (os : Cleanup) (now : Nat) :
    Darkens app (app.beginObservationFailure os now) := by
  unfold MinerApp.beginObservationFailure
  dsimp only
  split_ifs
  · exact refl app
  · apply trans (trans _ (cleanupChild os))
    · exact same rfl
    · exact leaves rfl nofun

theorem retryQuarantined (os : Cleanup) : Darkens app (app.retryQuarantined os) := by
  unfold MinerApp.retryQuarantined
  split
  · exact refl app
  · apply trans _ (reapOrQuarantine _ os)
    exact same rfl

theorem stopWithoutChild (env : StopEnv) : Darkens app (app.stopWithoutChild env) := by
  have hretry : Darkens app (app.retryQuarantined env.quarantined) := retryQuarantined _
  unfold MinerApp.stopWithoutChild
  dsimp only
  split_ifs
  · exact hretry.trans (leaves rfl nofun)
  · exact hretry.trans (leaves rfl nofun)
  · exact hretry

theorem cancelRecovery : Darkens app app.cancelRecovery := by
  unfold MinerApp.cancelRecovery
  dsimp only
  split_ifs <;> exact same rfl

theorem stop (env : StopEnv) : Darkens app (app.stop env) := by
  have hcancel : Darkens app app.cancelRecovery := cancelRecovery
  unfold MinerApp.stop
  dsimp only
  split
  · exact hcancel.trans (stopWithoutChild env)
  · split
    · exact hcancel.trans (beginObservationFailure _ _)
    · exact hcancel.trans (same rfl)
    · split
      · exact hcancel.trans (leaves rfl nofun)
      · exact hcancel.trans (leaves rfl nofun)

theorem finishObservationFailure (now : Nat) :
    Darkens app (app.finishObservationFailure platform now) := by
  apply trans _ (scheduleAutomaticRestart now)
  exact ⟨.inr ⟨rfl, rfl⟩, Finset.Subset.refl _, nofun⟩

/-- The errors of the workers stay, but no worker is ready and the phase is not mining. -/
theorem finishExitedChild (status : ExitStatus) (now : Nat) :
    Darkens app (app.finishExitedChild platform status now) := by
  unfold MinerApp.finishExitedChild
  dsimp only
  split_ifs
  · exact ⟨.inr ⟨rfl, rfl⟩, Finset.Subset.refl _, nofun⟩
  · apply trans _ (scheduleAutomaticRestart now)
    split <;> exact ⟨.inr ⟨rfl, rfl⟩, Finset.Subset.refl _, nofun⟩

theorem pollChild (env : PollEnv) : Darkens app (app.pollChild env) := by
  unfold MinerApp.pollChild
  split_ifs
  · exact refl app
  · split
    · exact same rfl
    · exact beginObservationFailure _ _
    · exact refl app

theorem pollObservationFailure (env : PollEnv) (disconnected : Bool) :
    Darkens app (app.pollObservationFailure platform env disconnected) := by
  unfold MinerApp.pollObservationFailure
  split
  · exact refl app
  · split_ifs
    · apply trans _ (finishObservationFailure _)
      exact same rfl
    · exact refl app

theorem pollQuarantined (env : PollEnv) : Darkens app (app.pollQuarantined env) := by
  unfold MinerApp.pollQuarantined
  split
  · exact same rfl
  · exact refl app

theorem pollExit (env : PollEnv) (disconnected : Bool) :
    Darkens app (app.pollExit platform env disconnected) := by
  unfold MinerApp.pollExit
  split
  · split_ifs
    · apply trans _ (finishExitedChild _ _)
      exact same rfl
    · exact refl app
  · exact refl app

theorem pollReaders (env : PollEnv) (had disconnected : Bool) :
    Darkens app (app.pollReaders env had disconnected) := by
  unfold MinerApp.pollReaders
  dsimp only
  split_ifs
  · exact leaves rfl nofun
  · exact same rfl
  · exact same rfl
  · exact refl app

theorem pollRestart (env : PollEnv) : Darkens app (app.pollRestart platform env) := by
  unfold MinerApp.pollRestart
  split_ifs
  · apply trans _ (startEngine true env.restart)
    exact same rfl
  · exact refl app

end Darkens

namespace Records

/-- The messages come first; nothing after them records a worker. -/
theorem pollProcess (env : PollEnv) : Records platform app (app.pollProcess platform env) := by
  have hdrained : Records platform app (app.drainProcessMessages platform env).1 :=
    drainProcessMessages env
  unfold MinerApp.pollProcess
  dsimp only
  apply darken _ (.pollRestart env)
  apply darken _ (.pollReaders env _ _)
  apply darken _ (.pollExit env _)
  apply darken _ (.pollQuarantined env)
  apply darken _ (.pollObservationFailure env _)
  exact hdrained.darken (.pollChild env)

/-- One case per operation of the window. -/
theorem step (operation : Operation) :
    Records platform app (app.step platform operation) := by
  cases operation with
  | start env => exact (Darkens.start env).records
  | stop env => exact (Darkens.stop env).records
  | pollProcess env => exact pollProcess env
  | applyTelemetry now value => exact applyTelemetry now value
  | automaticRestart env => exact (Darkens.startEngine true env).records
  | staleTelemetry =>
    apply Darkens.records
    exact .same rfl
  | editWorkers workers =>
    apply Darkens.records
    unfold MinerApp.step
    split_ifs
    · exact .refl app
    · exact .same rfl

end Records

theorem Healthy.run (h : app.Healthy) (operations : List Operation) :
    (app.run platform operations).Healthy := by
  induction operations generalizing app with
  | nil => exact h
  | cons operation operations ih => exact ih ((Records.step operation).healthy h)

end MinerApp

/-- Whatever the window has been through, the health it shows is consistent, and what it is told
next records only workers below the count that is in force at that moment. -/
theorem worker_health_is_consistent (platform : Platform) (operations : List Operation) :
    (MinerApp.run platform {} operations).Healthy ∧
    ∀ operation, MinerApp.Records platform (MinerApp.run platform {} operations)
      (MinerApp.run platform {} (operations ++ [operation])) := by
  refine ⟨MinerApp.Healthy.init.run operations, fun operation => ?_⟩
  have hlast : MinerApp.run platform {} (operations ++ [operation]) =
      (MinerApp.run platform {} operations).step platform operation := List.foldl_concat ..
  rw [hlast]
  exact .step operation

end XusMiner.Gui

import XusMiner.Gui.Supervisor

namespace XusMiner.Gui
namespace MinerApp

section Rules
variable {platform : Platform} {R : MinerApp → MinerApp → Prop}

theorem elim_rule {α : Type} {app : MinerApp} {x : Option α} {f : α → MinerApp} (hrefl : R app app)
    (hf : ∀ a, x = some a → R app (f a)) : R app (x.elim app f) := by
  cases x with
  | none => exact hrefl
  | some a => exact hf a rfl

/-- What holds of every event holds of what the window makes of a line of the engine's output. -/
theorem applyTelemetry_rule {app : MinerApp} {now : Nat} {value : Value} (hrefl : R app app)
    (hevent : ∀ event, R app (app.applyEvent platform now value event)) :
    R app (app.applyTelemetry platform now value) := by
  unfold applyTelemetry
  dsimp only
  split_ifs
  · exact hrefl
  · exact elim_rule hrefl fun event _ => hevent event

/-- What holds of every line holds of the messages of a frame, one after the other. -/
theorem drainProcessMessages_rule (hrefl : ∀ app, R app app)
    (htrans : ∀ {app app' app''}, R app app' → R app' app'' → R app app'')
    (htelemetry : ∀ app now value, R app (app.applyTelemetry platform now value))
    (app : MinerApp) (env : PollEnv) : R app (app.drainProcessMessages platform env).1 := by
  have hfold : ∀ (messages : List (Nat × ProcessMessage)) (app : MinerApp),
      R app (messages.foldl (applyProcessMessage platform) app) := by
    intro messages
    induction messages with
    | nil => exact hrefl
    | cons message messages ih =>
      intro app
      have hmessage : R app (app.applyProcessMessage platform message) := by
        unfold applyProcessMessage
        split
        · exact htelemetry app _ _
        · exact hrefl app
      exact htrans hmessage (ih _)
  unfold drainProcessMessages
  split
  · exact hfold _ app
  · exact hrefl app

end Rules

/-- The window with everything forgotten that an event may change. -/
def unpainted (app : MinerApp) : MinerApp :=
  { app.resetTelemetry with
    phase := .idle, outputDisconnectedAt := app.outputDisconnectedAt,
    pendingObservationFailure := app.pendingObservationFailure, automaticRestartAttempts := 0 }

/-- An event repaints the window, and at most gives back the recovery budget. -/
structure Repaints (app app' : MinerApp) : Prop where
  unpainted : app'.unpainted = app.unpainted
  attempts : app'.automaticRestartAttempts = app.automaticRestartAttempts ∨
    app'.automaticRestartAttempts = 0

namespace Repaints
variable {platform : Platform} {app app' app'' : MinerApp}

theorem refl (app : MinerApp) : Repaints app app := ⟨rfl, .inl rfl⟩

theorem trans (h : Repaints app app') (h' : Repaints app' app'') : Repaints app app'' where
  unpainted := h'.unpainted.trans h.unpainted
  attempts := by
    rcases h'.attempts with hsame | hreset
    · rw [hsame]
      exact h.attempts
    · exact .inr hreset

theorem markWorkerReady (worker : UInt64) : Repaints app (app.markWorkerReady platform worker) := by
  unfold MinerApp.markWorkerReady
  split_ifs
  · exact .refl app
  · exact ⟨rfl, .inl rfl⟩

/-- A message of the node or a job shows that the link is up. -/
theorem linked : Repaints app { app with nodeLinkLive := true }.enterMiningPhase := by
  unfold MinerApp.enterMiningPhase
  split_ifs <;> exact ⟨rfl, .inl rfl⟩

theorem applyJob (value : Value) : Repaints app (app.applyJob value) := by
  unfold MinerApp.applyJob
  dsimp only
  split_ifs <;> exact linked.trans ⟨rfl, .inl rfl⟩

theorem applyJobCleared (value : Value) : Repaints app (app.applyJobCleared value) := by
  unfold MinerApp.applyJobCleared
  dsimp only
  split_ifs
  · exact ⟨rfl, .inl rfl⟩
  · exact .refl app

theorem metricsActiveWork (value : Value) : Repaints app (app.metricsActiveWork value) := by
  unfold MinerApp.metricsActiveWork
  split
  · split_ifs <;> exact ⟨rfl, .inl rfl⟩
  · dsimp only
    split_ifs <;> exact ⟨rfl, .inl rfl⟩

theorem metricsRound (value : Value) : Repaints app (app.metricsRound value) := by
  unfold MinerApp.metricsRound
  dsimp only
  split <;> exact ⟨rfl, .inl rfl⟩

/-- The one place where the budget is given back. -/
theorem metricsStability (now : Nat) : Repaints app (app.metricsStability platform now) := by
  unfold MinerApp.metricsStability
  dsimp only
  split_ifs
  · exact ⟨rfl, .inr rfl⟩
  · exact ⟨rfl, .inl rfl⟩
  · exact ⟨rfl, .inl rfl⟩

theorem applyMetrics (now : Nat) (value : Value) :
    Repaints app (app.applyMetrics platform now value) := by
  unfold MinerApp.applyMetrics
  apply trans (trans (trans _ (metricsActiveWork value)) (metricsRound value))
    (metricsStability now)
  exact ⟨rfl, .inl rfl⟩

/-- One case per event. -/
theorem applyEvent (now : Nat) (value : Value) (event : EngineEvent) :
    Repaints app (app.applyEvent platform now value event) := by
  cases event with
  | nodeConnected => exact linked
  | workerInitializing => exact elim_rule (refl app) fun _ _ => ⟨rfl, .inl rfl⟩
  | workerReady | workerRecovered =>
    exact elim_rule (refl app) fun worker _ => markWorkerReady worker
  | workerError => exact elim_rule (refl app) fun _ _ => ⟨rfl, .inl rfl⟩
  | job => exact applyJob value
  | jobCleared => exact applyJobCleared value
  | metrics => exact applyMetrics now value
  | startup | connecting | poolConnected | engineFatal | sessionError => exact ⟨rfl, .inl rfl⟩

theorem applyTelemetry (now : Nat) (value : Value) :
    Repaints app (app.applyTelemetry platform now value) :=
  applyTelemetry_rule (refl app) (applyEvent now value)

theorem drainProcessMessages (env : PollEnv) :
    Repaints app (app.drainProcessMessages platform env).1 :=
  drainProcessMessages_rule refl trans (fun _ => applyTelemetry) app env

end Repaints
end MinerApp
end XusMiner.Gui

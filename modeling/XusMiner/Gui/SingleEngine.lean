import XusMiner.Gui.Telemetry

namespace XusMiner.Gui
namespace MinerApp

variable (platform : Platform)

/-- The process handles, and the record of what became of the processes. -/
def processes (app : MinerApp) : Option Child × Option Child × List OsEvent :=
  (app.child, app.quarantinedChild, app.osLog)

theorem Repaints.processes {app app' : MinerApp} (h : Repaints app app') :
    app'.processes = app.processes :=
  show app'.unpainted.processes = app.unpainted.processes from congrArg _ h.unpainted

@[simp] theorem processes_scheduleAutomaticRestart (app : MinerApp) (now : Nat) :
    (app.scheduleAutomaticRestart platform now).processes = app.processes := by
  unfold scheduleAutomaticRestart processes
  dsimp only
  split_ifs <;> rfl

@[simp] theorem processes_failEngineStart (app : MinerApp) (automatic : Bool) (now : Nat) :
    (app.failEngineStart platform automatic now).processes = app.processes := by
  unfold failEngineStart
  split
  · exact processes_scheduleAutomaticRestart platform { app with phase := .error } now
  · rfl

@[simp] theorem processes_finishObservationFailure (app : MinerApp) (now : Nat) :
    (app.finishObservationFailure platform now).processes = app.processes :=
  processes_scheduleAutomaticRestart platform _ now

@[simp] theorem processes_finishExitedChild (app : MinerApp) (status : ExitStatus) (now : Nat) :
    (app.finishExitedChild platform status now).processes = app.processes := by
  unfold finishExitedChild
  dsimp only
  split_ifs
  · rfl
  · rw [processes_scheduleAutomaticRestart]
    split <;> rfl

@[simp] theorem processes_pollReaders (app : MinerApp) (env : PollEnv) (had disconnected : Bool) :
    (app.pollReaders env had disconnected).processes = app.processes := by
  unfold pollReaders processes
  dsimp only
  split_ifs <;> rfl

/-- Every process not proven to have exited is held by a handle, and every handle the window
holds is of such a process. -/
def Supervised (app : MinerApp) : Prop :=
  Exclusive app.osLog ∧ unproven app.osLog = app.child.toList ++ app.quarantinedChild.toList

variable {platform} {app app' : MinerApp}

theorem Supervised.congr (h : Supervised app) (heq : app'.processes = app.processes) :
    Supervised app' := by
  simp only [processes, Prod.mk.injEq] at heq
  rcases heq with ⟨hchild, hquarantined, hlog⟩
  unfold Supervised
  rw [hchild, hquarantined, hlog]
  exact h

/-- There is at most one process, so at most one of the two places is taken. -/
theorem Supervised.quarantined_eq_none (h : Supervised app) {child : Child}
    (hchild : app.child = some child) : app.quarantinedChild = none := by
  have hlength := h.1.length_le_one
  rw [h.2, hchild] at hlength
  cases hq : app.quarantinedChild with
  | none => rfl
  | some _ =>
    rw [hq] at hlength
    simp at hlength

/-- The cleanup of the one process there may be, taken out of its place. -/
theorem Supervised.reapOrQuarantine {child : Child} (hexclusive : Exclusive app.osLog)
    (hunproven : unproven app.osLog = [child]) (hchild : app.child = none)
    (hquarantined : app.quarantinedChild = none) (os : Cleanup) :
    Supervised (app.reapOrQuarantine child os).1 ∧ (app.reapOrQuarantine child os).1.child = none :=
    by
  unfold MinerApp.reapOrQuarantine
  split
  · refine ⟨⟨hexclusive, ?_⟩, hchild⟩
    simp [unproven, hunproven, hchild, hquarantined]
  · exact ⟨⟨hexclusive, by simp [hunproven, hchild]⟩, hchild⟩

theorem Supervised.exit_child (h : Supervised app) {child : Child} (hchild : app.child = some child)
    (hprocesses : app'.processes = (none, app.quarantinedChild, .exited child :: app.osLog)) :
    Supervised app' := by
  simp only [processes, Prod.mk.injEq] at hprocesses
  rcases hprocesses with ⟨hnone, hquarantined, hlog⟩
  have hq := h.quarantined_eq_none hchild
  unfold Supervised
  rw [hnone, hquarantined, hlog]
  refine ⟨h.1, ?_⟩
  simp [unproven, h.2, hchild, hq]

theorem Supervised.cleanupChild (h : Supervised app) (os : Cleanup) :
    Supervised (app.cleanupChild os) := by
  unfold MinerApp.cleanupChild
  split
  · exact h
  · rename_i child hchild
    have hq := h.quarantined_eq_none hchild
    have hunproven : unproven app.osLog = [child] := by simp [h.2, hchild, hq]
    exact (@reapOrQuarantine { app with child := none } child h.1 hunproven rfl hq os).1

theorem Supervised.beginObservationFailure (h : Supervised app) (os : Cleanup) (now : Nat) :
    Supervised (app.beginObservationFailure os now) := by
  unfold MinerApp.beginObservationFailure
  split_ifs
  · exact h
  · have h' : Supervised { app with
        engineFatalSeen := true, nodeLinkLive := false, requestedStop := false,
        workerErrorCanRestoreMining := false, phase := .error } := h.congr rfl
    exact (h'.cleanupChild os).congr rfl

theorem Supervised.attachEngine {child : Child} {automatic : Bool} {env : StartEnv}
    (hexclusive : Exclusive app.osLog) (hunproven : unproven app.osLog = [child])
    (hchild : app.child = none) (hquarantined : app.quarantinedChild = none) :
    Supervised (app.attachEngine platform child automatic env) := by
  have hreap := Supervised.reapOrQuarantine hexclusive hunproven hchild hquarantined env.cleanup
  unfold MinerApp.attachEngine
  split
  · exact hreap.1.congr (processes_failEngineStart platform _ _ _)
  · split_ifs
    · exact hreap.1.congr (processes_failEngineStart platform _ _ _)
    · exact ⟨hexclusive, by simp [hunproven, hquarantined]⟩

theorem hasLiveEngineState_eq_false (h : app.hasLiveEngineState = false) :
    app.child = none ∧ app.quarantinedChild = none := by
  simp only [hasLiveEngineState, Bool.or_eq_false_iff, Option.isSome_eq_false_iff,
    Option.isNone_iff_eq_none] at h
  exact ⟨h.1.1.1, h.1.1.2⟩

/-- A spawn: with neither handle held there is no unproven process. -/
theorem Supervised.startEngine (h : Supervised app) (automatic : Bool) (env : StartEnv) :
    Supervised (app.startEngine platform automatic env) := by
  by_cases hlive : app.hasLiveEngineState = true
  · rw [MinerApp.startEngine, if_pos hlive]
    exact h
  · rcases hasLiveEngineState_eq_false (by simpa using hlive) with ⟨hchild, hquarantined⟩
    have hnone : unproven app.osLog = [] := by simp [h.2, hchild, hquarantined]
    rw [MinerApp.startEngine, if_neg hlive]
    split_ifs
    · exact h.congr (processes_failEngineStart platform _ _ _)
    · exact h.congr (processes_failEngineStart platform _ _ _)
    · apply Supervised.attachEngine
      · exact ⟨hnone, h.1⟩
      · change _ :: unproven app.osLog = _
        rw [hnone]
      · exact hchild
      · exact hquarantined

theorem Supervised.start (h : Supervised app) (env : StartEnv) :
    Supervised (app.start platform env) := by
  unfold MinerApp.start
  split_ifs
  · exact h
  · apply Supervised.startEngine
    exact h.congr rfl

theorem Supervised.retryQuarantined (h : Supervised app) (hchild : app.child = none)
    (os : Cleanup) : Supervised (app.retryQuarantined os) := by
  unfold MinerApp.retryQuarantined
  split
  · exact h
  · rename_i child hquarantined
    have hunproven : unproven app.osLog = [child] := by simp [h.2, hchild, hquarantined]
    exact (@reapOrQuarantine { app with quarantinedChild := none } child h.1 hunproven hchild
      rfl os).1

@[simp] theorem processes_cancelRecovery (app : MinerApp) :
    app.cancelRecovery.processes = app.processes := by
  unfold cancelRecovery
  dsimp only
  split_ifs <;> rfl

theorem Supervised.stop (h : Supervised app) (env : StopEnv) : Supervised (app.stop env) := by
  have h' : Supervised app.cancelRecovery := h.congr (processes_cancelRecovery app)
  unfold MinerApp.stop
  dsimp only
  split
  · rename_i hchild
    have hretry := h'.retryQuarantined hchild env.quarantined
    unfold stopWithoutChild
    dsimp only
    split_ifs
    · exact hretry.congr rfl
    · exact hretry.congr rfl
    · exact hretry
  · rename_i child hchild
    split
    · exact h'.beginObservationFailure _ _
    · exact h'.exit_child hchild rfl
    · split <;> exact h'.congr rfl

theorem Supervised.pollChild (h : Supervised app) (env : PollEnv) :
    Supervised (app.pollChild env) := by
  unfold MinerApp.pollChild
  split_ifs
  · exact h
  · split
    · rename_i hchild _
      exact h.exit_child hchild rfl
    · exact h.beginObservationFailure _ _
    · exact h

theorem Supervised.pollObservationFailure (h : Supervised app) (platform : Platform)
    (env : PollEnv) (disconnected : Bool) :
    Supervised (app.pollObservationFailure platform env disconnected) := by
  unfold MinerApp.pollObservationFailure
  split
  · exact h
  · split_ifs
    · exact h.congr (processes_finishObservationFailure platform _ _)
    · exact h

theorem Supervised.pollQuarantined (h : Supervised app) (env : PollEnv) :
    Supervised (app.pollQuarantined env) := by
  unfold MinerApp.pollQuarantined
  split
  · rename_i child status hquarantined hexit
    have hchild : app.child = none := by
      cases hchild : app.child with
      | none => rfl
      | some _ =>
        rw [h.quarantined_eq_none hchild] at hquarantined
        cases hquarantined
    refine ⟨h.1, ?_⟩
    simp [unproven, h.2, hchild, hquarantined]
  · exact h

theorem Supervised.pollExit (h : Supervised app) (platform : Platform) (env : PollEnv)
    (disconnected : Bool) :
    Supervised (app.pollExit platform env disconnected) := by
  unfold MinerApp.pollExit
  split
  · split_ifs
    · exact h.congr (processes_finishExitedChild platform _ _ _)
    · exact h
  · exact h

theorem Supervised.pollRestart (h : Supervised app) (env : PollEnv) :
    Supervised (app.pollRestart platform env) := by
  unfold MinerApp.pollRestart
  split_ifs
  · apply Supervised.startEngine
    exact h.congr rfl
  · exact h

theorem Supervised.pollProcess (h : Supervised app) (env : PollEnv) :
    Supervised (app.pollProcess platform env) := by
  unfold MinerApp.pollProcess
  have hdrained : Supervised (app.drainProcessMessages platform env).1 :=
    h.congr (Repaints.drainProcessMessages env).processes
  have hobserved := (hdrained.pollChild env).pollObservationFailure platform env
    (app.drainProcessMessages platform env).2
  have hexit := (hobserved.pollQuarantined env).pollExit platform env
    (app.drainProcessMessages platform env).2
  exact (hexit.congr (processes_pollReaders _ _ _ _)).pollRestart env

/-- One case per operation of the window. -/
theorem Supervised.step (h : Supervised app) (operation : Operation) :
    Supervised (app.step platform operation) := by
  cases operation with
  | start env => exact h.start env
  | stop env => exact h.stop env
  | pollProcess env => exact h.pollProcess env
  | applyTelemetry now value => exact h.congr (Repaints.applyTelemetry now value).processes
  | automaticRestart env => exact h.startEngine true env
  | staleTelemetry => exact h.congr rfl
  | editWorkers workers =>
    unfold MinerApp.step
    split_ifs
    · exact h
    · exact h.congr rfl

theorem Supervised.run (h : Supervised app) (operations : List Operation) :
    Supervised (app.run platform operations) := by
  induction operations generalizing app with
  | nil => exact h
  | cons operation operations ih => exact ih (h.step operation)

end MinerApp

/-- Whatever the window does and the operating system answers: at every point of the record at
most one process is not proven to have exited, a process is only spawned when none is, and such
a process is held by one of the two handles. -/
theorem one_engine (platform : Platform) (operations : List Operation) :
    let app := MinerApp.run platform {} operations
    (∀ log, log <:+ app.osLog → (unproven log).length ≤ 1) ∧
    (∀ log child, .spawned child :: log <:+ app.osLog → unproven log = []) ∧
    ∀ child ∈ unproven app.osLog, app.child = some child ∨ app.quarantinedChild = some child := by
  intro app
  have hinitial : ({} : MinerApp).Supervised := ⟨trivial, rfl⟩
  have h : app.Supervised := hinitial.run operations
  refine ⟨fun log hlog => (h.1.suffix hlog).length_le_one, ?_, ?_⟩
  · intro log child hlog
    exact (h.1.suffix hlog).1
  · intro child hchild
    simpa [h.2] using hchild

end XusMiner.Gui

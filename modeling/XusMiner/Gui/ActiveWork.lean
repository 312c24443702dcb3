import XusMiner.Gui.Telemetry
import XusMiner.Library.Runs

namespace XusMiner.Gui

/-- The event that a line of the engine's output is, if it is one the window acts on. -/
def telemetryEvent (value : Value) : Option EngineEvent :=
  ((value.get "event").bind Value.asStr).bind EngineEvent.ofName

def metricsHeight (value : Value) : Option UInt64 := (value.get "height").bind Value.asU64

/-- The reporter says that there is no job. -/
def Jobless (value : Value) : Prop := (value.get "height").any Value.isNull

namespace MinerApp

/-- The window shows no work. -/
structure NoActiveWork (app : MinerApp) : Prop where
  height : app.height = none
  jobId : app.jobId = waitingForWork
  coinbase : app.coinbase = none
  expectedHashes : app.expectedHashes = none
  roundProbability : app.roundProbability = none

/-- Without a job nothing else is shown of one, and one jobless sample is not followed up by a
second. -/
structure Tracked (app : MinerApp) : Prop where
  idle : app.jobId = waitingForWork → app.NoActiveWork
  seen : app.joblessMetricsSeen < 2
  fatal : app.engineFatalSeen = true → app.jobId = waitingForWork

/-- What the events before are expected to keep to: the height of a sample is not taken while no
job is shown, and no job bears the placeholder's name. -/
def Orderly (app : MinerApp) (value : Value) : Prop :=
  (telemetryEvent value = some .job →
    (value.get "job_id").bind Value.asStr ≠ some waitingForWork) ∧
  (telemetryEvent value = some .metrics → app.jobId = waitingForWork → metricsHeight value = none)

variable {platform : Platform} {app app' : MinerApp}

theorem metricsHeight_of_jobless {value : Value} (h : Jobless value) :
    metricsHeight value = none := by
  unfold Jobless at h
  unfold metricsHeight
  cases hheight : value.get "height" with
  | none => rfl
  | some v =>
    rw [hheight] at h
    cases v with
    | null => rfl
    | _ => exact absurd h (by simp [Value.isNull])

theorem noActiveWork_clearActiveWork (app : MinerApp) : app.clearActiveWork.NoActiveWork :=
  ⟨rfl, rfl, rfl, rfl, rfl⟩

theorem zero_lt_two_seen : (0 : UInt8) < 2 := by decide

theorem Tracked.resetTelemetry (app : MinerApp) : app.resetTelemetry.Tracked where
  idle _ := ⟨rfl, rfl, rfl, rfl, rfl⟩
  seen := zero_lt_two_seen
  fatal h := nomatch h

/-- What is shown of the work at hand. -/
def work (app : MinerApp) :
    Option UInt64 × String × UInt8 × Option String × Option Number × Option Number :=
  (app.height, app.jobId, app.joblessMetricsSeen, app.coinbase, app.expectedHashes,
    app.roundProbability)

def SameWork (app app' : MinerApp) : Prop :=
  app'.work = app.work ∧ app'.engineFatalSeen = app.engineFatalSeen

theorem SameWork.refl (app : MinerApp) : SameWork app app := ⟨rfl, rfl⟩

theorem SameWork.linked : SameWork app { app with nodeLinkLive := true }.enterMiningPhase := by
  unfold enterMiningPhase
  dsimp only
  split_ifs <;> exact ⟨rfl, rfl⟩

theorem SameWork.markWorkerReady (worker : UInt64) :
    SameWork app (app.markWorkerReady platform worker) := by
  unfold MinerApp.markWorkerReady
  dsimp only
  split_ifs <;> exact ⟨rfl, rfl⟩

/-- The events that concern the workers, the link and the session leave the work alone or clear
it. -/
theorem work_applyEvent (now : Nat) (value : Value) {event : EngineEvent}
    (hjob : event ≠ .job) (hmetrics : event ≠ .metrics) :
    SameWork app (app.applyEvent platform now value event) ∨
    (app.applyEvent platform now value event).work = app.clearActiveWork.work := by
  cases event with
  | job => exact absurd rfl hjob
  | metrics => exact absurd rfl hmetrics
  | startup | connecting | poolConnected => exact .inl ⟨rfl, rfl⟩
  | nodeConnected => exact .inl .linked
  | workerInitializing => exact .inl (elim_rule (.refl app) fun _ _ => ⟨rfl, rfl⟩)
  | workerReady | workerRecovered =>
    exact .inl (elim_rule (.refl app) fun worker _ => .markWorkerReady worker)
  | workerError => exact .inl (elim_rule (.refl app) fun _ _ => ⟨rfl, rfl⟩)
  | engineFatal | sessionError => exact .inr rfl
  | jobCleared =>
    unfold applyEvent applyJobCleared
    dsimp only
    split_ifs
    · exact .inr rfl
    · exact .inl ⟨rfl, rfl⟩

theorem NoActiveWork.congr (h : app.NoActiveWork) (hwork : app'.work = app.work) :
    app'.NoActiveWork := by
  simp only [work, Prod.mk.injEq] at hwork
  obtain ⟨hheight, hjobId, -, hcoinbase, hexpected, hprobability⟩ := hwork
  exact ⟨hheight.trans h.height, hjobId.trans h.jobId, hcoinbase.trans h.coinbase,
    hexpected.trans h.expectedHashes, hprobability.trans h.roundProbability⟩

theorem Tracked.congr (h : app.Tracked) (hsame : SameWork app app') : app'.Tracked := by
  have hwork := hsame.1
  simp only [work, Prod.mk.injEq] at hwork
  obtain ⟨-, hjobId, hseen, -⟩ := hwork
  refine ⟨fun hidle => ?_, ?_, fun hfatal => ?_⟩
  · exact (h.idle (hjobId ▸ hidle)).congr hsame.1
  · rw [hseen]
    exact h.seen
  · rw [hjobId]
    exact h.fatal (hsame.2 ▸ hfatal)

theorem Tracked.of_cleared (hwork : app'.work = app.clearActiveWork.work) : app'.Tracked := by
  have hnone := (noActiveWork_clearActiveWork app).congr hwork
  simp only [work, Prod.mk.injEq] at hwork
  refine ⟨fun _ => hnone, ?_, fun _ => hnone.jobId⟩
  rw [hwork.2.2.1]
  exact zero_lt_two_seen

/-- A job that does not bear the placeholder's name is shown as one. -/
theorem tracked_applyJob {value : Value} (hfatal : app.engineFatalSeen = false)
    (hname : (value.get "job_id").bind Value.asStr ≠ some waitingForWork) :
    (app.applyJob value).Tracked := by
  have hjobId : (app.applyJob value).jobId ≠ waitingForWork := by
    show ((value.get "job_id").bind Value.asStr).getD "unknown" ≠ waitingForWork
    cases hid : (value.get "job_id").bind Value.asStr with
    | none => decide
    | some id =>
      rw [hid] at hname
      exact fun heq => hname (congrArg some heq)
  have hlive : (app.applyJob value).engineFatalSeen = false := by
    unfold applyJob enterMiningPhase
    dsimp only
    split_ifs <;> exact hfatal
  refine ⟨fun hidle => absurd hidle hjobId, ?_, fun h => absurd h (by simp [hlive])⟩
  exact zero_lt_two_seen

/-- What a sample leaves behind: no work, or the job at hand with one more jobless sample on its
count. -/
def Sampled (app : MinerApp) (value : Value) (app' : MinerApp) : Prop :=
  app'.NoActiveWork ∨ (app'.jobId = app.jobId ∧ app.jobId ≠ waitingForWork ∧
    (Jobless value → app'.joblessMetricsSeen.toNat = app.joblessMetricsSeen.toNat + 1))

theorem Sampled.congr {value : Value} {app'' : MinerApp} (h : Sampled app value app')
    (hsame : SameWork app' app'') : Sampled app value app'' := by
  have hwork := hsame.1
  rcases h with hnone | ⟨hkept, hjob, hmissed⟩
  · exact .inl (hnone.congr hwork)
  · simp only [work, Prod.mk.injEq] at hwork
    refine .inr ⟨hwork.2.1.trans hkept, hjob, fun hjobless => ?_⟩
    rw [hwork.2.2.1]
    exact hmissed hjobless

theorem Tracked.of_sampled {value : Value} (h : app.Tracked) (hsampled : Sampled app value app')
    (hseen : app'.joblessMetricsSeen < 2) (hfatal : app'.engineFatalSeen = app.engineFatalSeen) :
    app'.Tracked := by
  rcases hsampled with hnone | ⟨hkept, hjob, -⟩
  · exact ⟨fun _ => hnone, hseen, fun _ => hnone.jobId⟩
  · exact ⟨fun hwaiting => absurd (hkept ▸ hwaiting) hjob, hseen,
      fun hdead => absurd (h.fatal (hfatal ▸ hdead)) hjob⟩

theorem metricsActiveWork_sampled (h : app.Tracked) {value : Value}
    (hidle : app.jobId = waitingForWork → metricsHeight value = none) :
    (app.metricsActiveWork value).joblessMetricsSeen < 2 ∧
    (app.metricsActiveWork value).engineFatalSeen = app.engineFatalSeen ∧
    Sampled app value (app.metricsActiveWork value) := by
  by_cases hwaiting : app.jobId = waitingForWork
  · have hsame : app.metricsActiveWork value = app := by
      unfold metricsActiveWork
      have hnone := hidle hwaiting
      unfold metricsHeight at hnone
      rw [hnone]
      simp [hwaiting]
    rw [hsame]
    exact ⟨h.seen, rfl, .inl (h.idle hwaiting)⟩
  · have hseen := UInt8.lt_iff_toNat_lt.1 h.seen
    unfold metricsActiveWork
    split
    · next height hheight =>
      have hnot : ¬Jobless value := fun hjobless =>
        nomatch hheight.symm.trans (metricsHeight_of_jobless hjobless)
      split_ifs
      · exact ⟨zero_lt_two_seen, rfl, .inr ⟨rfl, hwaiting, fun hj => absurd hj hnot⟩⟩
      · exact ⟨h.seen, rfl, .inr ⟨rfl, hwaiting, fun hj => absurd hj hnot⟩⟩
    · have hsmall : app.joblessMetricsSeen ≠ 255 := by
        intro hmax
        rw [hmax] at hseen
        exact absurd hseen (by decide)
      dsimp only
      rw [if_neg hsmall]
      split_ifs with hnull hclear
      · exact ⟨zero_lt_two_seen, rfl, .inl (noActiveWork_clearActiveWork app)⟩
      · have hfew : app.joblessMetricsSeen + 1 < 2 := UInt8.not_le.1 (not_or.1 hclear).2
        refine ⟨hfew, rfl, .inr ⟨rfl, hwaiting, fun _ => ?_⟩⟩
        show (app.joblessMetricsSeen + 1).toNat = _
        rw [UInt8.toNat_add, Nat.mod_eq_of_lt]
        · rfl
        · have htwo : (2 : UInt8).toNat = 2 := rfl
          have hone : (1 : UInt8).toNat = 1 := rfl
          omega
      · exact ⟨h.seen, rfl, .inr ⟨rfl, hwaiting, fun hj => absurd ⟨hj, hwaiting⟩ hnull⟩⟩

/-- The rest of a sample changes the figures of the round only. -/
theorem metricsRound_frame (app : MinerApp) (value : Value) :
    (app.metricsRound value).jobId = app.jobId ∧
    (app.metricsRound value).joblessMetricsSeen = app.joblessMetricsSeen ∧
    (app.metricsRound value).engineFatalSeen = app.engineFatalSeen := by
  unfold metricsRound
  dsimp only
  split_ifs <;> exact ⟨rfl, rfl, rfl⟩

theorem NoActiveWork.metricsRound (h : app.NoActiveWork) (value : Value) :
    (app.metricsRound value).NoActiveWork := by
  unfold MinerApp.metricsRound
  dsimp only
  split_ifs
  · refine ⟨h.height, h.jobId, h.coinbase, h.expectedHashes, ?_⟩
    show app.expectedHashes.bind _ = none
    rw [h.expectedHashes]
    rfl
  · exact h

theorem Sampled.metricsRound {value : Value} (h : Sampled app value app') :
    Sampled app value (app'.metricsRound value) := by
  obtain ⟨hjobId, hcount, -⟩ := metricsRound_frame app' value
  rcases h with hnone | ⟨hkept, hjob, hmissed⟩
  · exact .inl (hnone.metricsRound value)
  · refine .inr ⟨hjobId.trans hkept, hjob, fun hjobless => ?_⟩
    rw [hcount]
    exact hmissed hjobless

theorem SameWork.metricsStability (now : Nat) :
    SameWork app (app.metricsStability platform now) := by
  unfold MinerApp.metricsStability
  dsimp only
  split_ifs <;> exact ⟨rfl, rfl⟩

/-- A whole sample. Its height is taken only beside the job it may be of. -/
theorem applyMetrics_sampled (h : app.Tracked) (now : Nat) {value : Value}
    (hidle : app.jobId = waitingForWork → metricsHeight value = none) :
    (app.applyMetrics platform now value).Tracked ∧
    Sampled app value (app.applyMetrics platform now value) := by
  unfold applyMetrics
  extract_lets taken
  have htaken : taken.Tracked := by
    refine ⟨fun hwaiting => ?_, h.seen, h.fatal⟩
    have hnone := h.idle hwaiting
    refine ⟨?_, hnone.jobId, hnone.coinbase, hnone.expectedHashes, hnone.roundProbability⟩
    show app.height.or (metricsHeight value) = none
    rw [hnone.height, hidle hwaiting]
    rfl
  obtain ⟨hseen, hfatal, hsampled⟩ := metricsActiveWork_sampled htaken hidle
  obtain ⟨-, hcount, hfatal'⟩ := metricsRound_frame (taken.metricsActiveWork value) value
  have hround := htaken.of_sampled hsampled.metricsRound (hcount ▸ hseen) (hfatal'.trans hfatal)
  have hstable := @SameWork.metricsStability platform
    ((taken.metricsActiveWork value).metricsRound value) now
  exact ⟨hround.congr hstable, hsampled.metricsRound.congr hstable⟩

/-- A step of `apply_telemetry`. -/
def telemetryStep (platform : Platform) (app : MinerApp) (telemetry : Nat × Value) :
    Option MinerApp :=
  some (app.applyTelemetry platform telemetry.1 telemetry.2)

theorem applyTelemetry_eq (hstop : app.requestedStop = false) (hlive : app.engineFatalSeen = false)
    (now : Nat) (value : Value) : app.applyTelemetry platform now value =
      (telemetryEvent value).elim app (app.applyEvent platform now value) := by
  unfold applyTelemetry
  dsimp only
  rw [if_neg (by simp [hstop, hlive])]
  rfl

/-- A dead engine is not repainted. -/
theorem applyTelemetry_of_fatal (hdead : app.engineFatalSeen = true) (now : Nat) (value : Value) :
    app.applyTelemetry platform now value = app := by
  unfold applyTelemetry
  dsimp only
  rw [if_pos (.inl hdead)]

theorem Repaints.requestedStop (h : Repaints app app') : app'.requestedStop = app.requestedStop :=
  show app'.unpainted.requestedStop = app.unpainted.requestedStop from congrArg _ h.unpainted

/-- A job that is still shown after a step was shown before it, and a jobless sample of the step is
on its count. -/
structure StillShown (app : MinerApp) (value : Value) (app' : MinerApp) : Prop where
  shown : app.jobId ≠ waitingForWork
  sample : telemetryEvent value = some .metrics → Jobless value →
    app'.joblessMetricsSeen.toNat = app.joblessMetricsSeen.toNat + 1
  other : telemetryEvent value ≠ some .metrics →
    app'.joblessMetricsSeen = app.joblessMetricsSeen

theorem applyTelemetry_tracked (h : app.Tracked) (hstop : app.requestedStop = false) (now : Nat)
    {value : Value} (horderly : Orderly app value) :
    (app.applyTelemetry platform now value).Tracked ∧
    (telemetryEvent value ≠ some .job →
      (app.applyTelemetry platform now value).jobId ≠ waitingForWork →
      StillShown app value (app.applyTelemetry platform now value)) := by
  by_cases hdead : app.engineFatalSeen = true
  · rw [applyTelemetry_of_fatal hdead]
    exact ⟨h, fun _ hshown => absurd (h.fatal hdead) hshown⟩
  have hlive : app.engineFatalSeen = false := by simpa using hdead
  rw [applyTelemetry_eq hstop hlive]
  cases hevent : telemetryEvent value with
  | none =>
    have hother : telemetryEvent value ≠ some .metrics := by
      rw [hevent]
      exact nofun
    exact ⟨h, fun _ hshown => ⟨hshown, fun hsample => absurd hsample hother, fun _ => rfl⟩⟩
  | some event =>
    rw [Option.elim_some]
    by_cases hjob : event = .job
    · subst hjob
      exact ⟨tracked_applyJob hlive (horderly.1 hevent), fun hne => absurd rfl hne⟩
    by_cases hmetrics : event = .metrics
    · subst hmetrics
      obtain ⟨htracked, hsampled⟩ :=
        @applyMetrics_sampled platform app h now value (horderly.2 hevent)
      refine ⟨htracked, fun _ hshown => ?_⟩
      rcases hsampled with hnone | ⟨-, hbefore, hmissed⟩
      · exact absurd hnone.jobId hshown
      · exact ⟨hbefore, fun _ => hmissed, fun hne => absurd hevent hne⟩
    rcases @work_applyEvent platform app now value event hjob hmetrics with hsame | hcleared
    · refine ⟨h.congr hsame, fun _ hshown => ?_⟩
      have hwork := hsame.1
      simp only [work, Prod.mk.injEq] at hwork
      refine ⟨hwork.2.1 ▸ hshown, fun hsample => ?_, fun _ => hwork.2.2.1⟩
      exact absurd (Option.some.inj (hevent.symm.trans hsample)) hmetrics
    · have htracked := Tracked.of_cleared hcleared
      refine ⟨htracked, fun _ hshown => ?_⟩
      exact absurd ((noActiveWork_clearActiveWork app).congr hcleared).jobId hshown

end MinerApp

/-- Telemetry from which the job is gone: no job arrives, and the samples are jobless. -/
def NoNewWork (value : Value) : Prop :=
  telemetryEvent value ≠ some .job ∧ (telemetryEvent value = some .metrics → Jobless value)

def samples (tail : List (Nat × Value)) : ℕ :=
  tail.countP fun telemetry => telemetryEvent telemetry.2 = some .metrics

namespace MinerApp
variable {platform : Platform} {app final : MinerApp}

theorem Orderly.of_noNewWork {value : Value} (h : NoNewWork value) : Orderly app value :=
  ⟨fun hjob => absurd hjob h.1, fun hmetrics _ => metricsHeight_of_jobless (h.2 hmetrics)⟩

/-- As long as a job is shown, every jobless sample is on the count. -/
theorem run_noNewWork {tail : List (Nat × Value)} (h : app.Tracked)
    (hstop : app.requestedStop = false) (htail : ∀ telemetry ∈ tail, NoNewWork telemetry.2)
    (hrun : Runs.run (telemetryStep platform) app tail = some final) :
    final.Tracked ∧ (final.jobId ≠ waitingForWork → app.jobId ≠ waitingForWork ∧
      final.joblessMetricsSeen.toNat = app.joblessMetricsSeen.toNat + samples tail) := by
  induction tail generalizing app with
  | nil =>
    obtain rfl := Option.some.inj hrun
    exact ⟨h, fun hshown => ⟨hshown, rfl⟩⟩
  | cons telemetry tail ih =>
    obtain ⟨next, hnext, hrun⟩ := Runs.run_cons_eq_some.1 hrun
    obtain rfl := Option.some.inj hnext
    have hnew := htail telemetry List.mem_cons_self
    obtain ⟨htracked, hcounted⟩ :=
      @applyTelemetry_tracked platform app h hstop telemetry.1 telemetry.2 (.of_noNewWork hnew)
    have hrepaints : Repaints app (app.applyTelemetry platform telemetry.1 telemetry.2) :=
      .applyTelemetry _ _
    have hstop' := hrepaints.requestedStop.trans hstop
    obtain ⟨hfinal, hlater⟩ := ih htracked hstop'
      (fun later hlater => htail later (List.mem_cons_of_mem _ hlater)) hrun
    refine ⟨hfinal, fun hshown => ?_⟩
    obtain ⟨hshown', hcount⟩ := hlater hshown
    have hstep := hcounted hnew.1 hshown'
    refine ⟨hstep.shown, ?_⟩
    unfold samples at hcount ⊢
    by_cases hmetrics : telemetryEvent telemetry.2 = some .metrics
    · rw [hcount, hstep.sample hmetrics (hnew.2 hmetrics), List.countP_cons_of_pos
      (by simpa using hmetrics)]
      omega
    · rw [hcount, hstep.other hmetrics, List.countP_cons_of_neg (by simpa using hmetrics)]

end MinerApp

/-- Once the job is gone for the engine, two samples later it is gone for the window, if no sample
was taken for the height of a job while none was shown. -/
theorem active_work_converges {platform : Platform} {app final : MinerApp}
    {before tail : List (Nat × Value)} (hstop : app.requestedStop = false)
    (horderly : Runs.StepsSatisfy (MinerApp.telemetryStep platform)
      (fun app telemetry => app.Orderly telemetry.2) app.resetTelemetry before)
    (htail : ∀ telemetry ∈ tail, NoNewWork telemetry.2) (htwo : 2 ≤ samples tail)
    (hrun : Runs.run (MinerApp.telemetryStep platform) app.resetTelemetry (before ++ tail) =
      some final) : final.NoActiveWork := by
  obtain ⟨middle, hbefore, hafter⟩ := Runs.run_prefix hrun
  have hmiddle : middle.Tracked ∧ middle.requestedStop = false := by
    refine horderly.run (I := fun app => app.Tracked ∧ app.requestedStop = false) ?_
      ⟨MinerApp.Tracked.resetTelemetry app, hstop⟩ hbefore
    intro app telemetry app' happ hstep happ'
    obtain rfl := Option.some.inj happ'
    refine ⟨(MinerApp.applyTelemetry_tracked happ.1 happ.2 _ hstep).1, ?_⟩
    exact (MinerApp.Repaints.applyTelemetry _ _).requestedStop.trans happ.2
  obtain ⟨hfinal, hcount⟩ := MinerApp.run_noNewWork hmiddle.1 hmiddle.2 htail hafter
  have hgone : final.jobId = waitingForWork := by
    by_contra hshown
    have hseen := UInt8.lt_iff_toNat_lt.1 hfinal.seen
    have hsamples := (hcount hshown).2
    have hlimit : (2 : UInt8).toNat = 2 := rfl
    omega
  exact hfinal.idle hgone

def jobTelemetry (id : String) (height : UInt64) : Value :=
  .json [("event", .string "job"), ("job_id", .string id), ("height", .nat height),
    ("coinbase", .string "c"), ("expected_hashes", .nat 2000)]

def clearedTelemetry (id : String) (height : UInt64) : Value :=
  .json [("event", .string "job_cleared"), ("job_id", .string id), ("height", .nat height)]

def sampleTelemetry (height : Option UInt64) : Value :=
  .json [("event", .string "metrics"), ("height", .ofOption .nat height), ("hashrate", .nat 0),
    ("round_height", .nat 5)]

instance (app : MinerApp) (value : Value) : Decidable (app.Orderly value) :=
  inferInstanceAs (Decidable ((_ → _ ≠ _) ∧ (_ → _ → _ = none)))

instance (value : Value) : Decidable (NoNewWork value) :=
  inferInstanceAs (Decidable (_ ≠ _ ∧ (_ → Option.any _ _ = true)))

/-- A jobless sample overtaken by a job, and a clearing overtaken by the next job. -/
theorem active_work_converges_overtaken : ∃ final, Runs.run (MinerApp.telemetryStep .unix)
    ({} : MinerApp).resetTelemetry ([(0, jobTelemetry "a" 5), (1, sampleTelemetry none),
      (2, jobTelemetry "b" 6), (3, clearedTelemetry "a" 5), (4, sampleTelemetry (some 6))] ++
      [(5, sampleTelemetry none), (6, sampleTelemetry none)]) = some final ∧
    final.NoActiveWork := by
  obtain ⟨final, hrun⟩ : ∃ final, Runs.run (MinerApp.telemetryStep .unix)
      ({} : MinerApp).resetTelemetry ([(0, jobTelemetry "a" 5), (1, sampleTelemetry none),
        (2, jobTelemetry "b" 6), (3, clearedTelemetry "a" 5), (4, sampleTelemetry (some 6))] ++
        [(5, sampleTelemetry none), (6, sampleTelemetry none)]) = some final := ⟨_, rfl⟩
  refine ⟨final, hrun, active_work_converges rfl ?_ ?_ ?_ hrun⟩
  · decide +kernel
  · decide +kernel
  · decide +kernel

/-- A sample taken before the clearing and told after it: the window takes its height up beside no
job, and there is no job any more to clear it with. -/
theorem raced_sample_stays_shown : ∃ final, Runs.run (MinerApp.telemetryStep .unix)
    ({} : MinerApp).resetTelemetry ([(0, jobTelemetry "a" 5), (1, clearedTelemetry "a" 5),
      (2, sampleTelemetry (some 5))] ++ [(3, sampleTelemetry none), (4, sampleTelemetry none)]) =
      some final ∧
    (∀ telemetry ∈ [(3, sampleTelemetry none), (4, sampleTelemetry none)],
      NoNewWork telemetry.2) ∧
    2 ≤ samples [(3, sampleTelemetry none), (4, sampleTelemetry none)] ∧
    final.height = some 5 ∧ final.jobId = waitingForWork ∧ ¬final.NoActiveWork := by
  have hheight : (Runs.run (MinerApp.telemetryStep .unix) ({} : MinerApp).resetTelemetry
      ([(0, jobTelemetry "a" 5), (1, clearedTelemetry "a" 5), (2, sampleTelemetry (some 5))] ++
        [(3, sampleTelemetry none), (4, sampleTelemetry none)])).map
      (fun app => (app.height, app.jobId)) = some (some 5, waitingForWork) := by decide +kernel
  obtain ⟨final, hrun, hshown⟩ := Option.map_eq_some_iff.1 hheight
  obtain ⟨hfive, hwaiting⟩ := Prod.mk.inj hshown
  refine ⟨final, hrun, by decide +kernel, by decide +kernel, hfive, hwaiting, fun hnone => ?_⟩
  exact nomatch hfive.symm.trans hnone.height

end XusMiner.Gui

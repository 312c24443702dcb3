import XusMiner.Engine.JobSlot

namespace XusMiner.Engine
open ByteCodec

/-- The generation a worker has cached is the number of increments it was loaded after, modulo
2^64; a worker that has not refreshed yet has the largest. Between its load and its slot read the
generation is already that of the job to come. -/
structure Worker.Numbered (wk : Worker) : Prop where
  refreshed : ∀ c, wk.pc.loaded = none → wk.refreshed = some c → wk.generation = UInt64.ofNat c
  fresh : wk.pc.loaded = none → wk.refreshed = none → wk.generation = 0xffffffffffffffff
  loaded : ∀ c, wk.pc.loaded = some c → wk.generation = UInt64.ofNat c

def State.Numbered (s : State) : Prop := s.generation = UInt64.ofNat s.history.increments

theorem State.Numbered.publish {s : State} (h : s.Numbered) (old : Option ArcJob) :
    (s.publish old).Numbered := by
  unfold State.Numbered at h ⊢
  simp [State.publish, h, UInt64.ofNat_add]

namespace Worker
variable {params : Params} {w : ℕ} {locks : Locks} {s s' : State} {wk wk' : Worker}

namespace Numbered

theorem start (w : ℕ) (restarts : UInt64) : (Worker.start w restarts).Numbered where
  refreshed _ _ h := nomatch h
  fresh _ _ := rfl
  loaded _ h := nomatch h

theorem congr (h : wk.Numbered) (hloaded : wk.pc.loaded = none)
    (hgeneration : wk'.generation = wk.generation) (hrefreshed : wk'.refreshed = wk.refreshed)
    (hloaded' : wk'.pc.loaded = none) : wk'.Numbered where
  refreshed c _ hc := by
    rw [hgeneration]
    exact h.refreshed c hloaded (hrefreshed ▸ hc)
  fresh _ hnone := by
    rw [hgeneration]
    exact h.fresh hloaded (hrefreshed ▸ hnone)
  loaded c hc := by
    rw [hloaded'] at hc
    cases hc

theorem enterBatch (h : wk.Numbered) (hloaded : wk.pc.loaded = none) :
    wk.enterBatch.Numbered := by
  unfold Worker.enterBatch
  split
  · exact h.congr hloaded rfl rfl rfl
  · exact h.congr hloaded rfl rfl rfl

/-- The slot read makes the count of the cached generation that of the job. -/
theorem readJob (h : wk.Numbered) {increments : ℕ} (hpc : wk.pc = .readJob increments) :
    (wk.readJob w s increments).Numbered := by
  have hgeneration : wk.generation = UInt64.ofNat increments :=
    h.loaded increments (by rw [hpc]; rfl)
  have hread := Worker.reader_readJob wk w s increments
  simp only [Worker.reader, Publication.Reader.mk.injEq] at hread
  obtain ⟨hrefreshed, -, hloaded⟩ := hread
  have hkept : (wk.readJob w s increments).generation = wk.generation := by
    unfold Worker.readJob Worker.enterBatch
    cases s.job <;> rfl
  refine ⟨?_, ?_, ?_⟩
  · intro c _ hc
    cases hrefreshed.symm.trans hc
    exact hkept.trans hgeneration
  · intro _ hnone
    cases hrefreshed.symm.trans hnone
  · intro c hc
    cases hloaded.symm.trans hc

end Numbered

theorem Move.numbered (hmove : Move params w locks s wk s' wk') (h : wk.Numbered)
    (hstate : s.Numbered) : wk'.Numbered ∧ s'.Numbered := by
  cases hmove with
  | loadGeneration =>
    refine ⟨⟨fun c hc => ?_, fun hc => ?_, fun c hc => ?_⟩, hstate⟩
    · cases hc
    · cases hc
    · cases hc
      exact hstate
  | current hpc => exact ⟨h.enterBatch (by rw [hpc]; rfl), hstate⟩
  | readJob hpc => exact ⟨h.readJob hpc, hstate⟩
  | panic => exact ⟨.start _ _, hstate⟩
  | clearGeneration hpc => exact ⟨h.congr (by rw [hpc]; rfl) rfl rfl rfl, hstate.publish _⟩
  | submitBlock reply hpc =>
    unfold Worker.submitBlock
    simp only
    split
    · exact ⟨h.congr (by rw [hpc]; rfl) rfl rfl rfl, hstate⟩
    · exact ⟨h.congr (by rw [hpc]; rfl) rfl rfl rfl, hstate⟩
  | emitShare hpc =>
    rw [State.emit_eq]
    exact ⟨h.congr (by rw [hpc]; rfl) rfl rfl rfl, hstate⟩
  | recordRound hpc =>
    rw [State.recordRoundHashes_eq]
    exact ⟨h.congr (by rw [hpc]; rfl) rfl rfl rfl, hstate⟩
  | splice hpc | leaveBatch hpc | powReady hpc | powError hpc | solved hpc | unsolved hpc
  | direct hpc | pool hpc | countSubmission hpc | countAccepted hpc | recordSealed hpc
  | loadSubmitted hpc | loadAccepted hpc | loadRejected hpc | clearJob hpc | keepJob hpc
  | emitCleared hpc | countRejected hpc | nextRequest hpc | readConnection hpc | noConnection hpc
  | reserve hpc | full hpc | write hpc | writeError hpc | countSubmitted hpc | writeFailed hpc
  | addIntervalHashes hpc | addTotalHashes hpc =>
    exact ⟨h.congr (by rw [hpc]; rfl) rfl rfl rfl, hstate⟩

end Worker

theorem Runner.Move.numbered {params : Params} {config : Config} {workers : ℕ} {guards : Guards}
    {s s' : State} {r r' : Runner} {e : SessionEvent}
    (hmove : Move params config workers guards s r e s' r')
    (h : s.Numbered) : s'.Numbered := by
  cases hmove with
  | installGeneration | clearGeneration | dropGeneration => exact h.publish _
  | installRound =>
    rw [State.installRound_eq]
    exact h
  | installCoinbase =>
    rw [State.installCoinbase_eq]
    exact h
  | emitShare =>
    rw [State.emit_eq]
    exact h
  | _ => exact h

namespace System
variable {n : ℕ} {params : Params} {config : Config} {s s' : System n}

structure Numbered (s : System n) : Prop where
  state : s.state.Numbered
  workers : ∀ w, (s.workers w).Numbered

theorem Numbered.init : (System.init n config).Numbered where
  state := rfl
  workers _ := .start _ 0

theorem Numbered.step {a : Action n} (h : s.Numbered) (hstep : s.step params config a = some s') :
    s'.Numbered := by
  cases a with
  | worker w e =>
    obtain ⟨x, hx, rfl⟩ := Option.map_eq_some_iff.1 hstep
    obtain ⟨hworker, hstate⟩ := (Worker.step_moves hx).numbered (h.workers w) h.state
    refine ⟨hstate, fun v => ?_⟩
    by_cases hv : v = w
    · subst hv
      simpa [setWorker] using hworker
    · simpa [setWorker, hv] using h.workers v
  | session e =>
    obtain ⟨x, hx, rfl⟩ := Option.map_eq_some_iff.1 hstep
    exact ⟨(Runner.step_moves hx).numbered h.state, h.workers⟩
  | reporter bits =>
    obtain ⟨x, hx, rfl⟩ := Option.map_eq_some_iff.1 hstep
    refine ⟨?_, h.workers⟩
    rw [Reporter.step_state hx]
    exact h.state

theorem Numbered.reachable (h : s.Reachable params config) : s.Numbered :=
  Runs.Invariant.reachable (fun _ _ _ => Numbered.step) Numbered.init h

/-- Before the generation wraps around, it tells the refreshes apart. -/
theorem Numbered.token (h : s.Numbered) (hlinked : s.Linked)
    (hincrements : s.state.history.increments < 2 ^ 64 - 1) {w : Fin n}
    (hloaded : (s.workers w).pc.loaded = none)
    (hgeneration : (s.workers w).generation = s.state.generation) :
    (s.workers w).refreshed = some s.state.history.increments := by
  have hstate : s.state.generation.toNat = s.state.history.increments := by
    rw [h.state, UInt64.toNat_ofNat']
    omega
  -- a worker that has not refreshed has the largest generation, which is not reached
  cases hrefreshed : (s.workers w).refreshed with
  | none =>
    have hfresh := (h.workers w).fresh hloaded hrefreshed
    rw [hgeneration] at hfresh
    rw [hfresh] at hstate
    have hmax : (0xffffffffffffffff : UInt64).toNat = 2 ^ 64 - 1 := rfl
    omega
  | some c =>
    have hle : c ≤ s.state.history.increments := hlinked.inv.token_le w c hrefreshed
    have hcached := (h.workers w).refreshed c hloaded hrefreshed
    rw [← hcached.symm.trans hgeneration, UInt64.toNat_ofNat'] at hstate
    congr 1
    omega

/-- No writer is between its write to the job slot and its increment of the generation. -/
def Settled (s : System n) : Prop :=
  s.runner.session.pending = none ∧ ∀ w, (s.workers w).pc.pending = none

/-- A worker whose cached generation is the latest holds what is in the slot, unless an increment
is due or the worker has still to read the slot; one that passes the check before it submits holds
no job whose replacement is complete. -/
structure NoStaleWork (params : Params) (config : Config) (s : System n) : Prop where
  current : ∀ w, (s.workers w).generation = s.state.generation → s.Settled →
    (s.workers w).pc.loaded = none → (s.workers w).job = s.state.job
  checked : ∀ w e digest s', (s.workers w).pc = .test digest →
    s.step params config (.worker w e) = some s' → (s'.workers w).pc = .readEndpoint digest →
    ∃ arc, (s'.workers w).job = some arc ∧ arc ∉ s'.state.history.replaced

theorem no_stale_work (h : s.Reachable params config)
    (hincrements : s.state.history.increments < 2 ^ 64 - 1) : s.NoStaleWork params config where
  current w hgeneration hsettled hloaded := by
    -- an equal generation means an equal count, so that nothing was published since the slot read
    have hlinked := Linked.reachable h
    have htoken := (Numbered.reachable h).token hlinked hincrements hloaded hgeneration
    apply hlinked.inv.current w htoken
    intro writer
    cases writer with
    | none => exact hsettled.1
    | some v => exact hsettled.2 v
  checked w e digest s' hpc hstep hpc' := by
    have hlinked := Linked.reachable h
    obtain ⟨x, hx, rfl⟩ := Option.map_eq_some_iff.1 hstep
    simp only [Worker.step, hpc, Option.map_eq_some_iff] at hx
    obtain ⟨arc, harc, rfl⟩ := hx
    unfold Worker.test at hpc' ⊢
    -- the check passes only where the cached generation is still the latest
    split_ifs at hpc' ⊢ with hpass
    · have hloaded : (s.workers w).pc.loaded = none := by rw [hpc]; rfl
      have htoken := (Numbered.reachable h).token hlinked hincrements hloaded hpass.2.symm
      refine ⟨arc, ?_, hlinked.inv.live w arc htoken harc⟩
      simpa [setWorker] using harc
    · simp [setWorker, Worker.advance] at hpc'

theorem no_stale_work_oneShare : ∃ s : System 1,
    System.run plainParams poolConfig (System.init 1 poolConfig) (openPool "a" ++ solveShare 0) =
      some s ∧
    s.state.history.increments = 1 ∧ s.NoStaleWork plainParams poolConfig := by
  have hsome : ((System.run plainParams poolConfig (System.init 1 poolConfig)
      (openPool "a" ++ solveShare 0)).map fun s => s.state.history.increments) = some 1 := by
    decide +kernel
  obtain ⟨s, hrun, hincrements⟩ := Option.map_eq_some_iff.1 hsome
  exact ⟨s, hrun, hincrements, no_stale_work ⟨_, hrun⟩ (by rw [hincrements]; norm_num)⟩

/-- `install_job`, when no other thread takes a step. -/
theorem run_install {role : Role} {arc : ArcJob}
    (hsession : s.runner.session = .installRound role arc)
    (hjob : s.jobLocked = false) :
    System.run params config s (List.replicate 4 (.session .tick)) = some { s with
      state :=
        (((s.state.installRound arc.job).installCoinbase arc.job).installSlot params arc).publish
        s.state.job
      runner := { s.runner with session := Runner.resume role } } := by
  have hguard : ∀ state runner, ({ s with state, runner } : System n).guards.job = false := by
    intro state runner
    exact hjob
  have hslot : ((s.state.installRound arc.job).installCoinbase arc.job).job = s.state.job := by
    rw [State.installCoinbase_eq, State.installRound_eq]
  simp [System.run, Runs.run_cons, System.step, Runner.step, hsession, hguard, List.replicate_succ,
    hslot]

theorem jobPush_parses : ∃ value job, readMessage plainParams.float (jobPush "a") =
    .ok (.job value) ∧ Job.fromStratum value = .ok job ∧ job.algo = .sha256d := by
  have hjob : (((jobPush "a").get "params").bind fun value =>
      (Job.fromStratum value).toOption.map (·.algo)) = some .sha256d := by decide +kernel
  obtain ⟨value, hvalue, hjob⟩ := Option.bind_eq_some_iff.1 hjob
  obtain ⟨job, hparsed, halgo⟩ := Option.map_eq_some_iff.1 hjob
  refine ⟨value, job, ?_, ?_, halgo⟩
  · have hmethod : ((jobPush "a").get "method").bind Value.asStr = some "job" := by decide +kernel
    rw [readMessage, if_pos hmethod, hvalue]
  · cases hresult : Job.fromStratum value with
    | error error => simp [hresult, Except.toOption] at hparsed
    | ok parsed => simpa [hresult, Except.toOption] using hparsed

theorem run_push {s : System n} {c : ℕ} (hsession : s.runner.session = .working (.pool c))
    (hjob : s.jobLocked = false) : ∃ s',
    System.run plainParams poolConfig s
      (arrives (jobPush "a") :: List.replicate 4 (.session .tick)) = some s' ∧
    s'.runner.session = .working (.pool c) ∧ s'.workers = s.workers ∧
    s'.state.history.increments = s.state.history.increments + 1 ∧ s'.state.job ≠ none := by
  obtain ⟨value, job, hread, hparsed, halgo⟩ := jobPush_parses
  have hgate : s.runner.gate.ensureSafe plainParams.gib job.algo (.ok (0, 0)) =
      .ok s.runner.gate := by
    simp [RandomxMemoryGate.ensureSafe, halgo]
  have hadmit : s.step plainParams poolConfig (arrives (jobPush "a")) = some { s with
      state := (s.state.receive job (some c)).2
      runner := ⟨.installRound (.pool c) (s.state.receive job (some c)).1, s.runner.gate⟩ } := by
    simp [System.step, arrives, Runner.step, hsession, Runner.message, hread,
      Runner.admitJob, hparsed,
      hgate]
  refine ⟨_, Runs.run_cons_eq_some.2 ⟨_, hadmit, run_install rfl hjob⟩, rfl, rfl, ?_, ?_⟩
  · rw [State.installSlot, State.emit_eq, State.installCoinbase_eq, State.installRound_eq]
    rfl
  · rw [State.installSlot, State.emit_eq]
    exact Option.some_ne_none _

theorem run_login : ∃ s : System 1,
    System.run plainParams poolConfig (System.init 1 poolConfig) ((openPool "a").take 5) = some s ∧
    s.runner.session = .working (.pool 0) ∧ s.workers = (System.init 1 poolConfig).workers ∧
    s.state.history.increments = 0 := by
  exact ⟨_, rfl, rfl, rfl, rfl⟩

/-- Any number of jobs can be pushed before the worker takes its first step. -/
theorem exists_pushes (k : ℕ) : ∃ s : System 1, s.Reachable plainParams poolConfig ∧
    s.runner.session = .working (.pool 0) ∧ s.workers = (System.init 1 poolConfig).workers ∧
    s.state.history.increments = k ∧ (k ≠ 0 → s.state.job ≠ none) := by
  induction k with
  | zero =>
    obtain ⟨s, hrun, hsession, hworkers, hincrements⟩ := run_login
    exact ⟨s, ⟨_, hrun⟩, hsession, hworkers, hincrements, fun h => absurd rfl h⟩
  | succ k ih =>
    obtain ⟨s, ⟨as, has⟩, hsession, hworkers, hincrements, -⟩ := ih
    have hjob : s.jobLocked = false := by
      simp [jobLocked, hworkers, System.init, Worker.start, Pc.holdsJob]
    obtain ⟨s', hrun, hsession', hworkers', hincrements', hslot⟩ := run_push hsession hjob
    refine ⟨s', ⟨as ++ (arrives (jobPush "a") :: List.replicate 4 (.session .tick)), ?_⟩, hsession',
      hworkers'.trans hworkers, by omega, fun _ => hslot⟩
    rw [Runs.run_append, has]
    exact hrun

/-- The generation the worker has not refreshed yet is the latest after 2^64 - 1 increments. -/
theorem stale_after_wrap : ∃ s : System 1, s.Reachable plainParams poolConfig ∧
    s.state.history.increments = 2 ^ 64 - 1 ∧ (s.workers 0).generation = s.state.generation ∧
    s.Settled ∧ (s.workers 0).job ≠ s.state.job := by
  obtain ⟨s, hreach, hsession, hworkers, hincrements, hslot⟩ := exists_pushes (2 ^ 64 - 1)
  have hgeneration : s.state.generation = 0xffffffffffffffff := by
    rw [(Numbered.reachable hreach).state, hincrements]
    rfl
  refine ⟨s, hreach, hincrements, ?_, ⟨?_, ?_⟩, ?_⟩
  · rw [hworkers, hgeneration]
    rfl
  · rw [hsession]
    rfl
  · intro w
    rw [hworkers]
    rfl
  · rw [hworkers]
    exact (hslot (by norm_num)).symm

/-- A job is installed, and the worker has loaded the generation but not yet read the slot. -/
theorem stale_before_read : ∃ s : System 1, s.Reachable plainParams poolConfig ∧
    s.state.history.increments = 1 ∧ (s.workers 0).generation = s.state.generation ∧
    s.Settled ∧ (s.workers 0).job ≠ s.state.job := by
  obtain ⟨s, ⟨as, has⟩, hsession, hworkers, hincrements, hslot⟩ := exists_pushes 1
  have hgeneration : s.state.generation = 1 := by
    rw [(Numbered.reachable ⟨as, has⟩).state, hincrements]
    rfl
  have hload : s.step plainParams poolConfig (.worker 0 .tick) = some (s.setWorker 0 s.state
      { (s.workers 0) with
        generation := s.state.generation
        preparationAnnounced := false
        pc := .readJob s.state.history.increments }) := by
    simp [System.step, Worker.step, Worker.loadGeneration, hworkers, hgeneration, System.init,
      Worker.start]
  refine ⟨_, Runs.Reachable.tail ⟨as, has⟩ hload, hincrements, ?_, ⟨?_, ?_⟩, ?_⟩
  · simp [setWorker]
  · simp [setWorker, hsession, Session.pending]
  · intro v
    simp [setWorker, Subsingleton.elim v 0, Pc.pending]
  · simpa [setWorker, hworkers, System.init, Worker.start] using (hslot one_ne_zero).symm

/-- Both of the conditions are needed. -/
theorem stale_work_is_cached :
    (∃ s : System 1, s.Reachable plainParams poolConfig ∧
      s.state.history.increments = 2 ^ 64 - 1 ∧ (s.workers 0).generation = s.state.generation ∧
      s.Settled ∧ (s.workers 0).job ≠ s.state.job) ∧
    ∃ s : System 1, s.Reachable plainParams poolConfig ∧
      s.state.history.increments = 1 ∧ (s.workers 0).generation = s.state.generation ∧
      s.Settled ∧ (s.workers 0).job ≠ s.state.job :=
  ⟨stale_after_wrap, stale_before_read⟩

end System
end XusMiner.Engine

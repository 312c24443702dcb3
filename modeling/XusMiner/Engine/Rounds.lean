import XusMiner.Engine.Submissions

namespace XusMiner.Engine
open ByteCodec

/-- What `round_snapshot` reads of the round, less the probability, a double. -/
def State.roundSnapshot (s : State) : Option UInt64 × UInt64 := (s.round.height, s.round.hashes)

/-- The calls that take the lock on the round: a job is installed, or the work a batch did for a
job is recorded. -/
inductive RoundCall
  | install (job : Job)
  | record (job : Job) (completed : UInt64)
  deriving DecidableEq

namespace RoundCall

def apply (s : State) : RoundCall → State
  | .install job => s.installRound job
  | .record job completed => s.recordRoundHashes job completed

def installed : RoundCall → Option Job
  | .install job => some job
  | .record _ _ => none

/-- The work recorded for the jobs `p` admits, block target given. -/
def work (p : Job → Prop) [DecidablePred p] : RoundCall → ℕ
  | .install _ => 0
  | .record job completed => if job.blockTarget.isSome ∧ p job then completed.toNat else 0

end RoundCall

def replay (s : State) (calls : List RoundCall) : State := calls.foldl RoundCall.apply s

/-- The jobs installed, in order. -/
def installs (calls : List RoundCall) : List Job := calls.filterMap RoundCall.installed

def lastHeight (calls : List RoundCall) : Option UInt64 := (installs calls).getLast?.map (·.height)

def recordedWork (p : Job → Prop) [DecidablePred p] (calls : List RoundCall) : ℕ :=
  (calls.map (RoundCall.work p)).sum

/-- `job` is the last one whose height differs from that of the job installed before it; `since`
are the calls after it. -/
structure LastChange (calls before : List RoundCall) (job : Job) (since : List RoundCall) :
    Prop where
  split : calls = before ++ .install job :: since
  changed : lastHeight before ≠ some job.height
  kept : ∀ later ∈ installs since, later.height = job.height

@[simp] theorem replay_nil (s : State) : replay s [] = s := rfl

@[simp] theorem replay_cons (s : State) (call : RoundCall) (calls : List RoundCall) :
    replay s (call :: calls) = replay (call.apply s) calls := rfl

theorem replay_append (s : State) (calls calls' : List RoundCall) :
    replay s (calls ++ calls') = replay (replay s calls) calls' := List.foldl_append

@[simp] theorem installs_nil : installs [] = [] := rfl

@[simp] theorem installs_append (calls calls' : List RoundCall) :
    installs (calls ++ calls') = installs calls ++ installs calls' := List.filterMap_append

@[simp] theorem installs_install (job : Job) (calls : List RoundCall) :
    installs (.install job :: calls) = job :: installs calls := rfl

@[simp] theorem installs_record (job : Job) (completed : UInt64) (calls : List RoundCall) :
    installs (.record job completed :: calls) = installs calls := rfl

@[simp] theorem lastHeight_install (calls : List RoundCall) (job : Job) :
    lastHeight (calls ++ [.install job]) = some job.height := by
  simp [lastHeight]

@[simp] theorem lastHeight_record (calls : List RoundCall) (job : Job) (completed : UInt64) :
    lastHeight (calls ++ [.record job completed]) = lastHeight calls := by
  simp [lastHeight]

theorem lastHeight_eq_none {calls : List RoundCall} :
    lastHeight calls = none ↔ installs calls = [] := by
  rw [lastHeight, Option.map_eq_none_iff, List.getLast?_eq_none_iff]

@[simp] theorem recordedWork_nil (p : Job → Prop) [DecidablePred p] : recordedWork p [] = 0 := rfl

@[simp] theorem recordedWork_cons (p : Job → Prop) [DecidablePred p] (call : RoundCall)
    (calls : List RoundCall) :
    recordedWork p (call :: calls) = call.work p + recordedWork p calls := by
  simp [recordedWork]

theorem saturatingAdd_toNat (a b : UInt64) :
    (saturatingAdd a b).toNat = min (2 ^ 64 - 1) (a.toNat + b.toNat) := by
  unfold saturatingAdd
  have ha := a.toNat_lt
  split_ifs with h
  · rw [UInt64.toNat_add, Nat.mod_eq_of_lt h]
    omega
  · rw [min_eq_left (by omega)]
    rfl

namespace State
variable {s s' : State}

@[simp] theorem installRound_height (s : State) (job : Job) :
    (s.installRound job).round.height = some job.height := by
  rw [installRound_eq]
  by_cases h : s.round.height = some job.height <;> simp [h]

@[simp] theorem recordRoundHashes_height (s : State) (job : Job) (completed : UInt64) :
    (s.recordRoundHashes job completed).round.height = s.round.height := by
  unfold recordRoundHashes
  split_ifs <;> rfl

theorem installRound_of_ne {job : Job} (h : s.round.height ≠ some job.height) :
    (s.installRound job).round = { height := some job.height } := by
  rw [installRound, if_pos h]

theorem installRound_of_eq {job : Job} (h : s.round.height = some job.height) :
    s.installRound job = s := by
  rw [installRound, if_neg (not_not.2 h)]

/-- What a batch adds is the completed count if the job counts for the round, else nothing. -/
theorem recordRoundHashes_hashes {height : UInt64} (h : s.round.height = some height) (job : Job)
    (completed : UInt64) :
    (s.recordRoundHashes job completed).round.hashes.toNat =
      min (2 ^ 64 - 1)
        (s.round.hashes.toNat + (RoundCall.record job completed).work (·.height = height)) := by
  have hs := s.round.hashes.toNat_lt
  by_cases hcounts : job.blockTarget.isSome ∧ job.height = height
  · have hround : job.blockTarget.isSome ∧ s.round.height = some job.height :=
      ⟨hcounts.1, by rw [h, hcounts.2]⟩
    rw [recordRoundHashes, if_pos hround, RoundCall.work, if_pos hcounts]
    exact saturatingAdd_toNat _ _
  · have hround : ¬(job.blockTarget.isSome ∧ s.round.height = some job.height) := by
      rintro ⟨htarget, hheight⟩
      exact hcounts ⟨htarget, Option.some_inj.1 (hheight.symm.trans h)⟩
    rw [recordRoundHashes, if_neg hround, RoundCall.work, if_neg hcounts]
    omega

end State

/-- The height of the round is that of the job installed last. -/
theorem replay_height (jsonEvents : Bool) (calls : List RoundCall) :
    (replay { jsonEvents } calls).round.height = lastHeight calls := by
  induction calls using List.reverseRecOn with
  | nil => rfl
  | append_singleton calls call ih =>
    rw [replay_append]
    cases call with
    | install job => simp [RoundCall.apply]
    | record job completed => simp [RoundCall.apply, ih]

/-- Nothing is recorded before the first job is installed. -/
theorem replay_of_no_install (jsonEvents : Bool) {calls : List RoundCall}
    (h : installs calls = []) :
    (replay { jsonEvents } calls).roundSnapshot = (none, 0) := by
  induction calls using List.reverseRecOn with
  | nil => rfl
  | append_singleton calls call ih =>
    rw [replay_append]
    cases call with
    | install job => simp at h
    | record job completed =>
      have hcalls : (replay { jsonEvents } calls).roundSnapshot = (none, 0) := ih (by simpa using h)
      -- without a height no job is one of the round
      have hheight : (replay { jsonEvents } calls).round.height = none := congrArg Prod.fst hcalls
      rw [replay_cons, replay_nil, RoundCall.apply, State.recordRoundHashes, hheight,
        if_neg (by simp)]
      exact hcalls

/-- The run lemma: while the jobs installed keep the height, the round is not reset and its sum
grows by the work recorded for jobs of that height. -/
theorem replay_kept {height : UInt64} {s : State} (hs : s.round.height = some height)
    {calls : List RoundCall} (hkept : ∀ job ∈ installs calls, job.height = height) :
    (replay s calls).round.height = some height ∧
      (replay s calls).round.hashes.toNat = min (2 ^ 64 - 1)
        (s.round.hashes.toNat + recordedWork (·.height = height) calls) := by
  induction calls generalizing s with
  | nil =>
    have hlt := s.round.hashes.toNat_lt
    refine ⟨hs, ?_⟩
    rw [replay_nil, recordedWork_nil]
    omega
  | cons call calls ih =>
    cases call with
    | install job =>
      -- a refresh at the same height: the round goes on
      have hjob : job.height = height := hkept job (by simp)
      have hsame : s.installRound job = s := State.installRound_of_eq (by rw [hs, hjob])
      rw [replay_cons, RoundCall.apply, hsame, recordedWork_cons, RoundCall.work, zero_add]
      exact ih hs fun later hlater => hkept later (by simp [hlater])
    | record job completed =>
      obtain ⟨hheight, hhashes⟩ := ih (s := s.recordRoundHashes job completed) (by simp [hs]) hkept
      refine ⟨hheight, ?_⟩
      rw [replay_cons, RoundCall.apply, hhashes, State.recordRoundHashes_hashes hs,
        recordedWork_cons]
      omega

namespace LastChange
variable {calls before since : List RoundCall} {job : Job}

theorem lastHeight_eq (h : LastChange calls before job since) :
    lastHeight calls = some job.height := by
  rw [h.split, lastHeight, installs_append, installs_install]
  rcases List.eq_nil_or_concat (installs since) with hnil | ⟨jobs, later, hjobs⟩
  · simp [hnil]
  · have hlater : later.height = job.height := h.kept later (by simp [hjobs])
    have hlast : installs before ++ job :: installs since =
        (installs before ++ job :: jobs) ++ [later] := by simp [hjobs]
    rw [hlast, List.getLast?_concat, Option.map_some, hlater]

/-- A call that keeps the height comes under the same change. -/
theorem snoc (h : LastChange calls before job since) {call : RoundCall}
    (hcall : ∀ later ∈ call.installed, later.height = job.height) :
    LastChange (calls ++ [call]) before job (since ++ [call]) where
  split := by rw [h.split, List.append_assoc, List.cons_append]
  changed := h.changed
  kept later hlater := by
    rw [installs_append, List.mem_append] at hlater
    rcases hlater with hold | hnew
    · exact h.kept later hold
    · obtain ⟨c, hc, hlater⟩ := List.mem_filterMap.1 hnew
      cases List.mem_singleton.1 hc
      exact hcall later hlater

end LastChange

/-- Once a job is installed there is a last change, the first install being one. -/
theorem exists_lastChange {calls : List RoundCall} (h : installs calls ≠ []) :
    ∃ before job since, LastChange calls before job since := by
  induction calls using List.reverseRecOn with
  | nil => exact absurd rfl h
  | append_singleton calls call ih =>
    cases call with
    | record job completed =>
      obtain ⟨before, first, since, hlast⟩ := ih (by simpa using h)
      exact ⟨before, first, since ++ [.record job completed],
        hlast.snoc (by simp [RoundCall.installed])⟩
    | install job =>
      -- the height stays and so does the last change, or this is a change itself
      by_cases hheight : lastHeight calls = some job.height
      · have hne : installs calls ≠ [] := by
          rw [ne_eq, ← lastHeight_eq_none, hheight]
          simp
        obtain ⟨before, first, since, hlast⟩ := ih hne
        have hsame : job.height = first.height :=
          Option.some_inj.1 (hheight.symm.trans hlast.lastHeight_eq)
        exact ⟨before, first, since ++ [.install job],
          hlast.snoc (by simp [RoundCall.installed, hsame])⟩
      · exact ⟨calls, job, [], ⟨rfl, hheight, by simp [installs]⟩⟩

theorem LastChange.snapshot {calls before since : List RoundCall} {job : Job}
    (h : LastChange calls before job since) (jsonEvents : Bool) :
    (replay { jsonEvents } calls).round.height = some job.height ∧
      (replay { jsonEvents } calls).round.hashes.toNat =
        min (2 ^ 64 - 1) (recordedWork (·.height = job.height) since) := by
  have hne : (replay { jsonEvents } before).round.height ≠ some job.height := by
    rw [replay_height]
    exact h.changed
  have hreset := State.installRound_of_ne hne
  rw [h.split, replay_append, replay_cons, RoundCall.apply]
  have hkept := replay_kept (s := (replay { jsonEvents } before).installRound job) (by rw [hreset])
    h.kept
  rw [hreset] at hkept
  simpa using hkept

/-- The round before a call decides the round after it. -/
theorem RoundCall.apply_round_congr {s s' : State} (h : s.round = s'.round) (call : RoundCall) :
    (call.apply s).round = (call.apply s').round := by
  cases call with
  | install job => rw [RoundCall.apply, RoundCall.apply, State.installRound_eq,
      State.installRound_eq, h]
  | record job completed =>
    simp only [RoundCall.apply, State.recordRoundHashes, h]
    split_ifs
    · rfl
    · exact h

theorem replay_round_congr {s s' : State} (h : s.round = s'.round) (calls : List RoundCall) :
    (replay s calls).round = (replay s' calls).round := by
  induction calls generalizing s s' with
  | nil => exact h
  | cons call calls ih => exact ih (call.apply_round_congr h)

/-- The call a worker's next step makes. -/
def Worker.roundCall (wk : Worker) : Option RoundCall :=
  match wk.pc with
  | .recordRound => wk.job.map fun arc => .record arc.job wk.completed
  | _ => none

/-- The call the session thread's next step makes. -/
def Runner.roundCall (r : Runner) : Option RoundCall :=
  match r.session with
  | .installRound _ arc => some (.install arc.job)
  | _ => none

/-- Every other step of a worker leaves the round alone. -/
theorem Worker.Move.round_eq {params : Params} {w : ℕ} {locks : Locks} {s s' : State}
    {wk wk' : Worker} (h : Move params w locks s wk s' wk') :
    s'.round = s.round ∨ wk.pc = .recordRound := by
  cases h with
  | recordRound hpc => exact .inr hpc
  | emitShare =>
    rw [State.emit_eq]
    exact .inl rfl
  | _ => exact .inl rfl

theorem Runner.Move.round_eq {params : Params} {config : Config} {workers : ℕ} {guards : Guards}
    {s s' : State} {r r' : Runner} {e : SessionEvent}
    (h : Move params config workers guards s r e s' r') :
    s'.round = s.round ∨ ∃ role arc, r.session = .installRound role arc := by
  cases h with
  | installRound hpc => exact .inr ⟨_, _, hpc⟩
  | installCoinbase =>
    rw [State.installCoinbase_eq]
    exact .inl rfl
  | emitShare =>
    rw [State.emit_eq]
    exact .inl rfl
  | _ => exact .inl rfl

theorem Worker.step_round {params : Params} {w : ℕ} {locks : Locks} {s : State} {wk : Worker}
    {e : WorkerEvent} {x : State × Worker} (h : wk.step params w locks s e = some x) :
    x.1.round = (replay s wk.roundCall.toList).round := by
  by_cases hpc : wk.pc = .recordRound
  · simp only [Worker.step, hpc] at h
    obtain ⟨arc, harc, rfl⟩ := Option.map_eq_some_iff.1 h
    simp [Worker.roundCall, hpc, harc, RoundCall.apply]
  · have hcall : wk.roundCall = none := by
      unfold Worker.roundCall
      split
      · next hrecord => exact absurd hrecord hpc
      · rfl
    rw [hcall]
    exact (Worker.step_moves h).round_eq.resolve_right hpc

theorem Runner.step_round {params : Params} {config : Config} {workers : ℕ} {guards : Guards}
    {s : State} {r : Runner} {e : SessionEvent} {x : State × Runner}
    (h : r.step params config workers guards s e = some x) :
    x.1.round = (replay s r.roundCall.toList).round := by
  by_cases hpc : ∃ role arc, r.session = .installRound role arc
  · obtain ⟨role, arc, hpc⟩ := hpc
    simp only [Runner.step, hpc] at h
    cases h
    simp [Runner.roundCall, hpc, RoundCall.apply]
  · have hcall : r.roundCall = none := by
      unfold Runner.roundCall
      split
      · next role arc hinstall => exact absurd ⟨role, arc, hinstall⟩ hpc
      · rfl
    rw [hcall]
    exact (Runner.step_moves h).round_eq.resolve_right hpc

namespace System
variable {n : ℕ} {params : Params} {config : Config} {s s' t : System n}

def roundCall (s : System n) : Action n → Option RoundCall
  | .worker w _ => (s.workers w).roundCall
  | .session _ => s.runner.roundCall
  | .reporter _ => none

/-- The calls a run makes, in the order in which its threads get the lock. -/
def roundCalls (params : Params) (config : Config) (s : System n) :
    List (Action n) → List RoundCall
  | [] => []
  | a :: as => (s.roundCall a).toList ++
      ((s.step params config a).map fun s' => roundCalls params config s' as).getD []

theorem step_round {a : Action n} (h : s.step params config a = some s') :
    s'.state.round = (replay s.state (s.roundCall a).toList).round := by
  cases a with
  | worker w e =>
    obtain ⟨x, hx, rfl⟩ := Option.map_eq_some_iff.1 h
    exact Worker.step_round hx
  | session e =>
    obtain ⟨x, hx, rfl⟩ := Option.map_eq_some_iff.1 h
    exact Runner.step_round hx
  | reporter bits =>
    obtain ⟨x, hx, rfl⟩ := Option.map_eq_some_iff.1 h
    rw [Reporter.step_state hx]
    rfl

/-- The round after a run is what its calls make of the round before it. -/
theorem run_round {as : List (Action n)} (h : s.run params config as = some t) :
    t.state.round = (replay s.state (roundCalls params config s as)).round := by
  induction as generalizing s with
  | nil =>
    cases h
    rfl
  | cons a as ih =>
    obtain ⟨s', hstep, hrun⟩ := Runs.run_cons_eq_some.1 h
    rw [ih hrun, roundCalls, hstep, Option.map_some, Option.getD_some, replay_append]
    exact replay_round_congr (step_round hstep) _

end System

/-- What a snapshot says of the calls made so far: without an installed job it is empty; else the
height is that of the last change, which exists, and the hashes are the work recorded since for
jobs of that height, whenever they were installed, up to the largest count. -/
structure RoundWork (calls : List RoundCall) (snapshot : Option UInt64 × UInt64) : Prop where
  idle : installs calls = [] → snapshot = (none, 0)
  begun : installs calls ≠ [] → ∃ before job since, LastChange calls before job since
  counted : ∀ before job since, LastChange calls before job since →
    snapshot.1 = some job.height ∧
      snapshot.2.toNat = min (2 ^ 64 - 1) (recordedWork (·.height = job.height) since)

theorem roundWork_replay (jsonEvents : Bool) (calls : List RoundCall) :
    RoundWork calls (replay { jsonEvents } calls).roundSnapshot where
  idle := replay_of_no_install jsonEvents
  begun := exists_lastChange
  counted _ _ _ h := h.snapshot jsonEvents

/-- The round counts the work for its height: after any calls, and after any run of the engine. -/
theorem round_work_counts_height :
    (∀ (jsonEvents : Bool) (calls : List RoundCall),
      RoundWork calls (replay { jsonEvents } calls).roundSnapshot) ∧
    ∀ (n : ℕ) (params : Params) (config : Config) (as : List (Action n)) (s : System n),
      System.run params config (System.init n config) as = some s →
        RoundWork (System.roundCalls params config (System.init n config) as)
          s.state.roundSnapshot := by
  refine ⟨roundWork_replay, fun n params config as s hrun => ?_⟩
  have hround := System.run_round hrun
  have hsnapshot : s.state.roundSnapshot = (replay (System.init n config).state
      (System.roundCalls params config (System.init n config) as)).roundSnapshot := by
    rw [State.roundSnapshot, hround]
    rfl
  rw [hsnapshot]
  exact roundWork_replay config.jsonEvents _

/-- A job push that names its block target. -/
def blockPush (id : String) (height : UInt64) : Value :=
  .json [("method", .string "job"), ("params", .json [("job_id", .string id),
    ("blob", .string "0000000000000000"), ("nonce_offset", .nat 0), ("nonce_size", .nat 8),
    ("target_full", .string "ffffffffffffffffffffffffffffffffffffffffffffffffffffffffffffffff"),
    ("network_target", .string "0000000000000000000000000000000000000000000000000000000000000000"),
    ("algo", .string "sha256d"), ("seed_hash", .string ""), ("height", .nat height)])]

/-- It arrives and is installed. -/
def installPush {n : ℕ} (id : String) (height : UInt64) : List (Action n) :=
  arrives (blockPush id height) :: List.replicate 4 (.session .tick)

/-- A worker hashes once for a job at height 7 and is overtaken: height 6 comes and height 7 again,
then its batch ends. -/
def lateBatch {n : ℕ} (w : Fin n) : List (Action n) :=
  [.session .tick, .session (.socket (.ok ())), .session (.socket (.ok ())), .session .tick,
    .session (.socket (.ok ()))] ++
  installPush "a" 7 ++
  [.worker w .tick, .worker w .tick, .worker w .tick, .worker w (.sealed false (.ok .sha256d) 0)] ++
  installPush "b" 6 ++ installPush "c" 7 ++ List.replicate 5 (.worker w .tick)

/-- The job it parses to. -/
def blockJob (id : String) (height : UInt64) : Job where
  id := id
  blob := List.replicate 8 0
  nonceOffset := 0
  target := ⟨List.replicate 32 255, rfl⟩
  blockTarget := some zeroTarget
  algo := .sha256d
  powKey := []
  height := height
  timestampMs := none
  coinbase := none
  trailingNonce := rfl

/-- The late batch counts for the round of the last job, under which its own job was never
installed. -/
theorem late_batch_counts : ∃ (s : System 1) (before : List RoundCall) (job : Job)
    (since : List RoundCall),
    System.run plainParams poolConfig (System.init 1 poolConfig) (lateBatch 0) = some s ∧
    LastChange (System.roundCalls plainParams poolConfig (System.init 1 poolConfig) (lateBatch 0))
      before job since ∧
    s.state.roundSnapshot.2.toNat ≠
      min (2 ^ 64 - 1) (recordedWork (· ∈ installs (.install job :: since)) since) := by
  have hcalls : System.roundCalls plainParams poolConfig (System.init 1 poolConfig) (lateBatch 0) =
      [.install (blockJob "a" 7), .install (blockJob "b" 6)] ++
        .install (blockJob "c" 7) :: [.record (blockJob "a" 7) 1] := by decide +kernel
  have hsnapshot : (System.run plainParams poolConfig (System.init 1 poolConfig) (lateBatch 0)).map
      (fun s => s.state.roundSnapshot) = some (some 7, 1) := by decide +kernel
  obtain ⟨s, hrun, hs⟩ := Option.map_eq_some_iff.1 hsnapshot
  refine ⟨s, _, blockJob "c" 7, _, hrun, ⟨hcalls, ?_, ?_⟩, ?_⟩
  · decide
  · simp
  · rw [hs]
    decide

end XusMiner.Engine

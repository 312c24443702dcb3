import XusMiner.Engine.JobSlot

namespace XusMiner.Engine
open ByteCodec

/-- The memory scan that comes with what the session thread is told. -/
def SessionEvent.scan? : SessionEvent → Option (Except String (UInt64 × UInt64))
  | .message _ scan => some scan
  | .template _ _ scan => some scan
  | _ => none

/-- The scan has a reading, and the reading makes sense. -/
def Plausible (scan : Except String (UInt64 × UInt64)) : Prop :=
  ∃ available total, scan = .ok (available, total) ∧ 0 < total ∧ available ≤ total

/-- A scan on which RandomX may start: there is room for the engine and the reserve, or there is
no reading to go by and the operator has confirmed. For the 64 workers the command line allows
nothing saturates in the sum. -/
inductive Approves (workers : UInt64) (forceLight confirmed : Bool)
    (scan : Except String (UInt64 × UInt64)) : Prop
  | reading {available total : UInt64} (hscan : scan = .ok (available, total))
      (htotal : 0 < total) (havailable : available ≤ total)
      (hroom : saturatingAdd (randomxMemoryBytesFor workers forceLight)
        (memoryHeadroomBytes total) ≤ available)
      (hexact : workers ≤ 64 → (randomxMemoryBytesFor workers forceLight).toNat +
        (memoryHeadroomBytes total).toNat ≤ available.toNat)
  | confirmation (hscan : ¬Plausible scan) (hconfirmed : confirmed = true)

variable {gib : UInt64 → String} {workers : UInt64} {forceLight confirmed : Bool}
  {scan : Except String (UInt64 × UInt64)}

/-- Up to 64 workers the sum of the check is exact. -/
theorem room_exact (h : workers ≤ 64) (forceLight : Bool) {available total : UInt64}
    (hroom : saturatingAdd (randomxMemoryBytesFor workers forceLight)
      (memoryHeadroomBytes total) ≤ available) :
    (randomxMemoryBytesFor workers forceLight).toNat + (memoryHeadroomBytes total).toNat ≤
      available.toNat := by
  have hengine := randomxMemoryBytesFor_toNat h forceLight
  have hshared := sharedBytes_le forceLight
  have hworkers : workers.toNat ≤ 64 := UInt64.le_iff_toNat_le.1 h
  have heach : randomxWorkerBytes.toNat * workers.toNat ≤ 33554432 * 64 :=
    Nat.mul_le_mul_left 33554432 hworkers
  have hreserve := memoryHeadroomBytes_le total
  have hmax : maxMemoryHeadroomBytes.toNat = 4294967296 := by decide
  have hsum : (randomxMemoryBytesFor workers forceLight).toNat +
      (memoryHeadroomBytes total).toNat < 2 ^ 64 := by omega
  have hle := UInt64.le_iff_toNat_le.1 hroom
  rwa [saturatingAdd_eq hsum, UInt64.toNat_add, Nat.mod_eq_of_lt hsum] at hle

/-- The counters that `ensure_safe` goes by. -/
theorem approves_of_resolve {available total : UInt64} {preflight : HeadlessMemoryPreflight}
    (hcounters : (match scan with
      | .ok counters => counters
      | .error _ => ((0, 0) : UInt64 × UInt64)) = (available, total))
    (h : resolveHeadlessMemory gib workers forceLight available total confirmed = .ok preflight) :
    Approves workers forceLight confirmed scan := by
  unfold resolveHeadlessMemory at h
  split_ifs at h with hplausible hconfirmed
  · cases scan with
    | error error =>
      cases hcounters
      exact absurd hplausible.1 (by decide)
    | ok counters =>
      unfold validateHeadlessMemory at h
      dsimp only at h
      split_ifs at h with hinconsistent hshort
      have hroom := UInt64.not_lt.mp hshort
      exact .reading (congrArg Except.ok hcounters) hplausible.1 hplausible.2 hroom
        fun hworkers => room_exact hworkers forceLight hroom
  · refine .confirmation ?_ (by simpa using hconfirmed)
    rintro ⟨available', total', rfl, hpositive, hle⟩
    cases hcounters
    exact hplausible ⟨hpositive, hle⟩

namespace RandomxMemoryGate
variable {gate gate' : RandomxMemoryGate} {algo : PowAlgo}

/-- What passes the gate: any other algorithm, what comes after an approval, and the job on
whose scan the gate is approved. -/
theorem ensureSafe_cases (h : gate.ensureSafe gib algo scan = .ok gate') :
    (gate' = gate ∧ (algo = .randomX → gate.approved ≠ none)) ∨
    (gate.approved = none ∧
      Approves gate.workers gate.forceLight gate.unavailableScanConfirmed scan ∧
      ∃ preflight, gate' = { gate with approved := some preflight }) := by
  unfold ensureSafe at h
  by_cases hpass : algo ≠ .randomX ∨ gate.approved.isSome
  · rw [if_pos hpass] at h
    cases h
    refine .inl ⟨rfl, fun halgo hnone => ?_⟩
    rcases hpass with hne | hsome
    · exact hne halgo
    · rw [hnone] at hsome
      cases hsome
  · rw [if_neg hpass] at h
    obtain ⟨preflight, hresolve, rfl⟩ := Except.map_eq_ok h
    obtain ⟨-, hnone⟩ := not_or.mp hpass
    exact .inr ⟨by simpa using hnone, approves_of_resolve rfl hresolve, preflight, rfl⟩

/-- After a RandomX job has passed, the gate is approved. -/
theorem approved_of_ensureSafe (h : gate.ensureSafe gib .randomX scan = .ok gate') :
    gate'.approved ≠ none := by
  rcases ensureSafe_cases h with ⟨rfl, hpass⟩ | ⟨-, -, preflight, rfl⟩
  · exact hpass rfl
  · exact Option.some_ne_none preflight

end RandomxMemoryGate

namespace Runner
variable {params : Params} {config : Config} {workers : ℕ} {guards : Guards} {s s' : State}
  {r r' : Runner} {e : SessionEvent} {x : State × Runner}

/-- What a step does to the jobs that were received and to the gate. -/
def Admits (params : Params) (e : SessionEvent) (s : State) (r : Runner) (s' : State)
    (r' : Runner) : Prop :=
  (s'.history.received = s.history.received ∧ r'.gate = r.gate) ∨
  ∃ arc scan, e.scan? = some scan ∧
    s'.history.received = s.history.received ++ [arc] ∧
    r.gate.ensureSafe params.gib arc.job.algo scan = .ok r'.gate

theorem admits_admitJob {role : Role} {origin : Option ℕ} {job : Except String Job}
    {resume : Job → Role} {scan : Except String (UInt64 × UInt64)} (hscan : e.scan? = some scan) :
    Admits params e s r (r.admitJob params s role origin job resume scan).1
      (r.admitJob params s role origin job resume scan).2 := by
  unfold admitJob
  split
  · exact .inl ⟨rfl, rfl⟩
  · split
    · exact .inl ⟨rfl, rfl⟩
    · next gate hgate => exact .inr ⟨_, scan, hscan, rfl, hgate⟩

theorem admits_message {c : ℕ} (result : Except IoError (Option Value))
    (scan : Except String (UInt64 × UInt64)) :
    Admits params (.message result scan) s r (r.message params s c result scan).1
      (r.message params s c result scan).2 := by
  unfold message
  split
  · exact .inl ⟨rfl, rfl⟩
  · split_ifs
    · exact .inl ⟨rfl, rfl⟩
    · exact .inl ⟨rfl, rfl⟩
  · split
    · exact .inl ⟨rfl, rfl⟩
    · exact .inl ⟨rfl, rfl⟩
    · exact admits_admitJob rfl
    · exact .inl ⟨rfl, rfl⟩

theorem admits_template {d : Direct} {height : UInt64} (expired : Bool)
    (reply : Except IoError Value) (scan : Except String (UInt64 × UInt64)) :
    Admits params (.template expired reply scan) s r
      (r.template params config s d height expired reply scan).1
      (r.template params config s d height expired reply scan).2 := by
  unfold template
  split_ifs
  · split
    · exact .inl ⟨rfl, rfl⟩
    · exact admits_admitJob rfl
  · exact .inl ⟨rfl, rfl⟩

theorem step_admits (h : r.step params config workers guards s e = some x) :
    Admits params e s r x.1 x.2 := by
  by_cases hpool : ∃ c, r.session = .working (.pool c)
  · obtain ⟨c, hpc⟩ := hpool
    simp only [step, hpc] at h
    split at h
    · obtain rfl := Option.some.inj h
      exact admits_message _ _
    · cases h
  by_cases htemplate : ∃ d height, r.session = .template d height
  · obtain ⟨d, height, hpc⟩ := htemplate
    simp only [step, hpc] at h
    split at h
    · obtain rfl := Option.some.inj h
      exact admits_template _ _ _
    · cases h
  -- in no other place is a job received or the gate consulted
  refine .inl ?_
  have hmove := step_moves h
  generalize x.1 = s' at hmove ⊢
  generalize x.2 = r' at hmove ⊢
  cases hmove with
  | poolJob hpc => exact absurd ⟨_, hpc⟩ hpool
  | directJob hpc => exact absurd ⟨_, _, hpc⟩ htemplate
  | installRound => rw [State.installRound_eq]; exact ⟨rfl, rfl⟩
  | installCoinbase => rw [State.installCoinbase_eq]; exact ⟨rfl, rfl⟩
  | emitShare => rw [State.emit_eq]; exact ⟨rfl, rfl⟩
  | _ => exact ⟨rfl, rfl⟩

/-- A job that has been parsed and comes to the memory gate: out of a message of the pool, or out
of a template the node served. -/
inductive Offered (params : Params) (config : Config) (r : Runner) :
    SessionEvent → Job → Except String (UInt64 × UInt64) → Prop
  | pool {c : ℕ} {message value : Value} {job : Job} {scan : Except String (UInt64 × UInt64)}
      (hpc : r.session = .working (.pool c))
      (hmessage : readMessage params.float message = .ok (.job value))
      (hjob : Job.fromStratum value = .ok job) :
      Offered params config r (.message (.ok (some message)) scan) job scan
  | template {d : Direct} {height : UInt64} {expired : Bool} {value : Value} {job : Job}
      {scan : Except String (UInt64 × UInt64)} (hpc : r.session = .template d height)
      (hasked : d.previousId = "" ∨ d.chainHeight ≠ some height ∨ expired = true)
      (hjob : Job.fromRpc params.blake3 value = .ok job)
      (hcoinbase : validateRpcCoinbase (requestedCoinbase config.user) job = .ok ()) :
      Offered params config r (.template expired (.ok value) scan) job scan

/-- A refused job ends the session and touches nothing else. -/
theorem step_refused {job : Job} {scan : Except String (UInt64 × UInt64)} {error : String}
    (h : Offered params config r e job scan)
    (hrefused : r.gate.ensureSafe params.gib job.algo scan = .error error) :
    ∃ role, r.step params config workers guards s e =
      some (s, { r with session := .closing role ⟨.outOfMemory, error⟩ }) := by
  cases h with
  | @pool c message value job scan hpc hmessage hjob =>
    refine ⟨.pool c, ?_⟩
    simp only [step, hpc, Runner.message, hmessage, admitJob, hjob, hrefused]
  | @template d height expired value job scan hpc hasked hjob hcoinbase =>
    refine ⟨.direct d, ?_⟩
    simp only [step, hpc, Runner.template, if_pos hasked]
    have hparsed : (do
        let job ← Job.fromRpc params.blake3 value
        validateRpcCoinbase (requestedCoinbase config.user) job
        return job : Except String Job) = .ok job := by
      rw [hjob]
      show (validateRpcCoinbase (requestedCoinbase config.user) job >>= fun _ => pure job) = _
      rw [hcoinbase]
      rfl
    rw [hparsed]
    simp only [admitJob, hrefused]

end Runner

namespace System
variable {n : ℕ} {params : Params} {config : Config} {s s' : System n} {a : Action n}

/-- The gate changes in one way only: it is approved on a scan. -/
theorem step_gate (hstep : s.step params config a = some s') :
    s'.runner.gate = s.runner.gate ∨
    ∃ e scan preflight, a = .session e ∧ e.scan? = some scan ∧ s.runner.gate.approved = none ∧
      Approves s.runner.gate.workers s.runner.gate.forceLight
        s.runner.gate.unavailableScanConfirmed scan ∧
      s'.runner.gate = { s.runner.gate with approved := some preflight } := by
  cases a with
  | worker w e =>
    obtain ⟨x, hx, rfl⟩ := Option.map_eq_some_iff.1 hstep
    exact .inl rfl
  | session e =>
    obtain ⟨x, hx, rfl⟩ := Option.map_eq_some_iff.1 hstep
    rcases Runner.step_admits hx with ⟨-, hgate⟩ | ⟨arc, scan, hscan, -, hgate⟩
    · exact .inl hgate
    · rcases RandomxMemoryGate.ensureSafe_cases hgate with
        ⟨hsame, -⟩ | ⟨hnone, happroves, preflight, hp⟩
      · exact .inl hsame
      · exact .inr ⟨e, scan, preflight, rfl, hscan, hnone, happroves, hp⟩
  | reporter bits =>
    obtain ⟨x, hx, rfl⟩ := Option.map_eq_some_iff.1 hstep
    exact .inl rfl

/-- An approval is for good. -/
theorem gate_of_approved (hstep : s.step params config a = some s')
    (h : s.runner.gate.approved ≠ none) : s'.runner.gate = s.runner.gate := by
  rcases step_gate hstep with hsame | ⟨-, -, -, -, -, hnone, -⟩
  · exact hsame
  · exact absurd hnone h

/-- A step receives at most one job, and only past the gate. -/
theorem step_received (hstep : s.step params config a = some s') {arc : ArcJob}
    (harc : arc ∈ s'.state.history.received) :
    arc ∈ s.state.history.received ∨
      (arc.job.algo = .randomX → s'.runner.gate.approved ≠ none) := by
  cases a with
  | worker w e =>
    obtain ⟨x, hx, rfl⟩ := Option.map_eq_some_iff.1 hstep
    have hreceived : x.1.history.received = s.state.history.received :=
      (Worker.step_moves hx).received
    exact .inl (hreceived ▸ harc)
  | session e =>
    obtain ⟨x, hx, rfl⟩ := Option.map_eq_some_iff.1 hstep
    rcases Runner.step_admits hx with ⟨hreceived, -⟩ | ⟨arc', scan, -, hreceived, hgate⟩
    · exact .inl (hreceived ▸ harc)
    · rcases List.mem_append.1 (hreceived ▸ harc) with hold | hnew
      · exact .inl hold
      · obtain rfl := List.mem_singleton.1 hnew
        refine .inr fun halgo => ?_
        rw [halgo] at hgate
        exact RandomxMemoryGate.approved_of_ensureSafe hgate
  | reporter bits =>
    obtain ⟨x, hx, rfl⟩ := Option.map_eq_some_iff.1 hstep
    have hhistory : x.1.history = s.state.history := by rw [Reporter.step_state hx]
    exact .inl (hhistory ▸ harc)

/-- The gate keeps the settings of the run, and no RandomX job was received before it was
approved. -/
structure Gated (config : Config) (s : System n) : Prop where
  workers : s.runner.gate.workers = UInt64.ofNat n
  forceLight : s.runner.gate.forceLight = config.randomxLight
  confirmed : s.runner.gate.unavailableScanConfirmed = config.unavailableScanConfirmed
  received : ∀ arc ∈ s.state.history.received, arc.job.algo = .randomX →
    s.runner.gate.approved ≠ none

namespace Gated

theorem init : (System.init n config).Gated config where
  workers := rfl
  forceLight := rfl
  confirmed := rfl
  received _ h := nomatch h

theorem step (h : s.Gated config) (hstep : s.step params config a = some s') :
    s'.Gated config := by
  have hreceived : ∀ arc ∈ s'.state.history.received, arc.job.algo = .randomX →
      s'.runner.gate.approved ≠ none := by
    intro arc harc halgo
    rcases step_received hstep harc with hold | hnew
    · have happroved := h.received arc hold halgo
      rwa [gate_of_approved hstep happroved]
    · exact hnew halgo
  rcases step_gate hstep with hgate | ⟨-, -, preflight, -, -, -, -, hgate⟩
  · exact ⟨hgate ▸ h.workers, hgate ▸ h.forceLight, hgate ▸ h.confirmed, hreceived⟩
  · exact ⟨hgate ▸ h.workers, hgate ▸ h.forceLight, hgate ▸ h.confirmed, hreceived⟩

theorem reachable (h : s.Reachable params config) : s.Gated config :=
  Runs.Invariant.reachable (fun _ _ _ => Gated.step) Gated.init h

/-- A job in the slot or with a worker was received. -/
theorem approved (h : s.Gated config) (hlinked : s.Linked) {arc : ArcJob}
    (halgo : arc.job.algo = .randomX)
    (hheld : s.state.job = some arc ∨ ∃ w, (s.workers w).job = some arc) :
    s.runner.gate.approved ≠ none := by
  rcases hheld with hslot | ⟨w, hw⟩
  · exact h.received arc (hlinked.inv.slot_used arc hslot).1 halgo
  · exact h.received arc (hlinked.held hw) halgo

end Gated

/-- The approval of the gate was given in one of the steps before: the session thread came with
a scan on which RandomX may start. -/
def ApprovedByScan (params : Params) (config : Config) (s : System n) : Prop :=
  ∃ t t' : System n, ∃ e scan, t.Reachable params config ∧
    t.step params config (.session e) = some t' ∧
    e.scan? = some scan ∧
    Approves (UInt64.ofNat n) config.randomxLight config.unavailableScanConfirmed scan ∧
    t.runner.gate.approved = none ∧ t'.runner.gate = s.runner.gate ∧
    Runs.Reachable (step params config) t' s

theorem gate_of_reachable (h : Runs.Reachable (step params config) s s')
    (happroved : s.runner.gate.approved ≠ none) : s'.runner.gate = s.runner.gate := by
  refine Runs.Invariant.reachable (I := fun t => t.runner.gate = s.runner.gate) ?_ rfl h
  intro t a t' ht hstep
  rw [gate_of_approved hstep (ht ▸ happroved), ht]

theorem approvedByScan (h : s.Reachable params config)
    (happroved : s.runner.gate.approved ≠ none) : s.ApprovedByScan params config := by
  obtain ⟨t, a, t', ht, hstep, hbefore, hafter, hs⟩ :=
    Runs.Reachable.exists_turn (P := fun t => t.runner.gate.approved ≠ none) h
      (fun hinit => hinit rfl) happroved
  have hnone : t.runner.gate.approved = none := not_not.1 hbefore
  rcases step_gate hstep with hsame | ⟨e, scan, -, rfl, hscan, -, happroves, -⟩
  · exact absurd (hsame ▸ hnone) hafter
  · have hgated := Gated.reachable ht
    rw [hgated.workers, hgated.forceLight, hgated.confirmed] at happroves
    exact ⟨t, t', e, scan, ht, hstep, hscan, happroves, hnone,
      (gate_of_reachable hs hafter).symm, hs⟩

theorem step_refused {e : SessionEvent} {job : Job} {scan : Except String (UInt64 × UInt64)}
    {error : String} (h : Runner.Offered params config s.runner e job scan)
    (hrefused : s.runner.gate.ensureSafe params.gib job.algo scan = .error error) :
    ∃ s', s.step params config (.session e) = some s' ∧ s'.state = s.state ∧
      s'.runner.gate = s.runner.gate ∧ s'.workers = s.workers := by
  obtain ⟨role, hstep⟩ := Runner.step_refused h hrefused
  refine ⟨{ s with runner :=
    { s.runner with session := .closing role ⟨.outOfMemory, error⟩ } }, ?_, rfl, rfl, rfl⟩
  rw [System.step, hstep]
  rfl

/-- RandomX work is gated on the approval of the machine's memory. -/
theorem randomx_work_is_gated (h : s.Reachable params config) :
    (∀ arc : ArcJob, arc.job.algo = .randomX →
      (s.state.job = some arc ∨ ∃ w, (s.workers w).job = some arc) →
      s.runner.gate.approved ≠ none) ∧
    (s.runner.gate.approved ≠ none → s.ApprovedByScan params config) ∧
    ∀ e job scan error, Runner.Offered params config s.runner e job scan →
      s.runner.gate.ensureSafe params.gib job.algo scan = .error error →
      ∃ s', s.step params config (.session e) = some s' ∧ s'.state = s.state ∧
        s'.runner.gate = s.runner.gate ∧ s'.workers = s.workers := by
  refine ⟨?_, approvedByScan h, ?_⟩
  · intro arc halgo hheld
    exact (Gated.reachable h).approved (Linked.reachable h) halgo hheld
  · intro e job scan error hoffered hrefused
    exact step_refused hoffered hrefused

end System

/-- A push of a RandomX job, with the scan the gate is consulted on. -/
def randomxPush {n : ℕ} (scan : Except String (UInt64 × UInt64)) : Action n :=
  .session (.message (.ok (some (.json [("method", .string "job"), ("params", .json [
    ("job_id", .string "r"), ("blob", .string "0000000000000000"), ("nonce_offset", .nat 0),
    ("nonce_size", .nat 8), ("target_full", .string
      "ffffffffffffffffffffffffffffffffffffffffffffffffffffffffffffffff"),
    ("algo", .string "rx/0"), ("seed_hash", .string "00"), ("height", .nat 7)])]))) scan)

/-- A pool session whose first job is a RandomX one, and the worker takes it up. -/
def openRandomx {n : ℕ} (scan : Except String (UInt64 × UInt64)) (w : Fin n) :
    List (Action n) :=
  [.session .tick, .session (.socket (.ok ())), .session (.socket (.ok ())), .session .tick,
    .session (.socket (.ok ())), randomxPush scan, .session .tick, .session .tick, .session .tick,
    .session .tick, .worker w .tick, .worker w .tick, .worker w .tick]

theorem System.randomx_work_is_gated_oneWorker : ∃ s : System 1,
    System.run plainParams poolConfig (System.init 1 poolConfig)
      (openRandomx (.ok (8000000000, 16000000000)) 0) = some s ∧
    (s.workers 0).job.map (·.job.algo) = some .randomX ∧ s.runner.gate.approved ≠ none ∧
    s.ApprovedByScan plainParams poolConfig := by
  have hsome : ((System.run plainParams poolConfig (System.init 1 poolConfig)
      (openRandomx (.ok (8000000000, 16000000000)) 0)).map
        fun s => (s.workers 0).job.map (·.job.algo)) = some (some .randomX) := by decide +kernel
  obtain ⟨s, hrun, halgo⟩ := Option.map_eq_some_iff.1 hsome
  obtain ⟨arc, harc, hrandomX⟩ := Option.map_eq_some_iff.1 halgo
  obtain ⟨hgated, hscan, -⟩ := System.randomx_work_is_gated ⟨_, hrun⟩
  have happroved := hgated arc hrandomX (.inr ⟨0, harc⟩)
  exact ⟨s, hrun, halgo, happroved, hscan happroved⟩

end XusMiner.Engine

import XusMiner.Engine.SessionMoves

namespace XusMiner.Engine
open ByteCodec

/-- A nonce that solves a job. -/
structure Solves (params : Params) (job : Job) (nonce : UInt64) (digest : Bytes32) : Prop where
  evaluated : digest = params.pow job.algo job.powKey (job.spliced nonce)
  meets : digest.val ≤ job.target.val

/-- A written submit is for a job its worker held, and carries a nonce that solves it. -/
def Sent.Genuine (params : Params) (sent : Sent) : Prop :=
  ∃ nonce digest, Solves params sent.held.job nonce digest ∧
    sent.message = submitMessage sent.id sent.held.job.id (nonceWire nonce) (Hex.encode digest.val)

/-- A submission whose reply accepted the very block that was sealed. -/
structure Submission.Accepted (params : Params) (submission : Submission) : Prop where
  solves : ∃ digest, Solves params submission.held.job submission.nonce digest
  reply : ∃ result, submission.reply = .ok result ∧ result.get "accepted" = some (.bool true) ∧
    result.get "height" = some (.nat submission.held.job.height) ∧
    result.get "hash" = some (.string
      (templateIdForBlob params.blake3 (submission.held.job.spliced submission.nonce)))

theorem get_params_submitMessage (requestId : UInt64) (jobId nonce result : String) :
    (submitMessage requestId jobId nonce result).get "params" = some (.json
      [("job_id", .string jobId), ("nonce", .string nonce), ("result", .string result)]) := by
  simp [submitMessage, Value.get_json]

theorem accepted_of_validateRpcSubmission {blake3 : Bytes → Bytes32} {result : Value} {job : Job}
    {blob : Bytes} {u : PUnit} (h : validateRpcSubmission blake3 result job blob = .ok u) :
    result.get "accepted" = some (.bool true) ∧ result.get "height" = some (.nat job.height) ∧
      result.get "hash" = some (.string (templateIdForBlob blake3 blob)) := by
  unfold validateRpcSubmission at h
  split at h
  · next haccepted =>
    obtain ⟨height, hheight, h⟩ := Except.bind_eq_ok h
    obtain ⟨_, hsame, h⟩ := Except.bind_eq_ok h
    obtain ⟨hash, hhash, h⟩ := Except.bind_eq_ok h
    have hnumber := Option.okOr_eq_ok hheight
    have htext := Option.okOr_eq_ok hhash
    rw [Except.ensure_eq_ok hsame] at hnumber
    rw [Except.ensure_eq_ok h] at htext
    rw [Option.bind_eq_some_iff] at haccepted hnumber htext
    exact ⟨by simpa using haccepted, by simpa using hnumber, by simpa using htext⟩
  · cases h
  · cases h

namespace Worker

/-- The blob is the job's, but for the nonce of the last evaluation. -/
structure BlobOf (wk : Worker) (job : Job) : Prop where
  length : wk.blob.length = job.blob.length
  splice : ∀ nonce : UInt64,
    ByteCodec.splice wk.blob job.nonceOffset (leBytes 8 nonce.toNat) = job.spliced nonce

/-- What a worker knows of the nonce it is at, by where it stands. -/
def Phase (params : Params) (history : History) (wk : Worker) (arc : ArcJob) : Pc → Prop
  | .sealBlob => wk.blob = arc.job.spliced wk.nonce
  | .test digest => wk.blob = arc.job.spliced wk.nonce ∧
      digest = params.pow arc.job.algo arc.job.powKey wk.blob
  | .readEndpoint digest | .nextRequest digest =>
      wk.blob = arc.job.spliced wk.nonce ∧ Solves params arc.job wk.nonce digest
  | .countSubmission | .submitBlock =>
      wk.blob = arc.job.spliced wk.nonce ∧ ∃ digest, Solves params arc.job wk.nonce digest
  | .countAccepted | .recordSealed =>
      wk.blob = arc.job.spliced wk.nonce ∧
        ∃ submission ∈ history.submissions, submission.held = arc ∧
          submission.nonce = wk.nonce ∧ submission.Accepted params
  | .readConnection id message | .reserve _ id message | .write _ id message =>
      ∃ digest, Solves params arc.job wk.nonce digest ∧
        message = submitMessage id arc.job.id (nonceWire wk.nonce) (Hex.encode digest.val)
  | _ => True

structure Sound (params : Params) (history : History) (wk : Worker) : Prop where
  blob : ∀ arc, wk.job = some arc → wk.BlobOf arc.job
  phase : ∀ arc, wk.job = some arc → wk.Phase params history arc wk.pc

variable {params : Params} {history history' : History} {w : ℕ} {locks : Locks} {s s' : State}
  {wk wk' : Worker} {arc : ArcJob}

theorem BlobOf.refl {wk : Worker} {job : Job} (h : wk.blob = job.blob) : wk.BlobOf job where
  length := by rw [h]
  splice nonce := by rw [h, Job.spliced]

theorem BlobOf.congr {job : Job} (h : wk.BlobOf job) (hblob : wk'.blob = wk.blob) :
    wk'.BlobOf job where
  length := by rw [hblob, h.length]
  splice nonce := by rw [hblob, h.splice]

/-- The next nonce hides the last one. -/
theorem BlobOf.batch {job : Job} (h : wk.BlobOf job) :
    ({ wk with blob := ByteCodec.splice wk.blob job.nonceOffset (leBytes 8 wk.nonce.toNat) } :
      Worker).BlobOf job where
  length := by
    rw [h.splice, Job.length_spliced]
  splice nonce := by
    rw [h.splice, Job.spliced, Job.spliced, splice_splice (by simp) (by simp [job.trailingNonce])]

theorem Phase.mono {pc : Pc} (h : wk.Phase params history arc pc)
    (hsubmissions : history.submissions ⊆ history'.submissions) :
    wk.Phase params history' arc pc := by
  cases pc with
  | countAccepted | recordSealed =>
    obtain ⟨hblob, submission, hmem, hsubmission⟩ := h
    exact ⟨hblob, submission, hsubmissions hmem, hsubmission⟩
  | _ => exact h

namespace Sound

theorem phaseAt (h : Sound params history wk) (harc : wk.job = some arc) {pc : Pc}
    (hpc : wk.pc = pc) : wk.Phase params history arc pc :=
  hpc ▸ h.phase arc harc

theorem move (h : Sound params history wk) {pc : Pc}
    (hphase : ∀ arc, wk.job = some arc → wk.Phase params history' arc pc) :
    Sound params history' { wk with pc } :=
  ⟨fun arc harc => (h.blob arc harc).congr rfl, hphase⟩

theorem carry (h : Sound params history wk) {pc pc' : Pc} (hpc : wk.pc = pc)
    (hcarry : ∀ arc, wk.Phase params history arc pc → wk.Phase params history' arc pc') :
    Sound params history' { wk with pc := pc' } :=
  h.move fun arc harc => hcarry arc (h.phaseAt harc hpc)

theorem advance (h : Sound params history wk) : Sound params history' wk.advance :=
  ⟨fun arc harc => (h.blob arc harc).congr rfl, fun _ _ => trivial⟩

theorem enterBatch (h : ∀ arc, wk.job = some arc → wk.BlobOf arc.job) :
    Sound params history' wk.enterBatch := by
  unfold Worker.enterBatch
  split
  · exact ⟨fun arc harc => (h arc harc).congr rfl, fun _ _ => trivial⟩
  · exact ⟨fun arc harc => (h arc harc).congr rfl, fun _ _ => trivial⟩

theorem readJob (increments : ℕ) : Sound params history' (wk.readJob w s increments) := by
  unfold Worker.readJob
  cases hjob : s.job with
  | none =>
    apply enterBatch
    intro arc harc
    cases harc
  | some arc =>
    apply enterBatch
    intro arc' harc
    cases harc
    exact BlobOf.refl rfl

theorem splice (h : Sound params history wk) (harc : wk.job = some arc) :
    Sound params history' { wk with
      blob := ByteCodec.splice wk.blob arc.job.nonceOffset (leBytes 8 wk.nonce.toNat)
      pc := .sealBlob } where
  blob arc' harc' := by
    cases harc.symm.trans harc'
    exact (h.blob arc harc).batch.congr rfl
  phase arc' harc' := by
    cases harc.symm.trans harc'
    exact (h.blob arc harc).splice wk.nonce

theorem start (restarts : UInt64) : Sound params history' (Worker.start w restarts) where
  blob _ harc := nomatch harc
  phase _ harc := nomatch harc

theorem submitBlock (h : Sound params s.history wk) (harc : wk.job = some arc)
    (hpc : wk.pc = .submitBlock) (reply : Except String Value) :
    Sound params (wk.submitBlock params w s arc reply).1.history
      (wk.submitBlock params w s arc reply).2 := by
  obtain ⟨hblob, hsolves⟩ := h.phaseAt harc hpc
  unfold Worker.submitBlock
  cases hvalid : reply.bind fun result =>
      validateRpcSubmission params.blake3 result arc.job wk.blob with
  | error error => exact h.move fun _ _ => trivial
  | ok u =>
    apply h.move
    intro arc' harc'
    cases harc.symm.trans harc'
    refine ⟨hblob, _, List.mem_append_right _ (List.mem_singleton_self _), rfl, rfl, hsolves, ?_⟩
    obtain ⟨result, hreply, hvalid⟩ := Except.bind_eq_ok hvalid
    rw [hblob] at hvalid
    exact ⟨result, hreply, accepted_of_validateRpcSubmission hvalid⟩

theorem mono (h : Sound params history wk)
    (hsubmissions : history.submissions ⊆ history'.submissions) : Sound params history' wk where
  blob := h.blob
  phase arc harc := (h.phase arc harc).mono hsubmissions

end Sound

end Worker

/-- An entry of the sealed blocks is that of an accepted submission. -/
def SealedEntry (params : Params) (history : History) (entry : ℕ × String) : Prop :=
  ∃ submission ∈ history.submissions, submission.Accepted params ∧
    entry = (submission.held.job.height.toNat,
      templateIdForBlob params.blake3 (submission.held.job.spliced submission.nonce))

/-- What is new in the logs after a step is as it should be. -/
structure Logged (params : Params) (s s' : State) : Prop where
  submissions : s.history.submissions ⊆ s'.history.submissions
  sent : ∀ sent ∈ s'.history.sent, sent ∈ s.history.sent ∨ sent.Genuine params
  sealed : ∀ entry ∈ s'.sealedBlocks.entries,
    entry ∈ s.sealedBlocks.entries ∨ SealedEntry params s'.history entry

namespace Logged
variable {params : Params} {s s' : State}

theorem of_eq (hhistory : s'.history = s.history) (hsealed : s'.sealedBlocks = s.sealedBlocks) :
    Logged params s s' where
  submissions := by rw [hhistory]; exact List.Subset.refl _
  sent _ h := .inl (by rwa [hhistory] at h)
  sealed _ h := .inl (by rwa [hsealed] at h)

end Logged

namespace Worker
variable {params : Params} {w : ℕ} {locks : Locks} {s : State} {wk : Worker} {arc : ArcJob}
  {r : State × Worker}

/-- A step of a worker keeps what is known of it, and logs only what is due. -/
theorem Move.sound {s' : State} {wk' : Worker} (hmove : Move params w locks s wk s' wk')
    (h : Sound params s.history wk) : Sound params s'.history wk' ∧ Logged params s s' := by
  cases hmove with
  | loadGeneration =>
    exact ⟨⟨fun arc harc => (h.blob arc harc).congr rfl, fun _ _ => trivial⟩, .of_eq rfl rfl⟩
  | current => exact ⟨.enterBatch h.blob, .of_eq rfl rfl⟩
  | readJob => exact ⟨.readJob _, .of_eq rfl rfl⟩
  | splice _ harc => exact ⟨h.splice harc, .of_eq rfl rfl⟩
  | leaveBatch => exact ⟨h.move fun _ _ => trivial, .of_eq rfl rfl⟩
  | powReady hpc harc =>
    refine ⟨⟨fun arc harc => (h.blob arc harc).congr rfl, ?_⟩, .of_eq rfl rfl⟩
    intro arc' harc'
    cases harc.symm.trans harc'
    exact ⟨h.phaseAt harc hpc, rfl⟩
  | powError =>
    exact ⟨⟨fun arc harc => (h.blob arc harc).congr rfl, fun _ _ => trivial⟩, .of_eq rfl rfl⟩
  | panic => exact ⟨.start _, .of_eq rfl rfl⟩
  | solved hpc harc hmeets =>
    obtain ⟨hblob, hdigest⟩ := h.phaseAt harc hpc
    refine ⟨h.move fun arc' harc' => ?_, .of_eq rfl rfl⟩
    cases harc.symm.trans harc'
    exact ⟨hblob, by rw [hdigest, hblob], hmeets⟩
  | unsolved => exact ⟨h.advance, .of_eq rfl rfl⟩
  | direct hpc => exact ⟨h.carry hpc fun _ hphase => ⟨hphase.1, _, hphase.2⟩, .of_eq rfl rfl⟩
  | pool hpc => exact ⟨h.carry hpc fun _ hphase => hphase, .of_eq rfl rfl⟩
  | countSubmission hpc => exact ⟨h.carry hpc fun _ hphase => hphase, .of_eq rfl rfl⟩
  | submitBlock reply hpc harc =>
    refine ⟨h.submitBlock harc hpc reply, ?_, fun _ h => .inl h, fun _ h => .inl h⟩
    exact List.subset_append_left _ _
  | countAccepted hpc => exact ⟨h.carry hpc fun _ hphase => hphase, .of_eq rfl rfl⟩
  | recordSealed hpc harc =>
    refine ⟨h.move fun _ _ => trivial, List.Subset.refl _, fun _ h => .inl h, ?_⟩
    intro entry hentry
    obtain ⟨hblob, submission, hmem, hheld, hnonce, haccepted⟩ := h.phaseAt harc hpc
    -- the list is capped from the front, so the entry is an old one or the one just made
    rcases List.mem_append.1 (List.mem_of_mem_drop hentry) with hold | hnew
    · exact .inl hold
    · refine .inr ⟨submission, hmem, haccepted, ?_⟩
      rw [hheld, hnonce, ← hblob]
      exact List.mem_singleton.1 hnew
  | loadSubmitted | loadAccepted | loadRejected | writeError | addIntervalHashes
  | addTotalHashes => exact ⟨h.move fun _ _ => trivial, .of_eq rfl rfl⟩
  | emitShare =>
    rw [State.emit_eq]
    exact ⟨h.move fun _ _ => trivial, .of_eq rfl rfl⟩
  | clearJob => exact ⟨h.move fun _ _ => trivial, .of_eq rfl rfl⟩
  | keepJob => exact ⟨h.advance, .of_eq rfl rfl⟩
  | clearGeneration =>
    exact ⟨h.move fun _ _ => trivial, List.Subset.refl _, fun _ h => .inl h, fun _ h => .inl h⟩
  | emitCleared | countRejected | noConnection | full | writeFailed =>
    exact ⟨h.advance, .of_eq rfl rfl⟩
  | nextRequest hpc harc =>
    refine ⟨h.move fun arc' harc' => ?_, .of_eq rfl rfl⟩
    cases harc.symm.trans harc'
    exact ⟨_, (h.phaseAt harc hpc).2, rfl⟩
  | readConnection hpc => exact ⟨h.carry hpc fun _ hphase => hphase, .of_eq rfl rfl⟩
  | reserve hpc => exact ⟨h.carry hpc fun _ hphase => hphase, .of_eq rfl rfl⟩
  | write hpc harc =>
    refine ⟨h.move fun _ _ => trivial, List.Subset.refl _, ?_, fun _ h => .inl h⟩
    intro sent hsent
    obtain ⟨digest, hsolves, hmessage⟩ := h.phaseAt harc hpc
    rcases List.mem_append.1 hsent with hold | hnew
    · exact .inl hold
    · cases List.mem_singleton.1 hnew
      exact .inr ⟨wk.nonce, digest, hsolves, hmessage⟩
  | countSubmitted =>
    exact ⟨h.advance, List.Subset.refl _, fun _ h => .inl h, fun _ h => .inl h⟩
  | recordRound =>
    rw [State.recordRoundHashes_eq]
    exact ⟨h.move fun _ _ => trivial, .of_eq rfl rfl⟩

end Worker

theorem SealedEntry.mono {params : Params} {history history' : History} {entry : ℕ × String}
    (h : SealedEntry params history entry)
    (hsubmissions : history.submissions ⊆ history'.submissions) :
    SealedEntry params history' entry := by
  obtain ⟨submission, hmem, hsubmission⟩ := h
  exact ⟨submission, hsubmissions hmem, hsubmission⟩

/-- The session thread writes no submit and seals no block. -/
theorem Runner.Move.logs_eq {params : Params} {config : Config} {workers : ℕ} {guards : Guards}
    {s s' : State} {r r' : Runner} {e : SessionEvent}
    (h : Move params config workers guards s r e s' r') :
    s'.sealedBlocks = s.sealedBlocks ∧ s'.history.sent = s.history.sent ∧
      s'.history.submissions = s.history.submissions := by
  cases h with
  | installRound =>
    rw [State.installRound_eq]
    exact ⟨rfl, rfl, rfl⟩
  | installCoinbase =>
    rw [State.installCoinbase_eq]
    exact ⟨rfl, rfl, rfl⟩
  | emitShare =>
    rw [State.emit_eq]
    exact ⟨rfl, rfl, rfl⟩
  | _ => exact ⟨rfl, rfl, rfl⟩

theorem Runner.Move.logged {params : Params} {config : Config} {workers : ℕ} {guards : Guards}
    {s s' : State} {r r' : Runner} {e : SessionEvent}
    (h : Move params config workers guards s r e s' r') : Logged params s s' := by
  obtain ⟨hsealed, hsent, hsubmissions⟩ := h.logs_eq
  exact ⟨by rw [hsubmissions]; exact List.Subset.refl _, fun _ h => .inl (by rwa [hsent] at h),
    fun _ h => .inl (by rwa [hsealed] at h)⟩

/-- The reporter writes an event and resets the interval. -/
theorem Reporter.step_state {s : State} {r : Reporter} {locked : Bool} {bits : UInt64}
    {x : State × Reporter} (h : r.step s locked bits = some x) :
    x.1 = { s with intervalHashes := x.1.intervalHashes, stdout := x.1.stdout } := by
  unfold Reporter.step at h
  cases hr : r.reporting with
  | height =>
    simp only [hr] at h
    split_ifs at h
    cases h
    rfl
  | emit =>
    simp only [hr, State.emit_eq] at h
    cases h
    rfl
  | _ =>
    simp only [hr] at h
    cases h
    rfl

/-- What is known of the workers and of the logs between any two steps. -/
structure System.Genuine {n : ℕ} (params : Params) (s : System n) : Prop where
  workers : ∀ w, (s.workers w).Sound params s.state.history
  sent : ∀ sent ∈ s.state.history.sent, sent.Genuine params
  sealed : ∀ entry ∈ s.state.sealedBlocks.entries, SealedEntry params s.state.history entry

namespace System
variable {n : ℕ} {params : Params} {config : Config} {s s' : System n}

theorem Genuine.init : (System.init n config).Genuine params where
  workers _ := .start 0
  sent _ h := nomatch h
  sealed _ h := nomatch h

theorem Genuine.logs (h : s.Genuine params) (hlogged : Logged params s.state s'.state)
    (hworkers : ∀ w, (s'.workers w).Sound params s'.state.history) : s'.Genuine params where
  workers := hworkers
  sent sent hsent := by
    rcases hlogged.sent sent hsent with hold | hnew
    · exact h.sent sent hold
    · exact hnew
  sealed entry hentry := by
    rcases hlogged.sealed entry hentry with hold | hnew
    · exact (h.sealed entry hold).mono hlogged.submissions
    · exact hnew

theorem Genuine.step {a : Action n} (h : s.Genuine params)
    (hstep : s.step params config a = some s') : s'.Genuine params := by
  cases a with
  | worker w e =>
    obtain ⟨r, hr, rfl⟩ := Option.map_eq_some_iff.1 hstep
    obtain ⟨hsound, hlogged⟩ := (Worker.step_moves hr).sound (h.workers w)
    apply h.logs hlogged
    intro v
    by_cases hv : v = w
    · subst hv
      simpa [setWorker] using hsound
    · simpa [setWorker, hv] using (h.workers v).mono hlogged.submissions
  | session e =>
    obtain ⟨r, hr, rfl⟩ := Option.map_eq_some_iff.1 hstep
    have hlogged : Logged params s.state r.1 := (Runner.step_moves hr).logged
    exact h.logs hlogged fun w => (h.workers w).mono hlogged.submissions
  | reporter bits =>
    obtain ⟨r, hr, rfl⟩ := Option.map_eq_some_iff.1 hstep
    have hstate := Reporter.step_state hr
    have hlogged : Logged params s.state r.1 := by
      rw [hstate]
      exact .of_eq rfl rfl
    exact h.logs hlogged fun w => (h.workers w).mono hlogged.submissions

theorem Genuine.reachable (h : s.Reachable params config) : s.Genuine params :=
  Runs.Invariant.reachable (fun _ _ _ => Genuine.step) Genuine.init h

/-- Each written submit names the job its worker held, a nonce and the digest of the job's blob
under that nonce, which meets the job's target; each sealed block is that of a job under a nonce
that solves it, and the node's reply accepted it at this height and under this hash. -/
structure RealWork (params : Params) (s : System n) : Prop where
  sent : ∀ sent ∈ s.state.history.sent, ∃ fields nonceText nonce digest,
    sent.message.get "method" = some (.string "submit") ∧
    sent.message.get "params" = some fields ∧
    fields.get "job_id" = some (.string sent.held.job.id) ∧
    fields.get "nonce" = some (.string nonceText) ∧
    Hex.decode nonceText = .ok nonce ∧ nonce.length = 8 ∧
    fields.get "result" = some (.string (Hex.encode digest.val)) ∧
    digest = params.pow sent.held.job.algo sent.held.job.powKey
      (splice sent.held.job.blob sent.held.job.nonceOffset nonce) ∧
    digest.val ≤ sent.held.job.target.val
  sealed : ∀ entry ∈ s.state.sealedBlocks.entries, ∃ submission ∈ s.state.history.submissions,
    ∃ digest result,
    entry.1 = submission.held.job.height.toNat ∧
    entry.2 = Hex.encode (params.blake3 (submission.held.job.spliced submission.nonce)).val ∧
    digest = params.pow submission.held.job.algo submission.held.job.powKey
      (submission.held.job.spliced submission.nonce) ∧
    digest.val ≤ submission.held.job.target.val ∧
    submission.reply = .ok result ∧ result.get "accepted" = some (.bool true) ∧
    result.get "height" = some (.nat submission.held.job.height) ∧
    result.get "hash" = some (.string entry.2)

theorem submissions_are_real_work (h : s.Reachable params config) : s.RealWork params where
  sent sent hsent := by
    obtain ⟨nonce, digest, hsolves, hmessage⟩ := (Genuine.reachable h).sent sent hsent
    have hmethod : sent.message.get "method" = some (.string "submit") := by
      simp [hmessage, submitMessage, Value.get_json, List.lookup_cons]
    have hfields := get_params_submitMessage sent.id sent.held.job.id (nonceWire nonce)
      (Hex.encode digest.val)
    rw [← hmessage] at hfields
    refine ⟨_, nonceWire nonce, leBytes 8 nonce.toNat, digest, hmethod, hfields, ?_, ?_,
      Hex.decode_encode _, length_leBytes .., ?_, hsolves.evaluated, hsolves.meets⟩
    · simp [Value.get_json, List.lookup_cons]
    · simp [Value.get_json, List.lookup_cons]
    · simp [Value.get_json]
  sealed entry hentry := by
    obtain ⟨submission, hmem, haccepted, rfl⟩ := (Genuine.reachable h).sealed entry hentry
    obtain ⟨digest, hsolves⟩ := haccepted.solves
    obtain ⟨result, hreply, haccept, hheight, hhash⟩ := haccepted.reply
    exact ⟨submission, hmem, digest, result, rfl, rfl, hsolves.evaluated, hsolves.meets, hreply,
      haccept, hheight, hhash⟩

end System

def zeroDigest : Bytes32 := zeroTarget

def plainParams : Params where
  blake3 _ := zeroDigest
  pow _ _ _ := zeroDigest
  expectedHashesForTarget _ := 0
  gib _ := ""
  float _ := []

def poolConfig : Config where
  pool := "pool:3333"
  user := "u"
  password := "x"
  reconnectSecs := 5

/-- A job push that every nonce solves. -/
def jobPush (id : String) : Value :=
  .json [("method", .string "job"), ("params", .json [("job_id", .string id),
    ("blob", .string "0000000000000000"), ("nonce_offset", .nat 0), ("nonce_size", .nat 8),
    ("target_full", .string "ffffffffffffffffffffffffffffffffffffffffffffffffffffffffffffffff"),
    ("algo", .string "sha256d"), ("seed_hash", .string ""), ("height", .nat 7)])]

def arrives {n : ℕ} (message : Value) : Action n :=
  .session (.message (.ok (some message)) (.ok (0, 0)))

/-- A pool session is opened and its first job is installed. -/
def openPool {n : ℕ} (id : String) : List (Action n) :=
  [.session .tick, .session (.socket (.ok ())), .session (.socket (.ok ())), .session .tick,
    .session (.socket (.ok ())), arrives (jobPush id), .session .tick, .session .tick,
    .session .tick, .session .tick]

/-- A worker refreshes its job, solves it and passes the second check of the generation. -/
def solveShare {n : ℕ} (w : Fin n) : List (Action n) :=
  [.worker w .tick, .worker w .tick, .worker w .tick, .worker w (.sealed false (.ok .sha256d) 0),
    .worker w .tick]

/-- It goes on to write the share. -/
def writeShare {n : ℕ} (w : Fin n) : List (Action n) :=
  [.worker w .tick, .worker w .tick, .worker w .tick, .worker w .tick,
    .worker w (.socket (.ok ()))]

theorem System.submissions_are_real_work_oneShare : ∃ s : System 1,
    System.run plainParams poolConfig (System.init 1 poolConfig)
      (openPool "a" ++ solveShare 0 ++ writeShare 0) = some s ∧
    s.state.history.sent.length = 1 ∧ s.RealWork plainParams := by
  have hsome : ((System.run plainParams poolConfig (System.init 1 poolConfig)
      (openPool "a" ++ solveShare 0 ++ writeShare 0)).map
        fun s => s.state.history.sent.length) = some 1 := by decide +kernel
  obtain ⟨s, hrun, hlength⟩ := Option.map_eq_some_iff.1 hsome
  exact ⟨s, hrun, hlength, System.submissions_are_real_work ⟨_, hrun⟩⟩

end XusMiner.Engine

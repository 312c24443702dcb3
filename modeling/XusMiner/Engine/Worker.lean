import XusMiner.Engine.State

namespace XusMiner.Engine
open ByteCodec

def nonceWire (nonce : UInt64) : String := Hex.encode (leBytes 8 nonce.toNat)

def submitMessage (requestId : UInt64) (jobId nonce result : String) : Value :=
  .json [("id", .nat requestId), ("jsonrpc", .string "2.0"), ("method", .string "submit"),
    ("params", .json [("job_id", .string jobId), ("nonce", .string nonce),
      ("result", .string result)])]

def submitBlockParams (job : Job) (nonce : UInt64) : Value :=
  .json [("templateId", .string job.id), ("nonce", .nat nonce),
    ("timestampMs", .ofOption .nat job.timestampMs)]

def validateRpcSubmission (blake3 : Bytes → Bytes32) (result : Value) (job : Job)
    (sealedBlob : Bytes) : Except String PUnit := do
  match (result.get "accepted").bind Value.asBool with
  | some true => pure ()
  | some false =>
    throw ("node returned accepted=false" ++
      (((result.get "error").bind Value.asStr).map fun error => ": " ++ error).getD "")
  | none => throw "node submission reply has no boolean `accepted`"
  let height ← ((result.get "height").bind Value.asU64).okOr
    "node submission reply has no integer `height`"
  Except.ensure ("node submission height " ++ Strings.decimal height.toNat ++
    " does not match mined height " ++ Strings.decimal job.height.toNat) (height = job.height)
  let hash ← ((result.get "hash").bind Value.asStr).okOr
    "node submission reply has no string `hash`"
  let expectedHash := templateIdForBlob blake3 sealedBlob
  Except.ensure ("node submission hash `" ++ hash ++ "` does not match locally sealed block `" ++
    expectedHash ++ "`") (hash = expectedHash)

/-- Where a worker stands, by the operation on the shared state that comes next. -/
inductive Pc
  | loadGeneration
  | readJob (increments : ℕ)
  | batch
  | sealBlob
  | test (digest : Bytes32)
  | readEndpoint (digest : Bytes32)
  | countSubmission
  | submitBlock
  | countAccepted
  | recordSealed
  | loadSubmitted
  | loadAccepted (submitted : UInt64)
  | loadRejected (submitted accepted : UInt64)
  | emitShare (submitted accepted rejected : UInt64)
  | clearJob
  | clearGeneration (cleared : ArcJob)
  | emitCleared
  | countRejected
  | nextRequest (digest : Bytes32)
  | readConnection (id : UInt64) (message : Value)
  | reserve (c : ℕ) (id : UInt64) (message : Value)
  | write (c : ℕ) (id : UInt64) (message : Value)
  | countSubmitted (c : ℕ) (id : UInt64)
  | writeFailed (c : ℕ)
  | addIntervalHashes
  | addTotalHashes
  | recordRound

namespace Pc

/-- `clear_job_if_current` holds the write lock of the job slot. -/
def holdsJob : Pc → Bool
  | .clearGeneration _ | .emitCleared => true
  | _ => false

/-- The read guard of the connection lives to the end of the `if let`. -/
def holdsConnection : Pc → Bool
  | .reserve .. | .write .. | .countSubmitted .. | .writeFailed _ => true
  | _ => false

/-- So does the read guard of the endpoint. -/
def holdsEndpoint : Pc → Bool
  | .countSubmission | .submitBlock | .countAccepted | .recordSealed | .loadSubmitted
  | .loadAccepted _ | .loadRejected .. | .emitShare .. | .clearJob | .clearGeneration _
  | .emitCleared | .countRejected => true
  | _ => false

end Pc

/-- The local variables of `worker_loop`, and the supervisor's count of restarts. `refreshed` is
the number of increments after which the generation of the cached job was loaded; the loop does not
know it. -/
structure Worker where
  restarts : UInt64 := 0
  generation : UInt64 := 0xffffffffffffffff
  job : Option ArcJob := none
  blob : Bytes := []
  nonce : UInt64
  readyState : Option (PowAlgo × Bytes × MiningMode) := none
  preparationAnnounced : Bool := false
  lastPowError : Option (String × ℕ) := none
  completed : UInt64 := 0
  iteration : ℕ := 0
  refreshed : Option ℕ := none
  pc : Pc := .loadGeneration

/-- What a worker is told from outside: how a hash evaluation went, a node's reply, the outcome
of a socket write. -/
inductive WorkerEvent
  | tick
  | sealed (builds : Bool) (outcome : Except String MiningMode) (now : ℕ)
  | panic (message : String)
  | reply (reply : Except String Value)
  | socket (result : Except IoError Unit)

/-- The write locks held by other threads. -/
structure Locks where
  job : Bool
  connection : Bool

namespace Worker

def firstNonce (w : ℕ) : UInt64 := UInt64.ofNat w <<< 56

def start (w : ℕ) (restarts : UInt64) : Worker := { restarts, nonce := firstNonce w }

/-- On to the next nonce of the batch. -/
def advance (wk : Worker) : Worker :=
  { wk with nonce := wk.nonce + 1, iteration := wk.iteration + 1, pc := .batch }

/-- The head of the outer loop, past the refresh: without a job the worker sleeps. -/
def enterBatch (wk : Worker) : Worker :=
  match wk.job with
  | none => { wk with pc := .loadGeneration }
  | some _ => { wk with completed := 0, iteration := 0, pc := .batch }

def loadGeneration (s : State) (wk : Worker) : Worker :=
  if s.generation ≠ wk.generation then
    { wk with
      generation := s.generation, preparationAnnounced := false
      pc := .readJob s.history.increments }
  else wk.enterBatch

/-- The rest of the refresh: the generation is cached already. -/
def readJob (w : ℕ) (s : State) (wk : Worker) (increments : ℕ) : Worker :=
  let wk := { wk with job := s.job, refreshed := some increments }
  match s.job with
  | none => wk.enterBatch
  | some arc => { wk with blob := arc.job.blob, nonce := firstNonce w }.enterBatch

/-- The head of the batch loop: the nonce is written into the blob. -/
def batch (s : State) (wk : Worker) (job : Job) : Worker :=
  -- a batch ends early when the generation has moved
  if wk.iteration = workBatch ∨ s.generation ≠ wk.generation then
    { wk with pc := .addIntervalHashes }
  else
    { wk with blob := splice wk.blob job.nonceOffset (leBytes 8 wk.nonce.toNat), pc := .sealBlob }

/-- `before_build`, where the hash engine calls it. -/
def announce (w : ℕ) (s : State) (wk : Worker) (builds : Bool) : State × Worker :=
  if builds && !wk.preparationAnnounced then
    (s.emit (workerInitializing (UInt64.ofNat w)),
      { wk with readyState := none, preparationAnnounced := true })
  else (s, wk)

def powError (w : ℕ) (s : State) (wk : Worker) (error : String) (now : ℕ) : State × Worker :=
  -- the same error is reported once in thirty seconds
  let report := wk.lastPowError.all fun last => last.1 ≠ error || 30 ≤ now - last.2
  (if report then s.emit (workerError (UInt64.ofNat w) error) else s,
    { wk with
      lastPowError := if report then some (error, now) else wk.lastPowError
      readyState := none
      preparationAnnounced := true
      nonce := wk.nonce + 1
      pc := .addIntervalHashes })

def powReady (w : ℕ) (s : State) (wk : Worker) (job : Job) (digest : Bytes32)
    (mode : MiningMode) : State × Worker :=
  let s := if wk.lastPowError.isSome then s.emit (workerRecovered (UInt64.ofNat w)) else s
  let ready := some (job.algo, job.powKey, mode)
  (if wk.readyState ≠ ready then s.emit (workerReady (UInt64.ofNat w) mode) else s,
    { wk with
      lastPowError := none
      readyState := ready
      preparationAnnounced := false
      completed := wk.completed + 1
      pc := .test digest })

/-- `seal_blob` and what the loop does with its result. Only RandomX builds anything or fails. -/
def sealBlob (params : Params) (w : ℕ) (s : State) (wk : Worker) (job : Job) (builds : Bool)
    (outcome : Except String MiningMode) (now : ℕ) : State × Worker :=
  let digest := params.pow job.algo job.powKey wk.blob
  match job.algo with
  | .sha256d => wk.powReady w s job digest .sha256d
  | .randomX =>
    let (s, wk) := wk.announce w s builds
    match outcome with
    | .error error => wk.powError w s error now
    | .ok mode => wk.powReady w s job digest mode

/-- `worker_supervisor` starts the loop anew. -/
def panic (w : ℕ) (s : State) (wk : Worker) (message : String) : State × Worker :=
  let restarts := saturatingAdd wk.restarts 1
  (s.emit (workerPanicked (UInt64.ofNat w) message (min restarts 30)), start w restarts)

def test (s : State) (wk : Worker) (job : Job) (digest : Bytes32) : Worker :=
  -- a solution of a generation that has passed is dropped without a word
  if digest.val ≤ job.target.val ∧ s.generation = wk.generation then
    { wk with pc := .readEndpoint digest }
  else wk.advance

def readEndpoint (s : State) (wk : Worker) (digest : Bytes32) : Worker :=
  match s.rpcEndpoint with
  | some _ => { wk with pc := .countSubmission }
  | none => { wk with pc := .nextRequest digest }

def submitBlock (params : Params) (w : ℕ) (s : State) (wk : Worker) (arc : ArcJob)
    (reply : Except String Value) : State × Worker :=
  let submission := ⟨w, arc, wk.nonce, submitBlockParams arc.job wk.nonce, reply⟩
  ({ s with history := { s.history with submissions := s.history.submissions ++ [submission] } },
    match reply.bind fun result => validateRpcSubmission params.blake3 result arc.job wk.blob with
    | .ok _ => { wk with pc := .countAccepted }
    | .error _ => { wk with pc := .countRejected })

/-- `clear_job_if_current`, up to the increment. -/
def clearJob (s : State) (wk : Worker) (completed : ArcJob) : State × Worker :=
  match s.job with
  | some current =>
    -- `Arc::ptr_eq`: a job with the same contents is another job
    if current.serial = completed.serial then
      ({ s with job := none }, { wk with pc := .clearGeneration current })
    else (s, wk.advance)
  | none => (s, wk.advance)

def nextRequest (s : State) (wk : Worker) (job : Job) (digest : Bytes32) : State × Worker :=
  let message := submitMessage s.nextRequest job.id (nonceWire wk.nonce) (Hex.encode digest.val)
  ({ s with nextRequest := s.nextRequest + 1 },
    { wk with pc := .readConnection s.nextRequest message })

def readConnection (s : State) (wk : Worker) (id : UInt64) (message : Value) : Worker :=
  match s.connection with
  | some c => { wk with pc := .reserve c id message }
  | none => wk.advance

def reserve (s : State) (wk : Worker) (c : ℕ) (id : UInt64) (message : Value) : State × Worker :=
  match s.connections[c]?.bind Connection.reserveShare with
  | some connection =>
    (s.updateConnection c fun _ => connection, { wk with pc := .write c id message })
  | none => (s, wk.advance)

def write (params : Params) (w : ℕ) (s : State) (wk : Worker) (held : ArcJob) (c : ℕ)
    (id : UInt64) (message : Value) (socket : Except IoError Unit) : State × Worker :=
  match writeJson params message socket with
  | .ok _ =>
    ({ s with history := { s.history with sent := s.history.sent ++ [⟨w, c, id, held, message⟩] } },
      { wk with pc := .countSubmitted c id })
  | .error _ => (s, { wk with pc := .writeFailed c })

def countSubmitted (s : State) (wk : Worker) (c : ℕ) (id : UInt64) : State × Worker :=
  ({ s with
      submitted := s.submitted + 1
      history := { s.history with counted := s.history.counted ++ [(c, id)] } }, wk.advance)

/-- One operation of worker `w` on the shared state. -/
def step (params : Params) (w : ℕ) (locks : Locks) (s : State) (wk : Worker) (e : WorkerEvent) :
    Option (State × Worker) :=
  match wk.pc with
  | .loadGeneration => some (s, wk.loadGeneration s)
  | .readJob increments => if locks.job then none else some (s, wk.readJob w s increments)
  | .batch => wk.job.map fun arc => (s, wk.batch s arc.job)
  | .sealBlob =>
    match e with
    | .sealed builds outcome now =>
      wk.job.map fun arc => wk.sealBlob params w s arc.job builds outcome now
    | .panic message => some (wk.panic w s message)
    | _ => none
  | .test digest => wk.job.map fun arc => (s, wk.test s arc.job digest)
  | .readEndpoint digest => some (s, wk.readEndpoint s digest)
  -- a node: the block goes out with `sov_submitBlock`
  | .countSubmission =>
    some ({ s with submitted := s.submitted + 1 }, { wk with pc := .submitBlock })
  | .submitBlock =>
    match e with
    | .reply reply => wk.job.map fun arc => wk.submitBlock params w s arc reply
    | _ => none
  | .countAccepted => some ({ s with accepted := s.accepted + 1 }, { wk with pc := .recordSealed })
  | .recordSealed => wk.job.map fun arc =>
    (s.recordSealedBlock arc.job.height (templateIdForBlob params.blake3 wk.blob),
      { wk with pc := .loadSubmitted })
  | .loadSubmitted => some (s, { wk with pc := .loadAccepted s.submitted })
  | .loadAccepted submitted => some (s, { wk with pc := .loadRejected submitted s.accepted })
  | .loadRejected submitted accepted =>
    some (s, { wk with pc := .emitShare submitted accepted s.rejected })
  | .emitShare submitted accepted rejected =>
    some (s.emit (shareEvent submitted accepted rejected), { wk with pc := .clearJob })
  | .clearJob => if locks.job then none else wk.job.map fun arc => wk.clearJob s arc
  | .clearGeneration cleared => some (s.publish (some cleared), { wk with pc := .emitCleared })
  | .emitCleared => wk.job.map fun arc => (s.emit (jobCleared arc.job), wk.advance)
  | .countRejected => some ({ s with rejected := s.rejected + 1 }, wk.advance)
  -- a pool: the share goes out on whatever connection is installed by then
  | .nextRequest digest => wk.job.map fun arc => wk.nextRequest s arc.job digest
  | .readConnection id message =>
    if locks.connection then none else some (s, wk.readConnection s id message)
  | .reserve c id message => some (wk.reserve s c id message)
  | .write c id message =>
    match e with
    | .socket result => wk.job.map fun arc => wk.write params w s arc c id message result
    | _ => none
  | .countSubmitted c id => some (wk.countSubmitted s c id)
  | .writeFailed c => some (s.updateConnection c Connection.finishShare, wk.advance)
  -- the end of a batch
  | .addIntervalHashes =>
    some ({ s with intervalHashes := s.intervalHashes + wk.completed },
      { wk with pc := .addTotalHashes })
  | .addTotalHashes =>
    some ({ s with totalHashes := s.totalHashes + wk.completed }, { wk with pc := .recordRound })
  | .recordRound => wk.job.map fun arc =>
    (s.recordRoundHashes arc.job wk.completed, { wk with pc := .loadGeneration })

end Worker
end XusMiner.Engine

import XusMiner.Engine.State

namespace XusMiner.Engine
open ByteCodec

def loginRequest (config : Config) : Value :=
  .json [("id", .nat loginId), ("jsonrpc", .string "2.0"), ("method", .string "login"),
    ("params", .json [("login", .string config.user), ("pass", .string config.password),
      ("agent", .string ("xus-miner/" ++ version))])]

def keepaliveRequest : Value :=
  .json [("id", .nat keepaliveId), ("jsonrpc", .string "2.0"), ("method", .string "keepalived"),
    ("params", .json [])]

/-- What `handle_message` finds in a message. -/
inductive Message
  | job (value : Value)
  | share (id : UInt64) (accepted : Bool)
  | other

/-- `is_none_or(Value::is_null)` of the member `error`. -/
def noError (message : Value) : Bool := (message.get "error").all Value.isNull

def readMessage (float : UInt64 → List Char) (message : Value) : Except IoError Message :=
  if (message.get "method").bind Value.asStr = some "job" then
    match message.get "params" with
    | some params => .ok (.job params)
    | none => .error ⟨.invalidData, "job push has no params"⟩
  else match (message.get "id").bind Value.asU64 with
    | none => .ok .other
    | some id =>
      if id = loginId then
        if noError message then
          match (message.get "result").bind (·.get "job") with
          | some job => .ok (.job job)
          | none => .error ⟨.invalidData, "login reply has no job"⟩
        else .error ⟨.permissionDenied, rejectedLogin float ((message.get "error").getD .null)⟩
      else if firstSubmitId ≤ id then .ok (.share id (noError message))
      else .ok .other

/-- The variables of the loop of `run_rpc_session`, less those of the block feed. -/
structure Direct where
  previousId : String := ""
  chainHeight : Option UInt64 := none
  announced : Bool := false

/-- Whose loop is running: that of a pool session on a connection, or that of a direct one. -/
inductive Role
  | pool (c : ℕ)
  | direct (d : Direct)

/-- Where the session thread stands, by what comes next. From `closing` on the session is over
and `error` is what it returns. -/
inductive Session
  | sleeping
  | connect
  | configure
  | openConnection (c : ℕ)
  | login (c : ℕ)
  | writeEndpoint
  | working (role : Role)
  | keepalive (c : ℕ)
  | template (d : Direct) (height : UInt64)
  | installRound (role : Role) (arc : ArcJob)
  | installCoinbase (role : Role) (arc : ArcJob)
  | installSlot (role : Role) (arc : ArcJob)
  | installGeneration (role : Role) (old : Option ArcJob)
  | enrich (d : Direct)
  | finishShare (c : ℕ) (id : UInt64) (accepted : Bool)
  | countShare (c : ℕ) (id : UInt64) (accepted : Bool)
  | loadSubmitted (c : ℕ)
  | loadAccepted (c : ℕ) (submitted : UInt64)
  | loadRejected (c : ℕ) (submitted accepted : UInt64)
  | emitShare (c : ℕ) (submitted accepted rejected : UInt64)
  | closing (role : Role) (error : IoError)
  | clearJob (error : IoError)
  | clearCoinbase (error : IoError) (old : Option ArcJob)
  | clearGeneration (error : IoError) (old : Option ArcJob)
  | forgetCoinbase (error : IoError)
  | forgetMempool (error : IoError)
  | forgetPeers (error : IoError)
  | dropJob (error : IoError)
  | dropGeneration (error : IoError) (old : Option ArcJob)
  | ended (error : IoError)

namespace Session

/-- `clear_connection` holds the write lock of the connection. -/
def holdsConnection : Session → Bool
  | .clearJob _ | .clearCoinbase .. | .clearGeneration .. => true
  | _ => false

end Session

/-- The session thread, and the gate that outlives its sessions. -/
structure Runner where
  session : Session := .sleeping
  gate : RandomxMemoryGate

/-- What the session thread is told from outside. `scan` is the memory scan of that moment. -/
inductive SessionEvent
  | tick
  | socket (result : Except IoError Unit)
  | message (result : Except IoError (Option Value)) (scan : Except String (UInt64 × UInt64))
  | health (reply : Except IoError Value)
  | template (expired : Bool) (reply : Except IoError Value)
      (scan : Except String (UInt64 × UInt64))
  | optional (network peers mempool : Option Value)

/-- The locks workers hold: of the job slot for writing, of the others for reading. -/
structure Guards where
  job : Bool
  connection : Bool
  endpoint : Bool

def connectionClosed : IoError := ⟨.unexpectedEof, "pool closed connection"⟩

/-- The node's own mempool counter, in any of the shapes it is served in. -/
def mempoolSize (value : Value) : Option UInt64 :=
  value.asU64.or (["size", "count", "mempool", "pending"].findSome? fun key =>
    (value.get key).bind Value.asU64)

namespace State

def emitNetwork (s : State) : Option Value → State
  | some network => s.emit (networkEvent network)
  | none => s

def storePeers (s : State) (count : Option UInt64) : State :=
  { s with peerCount := count.getD s.peerCount, peersKnown := count.isSome }

def storeMempool (s : State) (size : Option UInt64) : State :=
  { s with mempoolSize := size.getD s.mempoolSize, mempoolKnown := size.isSome || s.mempoolKnown }

end State

namespace Runner

/-- A parsed job passes the memory gate and is on its way into the slot, or ends the session. -/
def admitJob (params : Params) (s : State) (r : Runner) (role : Role) (origin : Option ℕ)
    (job : Except String Job) (resume : Job → Role) (scan : Except String (UInt64 × UInt64)) :
    State × Runner :=
  match job with
  | .error error => (s, { r with session := .closing role ⟨.invalidData, error⟩ })
  | .ok job =>
    match r.gate.ensureSafe params.gib job.algo scan with
    | .error error => (s, { r with session := .closing role ⟨.outOfMemory, error⟩ })
    | .ok gate =>
      ((s.receive job origin).2, ⟨.installRound (resume job) (s.receive job origin).1, gate⟩)

/-- A read of the Stratum loop. -/
def message (params : Params) (s : State) (r : Runner) (c : ℕ)
    (result : Except IoError (Option Value)) (scan : Except String (UInt64 × UInt64)) :
    State × Runner :=
  match result with
  | .ok none => (s, { r with session := .closing (.pool c) connectionClosed })
  | .error error =>
    -- nothing came within the read timeout
    if error.kind = .wouldBlock ∨ error.kind = .timedOut then
      (s, { r with session := .keepalive c })
    else (s, { r with session := .closing (.pool c) error })
  | .ok (some message) =>
    match readMessage params.float message with
    | .error error => (s, { r with session := .closing (.pool c) error })
    | .ok .other => (s, r)
    | .ok (.job value) =>
      r.admitJob params s (.pool c) (some c) (Job.fromStratum value) (fun _ => .pool c) scan
    | .ok (.share id accepted) =>
      ({ s with history := { s.history with replies := s.history.replies ++ [(c, id)] } },
        { r with session := .finishShare c id accepted })

/-- The tip poll: the mempool figure is stored before anything else is asked. -/
def health (s : State) (r : Runner) (d : Direct) (reply : Except IoError Value) :
    State × Runner :=
  let read (name message : String) : Except IoError UInt64 := reply.bind fun health =>
    ((health.get name).bind Value.asU64).okOr ⟨.invalidData, message⟩
  match read "height" "sov_health result has no integer height",
      read "mempool" "sov_health result has no integer mempool size" with
  | .ok height, .ok mempool =>
    let s := { s with mempoolSize := mempool, mempoolKnown := true }
    (if d.announced then s else s.emit nodeConnected,
      { r with session := .template { d with announced := true } height })
  | .error error, _ | _, .error error => (s, { r with session := .closing (.direct d) error })

def template (params : Params) (config : Config) (s : State) (r : Runner) (d : Direct)
    (height : UInt64) (expired : Bool) (reply : Except IoError Value)
    (scan : Except String (UInt64 × UInt64)) : State × Runner :=
  -- a template is asked for at the first poll, when the tip moves and every thirty seconds
  if d.previousId = "" ∨ d.chainHeight ≠ some height ∨ expired then
    match reply with
    | .error error => (s, { r with session := .closing (.direct d) error })
    | .ok value =>
      let job := do
        let job ← Job.fromRpc params.blake3 value
        validateRpcCoinbase (requestedCoinbase config.user) job
        return job
      r.admitJob params s (.direct d) none job
        (fun job => .direct { d with previousId := job.id, chainHeight := some height }) scan
  else (s, { r with session := .working (.direct d) })

/-- The optional reads that follow an installed template, less the block feed. -/
def enrich (s : State) (r : Runner) (d : Direct) (network peers mempool : Option Value) :
    State × Runner :=
  let count := peers.bind fun info => (info.get "peers").bind Value.asU64
  ((((s.emitNetwork network).storePeers count).emit (peersEvent count)).storeMempool
      (mempool.bind mempoolSize),
    { r with session := .working (.direct d) })

/-- Where the loop goes on once a job is installed. -/
def resume : Role → Session
  | .pool c => .working (.pool c)
  | .direct d => .enrich d

/-- The first step of the end of a session: `clear_connection` takes its lock, or the endpoint
is forgotten. -/
def close (s : State) (r : Runner) (guards : Guards) (role : Role) (error : IoError) :
    Option (State × Runner) :=
  match role with
  | .pool c =>
    if guards.connection then none
    -- a session clears no connection but its own
    else if s.connection = some c then
      some ({ s with connection := none }, { r with session := .clearJob error })
    else some (s, { r with session := .ended error })
  | .direct _ =>
    if guards.endpoint then none
    else some ({ s with rpcEndpoint := none }, { r with session := .forgetCoinbase error })

/-- One operation of the session thread, with `workers` workers started. -/
def step (params : Params) (config : Config) (workers : ℕ) (guards : Guards) (s : State)
    (r : Runner) (e : SessionEvent) : Option (State × Runner) :=
  match r.session with
  | .sleeping =>
    some (s.emit (connecting config.pool),
      { r with session := if isDirectRpc config.pool then .writeEndpoint else .connect })
  | .connect =>
    match e with
    | .socket (.ok _) =>
      some ((s.emit poolConnected).emit chainFeedUnavailable, { r with session := .configure })
    | .socket (.error error) => some (s, { r with session := .ended error })
    | _ => none
  | .configure =>
    match e with
    | .socket (.ok _) =>
      let connection : Connection := { maxPending := UInt64.ofNat workers }
      some ({ s with connections := s.connections ++ [connection] },
        { r with session := .openConnection s.connections.length })
    | .socket (.error error) => some (s, { r with session := .ended error })
    | _ => none
  | .openConnection c =>
    if guards.connection then none
    else some ({ s with connection := some c }, { r with session := .login c })
  | .login c =>
    match e with
    | .socket result =>
      match writeJson params (loginRequest config) result with
      | .ok _ => some (s, { r with session := .working (.pool c) })
      -- the early return: `clear_connection` is not reached
      | .error error => some (s, { r with session := .ended error })
    | _ => none
  | .writeEndpoint =>
    if guards.endpoint then none
    else some ({ s with rpcEndpoint := some config.pool },
      { r with session := .working (.direct {}) })
  | .working (.pool c) =>
    match e with
    | .message result scan => some (r.message params s c result scan)
    | _ => none
  | .working (.direct d) =>
    match e with
    | .health reply => some (r.health s d reply)
    | _ => none
  | .keepalive c =>
    match e with
    | .socket result =>
      match writeJson params keepaliveRequest result with
      | .ok _ => some (s, { r with session := .working (.pool c) })
      | .error error => some (s, { r with session := .closing (.pool c) error })
    | _ => none
  | .template d height =>
    match e with
    | .template expired reply scan => some (r.template params config s d height expired reply scan)
    | _ => none
  | .installRound role arc =>
    some (s.installRound arc.job, { r with session := .installCoinbase role arc })
  | .installCoinbase role arc =>
    some (s.installCoinbase arc.job, { r with session := .installSlot role arc })
  | .installSlot role arc =>
    if guards.job then none
    else some (s.installSlot params arc, { r with session := .installGeneration role s.job })
  | .installGeneration role old => some (s.publish old, { r with session := resume role })
  | .enrich d =>
    match e with
    | .optional network peers mempool => some (r.enrich s d network peers mempool)
    | _ => none
  | .finishShare c id accepted =>
    some (s.updateConnection c Connection.finishShare,
      { r with session := .countShare c id accepted })
  | .countShare c id accepted =>
    some (s.countShare c id accepted, { r with session := .loadSubmitted c })
  | .loadSubmitted c => some (s, { r with session := .loadAccepted c s.submitted })
  | .loadAccepted c submitted =>
    some (s, { r with session := .loadRejected c submitted s.accepted })
  | .loadRejected c submitted accepted =>
    some (s, { r with session := .emitShare c submitted accepted s.rejected })
  | .emitShare c submitted accepted rejected =>
    some (s.emit (shareEvent submitted accepted rejected), { r with session := .working (.pool c) })
  | .closing role error => r.close s guards role error
  | .clearJob error =>
    if guards.job then none
    else some ({ s with job := none }, { r with session := .clearCoinbase error s.job })
  | .clearCoinbase error old =>
    some ({ s with confirmedCoinbase := none }, { r with session := .clearGeneration error old })
  | .clearGeneration error old => some (s.publish old, { r with session := .ended error })
  | .forgetCoinbase error =>
    some ({ s with confirmedCoinbase := none }, { r with session := .forgetMempool error })
  | .forgetMempool error =>
    some ({ s with mempoolKnown := false }, { r with session := .forgetPeers error })
  | .forgetPeers error =>
    some ({ s with peersKnown := false }, { r with session := .dropJob error })
  | .dropJob error =>
    if guards.job then none
    else some ({ s with job := none }, { r with session := .dropGeneration error s.job })
  | .dropGeneration error old => some (s.publish old, { r with session := .ended error })
  | .ended error =>
    some (s.emit (sessionError error.message config.reconnectSecs), { r with session := .sleeping })

end Runner
end XusMiner.Engine

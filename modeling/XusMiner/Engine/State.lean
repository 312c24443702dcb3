import XusMiner.DirectWork
import XusMiner.BlockFlow.Blocks
import XusMiner.Library.BufReader
import XusMiner.Engine.Events
import XusMiner.Engine.MemoryGate

namespace XusMiner.Engine
open ByteCodec

def firstSubmitId : UInt64 := 1000
def loginId : UInt64 := 1
def keepaliveId : UInt64 := 2
def workBatch : ℕ := 256
def maxLineBytes : ℕ := 64 * 1024

/-- One allocation of a job; `Arc::ptr_eq` compares serial numbers. It remembers the connection
it was received on, if any, and how many connections had been opened by then. -/
structure ArcJob where
  serial : ℕ
  job : Job
  origin : Option ℕ
  opened : ℕ
  deriving DecidableEq

/-- The part of a connection that its threads share, less the socket. -/
structure Connection where
  pending : UInt64 := 0
  maxPending : UInt64

def Connection.reserveShare (connection : Connection) : Option Connection :=
  if connection.pending < connection.maxPending then
    some { connection with pending := connection.pending + 1 }
  else none

def Connection.finishShare (connection : Connection) : Connection :=
  { connection with pending := saturatingSub connection.pending 1 }

structure RoundStats where
  height : Option UInt64 := none
  hashes : UInt64 := 0

/-- A submit that was written in full: by which worker, to which connection, under which id and
for which of the jobs it held. -/
structure Sent where
  worker : ℕ
  connection : ℕ
  id : UInt64
  held : ArcJob
  message : Value

/-- A `sov_submitBlock` call: what it was made for, its parameters and its reply. -/
structure Submission where
  worker : ℕ
  held : ArcJob
  nonce : UInt64
  params : Value
  reply : Except String Value

/-- What has happened so far. No thread reads it. -/
structure History where
  /-- The increments of the generation. -/
  increments : ℕ := 0
  /-- The jobs replaced in the slot by a writer whose increment is done as well. -/
  replaced : List ArcJob := []
  received : List ArcJob := []
  sent : List Sent := []
  /-- The submits counted as submitted, the share replies read, and those of them counted as
  accepted or rejected, by connection and id. -/
  counted : List (ℕ × UInt64) := []
  replies : List (ℕ × UInt64) := []
  settled : List (ℕ × UInt64) := []
  submissions : List Submission := []

/-- The submits that were written, by connection and id. -/
def History.submits (history : History) : List (ℕ × UInt64) :=
  history.sent.map fun sent => (sent.connection, sent.id)

/-- The state the threads share; from `stdout` on, what is outside of it: the events written,
the connections opened, and the history. -/
structure State where
  job : Option ArcJob := none
  connection : Option ℕ := none
  rpcEndpoint : Option String := none
  generation : UInt64 := 0
  nextRequest : UInt64 := firstSubmitId
  intervalHashes : UInt64 := 0
  totalHashes : UInt64 := 0
  submitted : UInt64 := 0
  accepted : UInt64 := 0
  rejected : UInt64 := 0
  mempoolSize : UInt64 := 0
  mempoolKnown : Bool := false
  peerCount : UInt64 := 0
  peersKnown : Bool := false
  round : RoundStats := {}
  confirmedCoinbase : Option String := none
  sealedBlocks : BlockFlow.SealedBlocks := {}
  jsonEvents : Bool
  stdout : List Value := []
  connections : List Connection := []
  history : History := {}

namespace State

def emit (s : State) (event : Value) : State :=
  if s.jsonEvents then { s with stdout := s.stdout ++ [event] } else s

def recordSealedBlock (s : State) (height : UInt64) (hash : String) : State :=
  { s with sealedBlocks := s.sealedBlocks.record height.toNat hash }

def updateConnection (s : State) (c : ℕ) (f : Connection → Connection) : State :=
  { s with connections := s.connections.modify c f }

/-- `generation.fetch_add(1)`, by the writer that replaced `old` in the job slot. -/
def publish (s : State) (old : Option ArcJob) : State :=
  { s with
    generation := s.generation + 1
    history := { s.history with
      increments := s.history.increments + 1
      replaced := s.history.replaced ++ old.toList } }

/-- The four lock sections and atomic operations of `install_job`, in order; the last is
`publish`. -/
def installRound (s : State) (job : Job) : State :=
  if s.round.height ≠ some job.height then { s with round := { height := some job.height } } else s

def installCoinbase (s : State) (job : Job) : State :=
  match job.coinbase with
  | some account => { s with confirmedCoinbase := some account }
  | none => s

def installSlot (params : Params) (s : State) (arc : ArcJob) : State :=
  { s with job := some arc }.emit (jobEvent params.expectedHashesForTarget arc.job)

def recordRoundHashes (s : State) (job : Job) (completed : UInt64) : State :=
  if job.blockTarget.isSome ∧ s.round.height = some job.height then
    { s with round := { s.round with hashes := saturatingAdd s.round.hashes completed } }
  else s

/-- A share reply is counted. -/
def countShare (s : State) (c : ℕ) (id : UInt64) (accepted : Bool) : State :=
  { s with
    accepted := if accepted then s.accepted + 1 else s.accepted
    rejected := if accepted then s.rejected else s.rejected + 1
    history := { s.history with settled := s.history.settled ++ [(c, id)] } }

/-- A job arrives; `origin` is the connection it came over. -/
def receive (s : State) (job : Job) (origin : Option ℕ) : ArcJob × State :=
  let arc : ArcJob := ⟨s.history.received.length, job, origin, s.connections.length⟩
  (arc, { s with history := { s.history with received := s.history.received ++ [arc] } })

end State

namespace State

theorem emit_eq (s : State) (event : Value) : s.emit event =
    { s with stdout := if s.jsonEvents then s.stdout ++ [event] else s.stdout } := by
  unfold emit
  split_ifs <;> rfl

theorem installRound_eq (s : State) (job : Job) : s.installRound job =
    { s with round := if s.round.height ≠ some job.height then { height := some job.height }
                      else s.round } := by
  unfold installRound
  split_ifs <;> rfl

theorem installCoinbase_eq (s : State) (job : Job) :
    s.installCoinbase job =
      { s with confirmedCoinbase := job.coinbase.or s.confirmedCoinbase } := by
  unfold installCoinbase
  split <;> simp [*]

theorem recordRoundHashes_eq (s : State) (job : Job) (completed : UInt64) :
    s.recordRoundHashes job completed =
      { s with round := (s.recordRoundHashes job completed).round } := by
  unfold recordRoundHashes
  split_ifs <;> rfl

end State

/-- `write_json`: an oversized payload is refused, otherwise the socket decides. -/
def writeJson (params : Params) (value : Value) (socket : Except IoError Unit) :
    Except IoError Unit :=
  if maxLineBytes < (value.print params.float).utf8ByteSize + 1 then
    .error ⟨.invalidInput, "outbound JSON exceeds line limit"⟩
  else socket

end XusMiner.Engine

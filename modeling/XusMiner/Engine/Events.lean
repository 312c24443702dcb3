import XusMiner.Engine.Config
import XusMiner.JsonText

/-! The events the engine writes to its standard output, one a line. -/

namespace XusMiner
open ByteCodec

/-- What `State::emit` writes. -/
def emitted (float : UInt64 → List Char) (event : Value) : Bytes :=
  utf8 (event.print float ++ String.ofList [lineFeed])

def connecting (pool : String) : Value :=
  .json [("event", .string "connecting"), ("pool", .string pool)]

def poolConnected : Value := .json [("event", .string "pool_connected")]

def feedUnavailable : String :=
  "network block feed unavailable in pool (Stratum) mode: a pool discloses shares, not network blocks, and there is no direct node RPC to observe the chain tip"

def chainFeedUnavailable : Value :=
  .json [("event", .string "chain_feed_unavailable"), ("reason", .string "stratum"),
    ("message", .string feedUnavailable)]

def nodeConnected : Value := .json [("event", .string "node_connected")]

def networkEvent (network : Value) : Value :=
  .json [("event", .string "network"), ("hashrate", (network.get "hashrate").getD .null),
    ("target_block_ms", (network.get "targetBlockMs").getD .null),
    ("difficulty", (network.get "sha256d").getD .null)]

def peersEvent (count : Option UInt64) : Value :=
  .json [("event", .string "peers"), ("count", .ofOption .nat count)]

def sessionError (message : String) (retryInSecs : UInt64) : Value :=
  .json [("event", .string "session_error"), ("message", .string message),
    ("retry_in_secs", .nat retryInSecs)]

/-- The text of the error `handle_message` makes of a login reply. -/
def rejectedLogin (float : UInt64 → List Char) (error : Value) : String :=
  "pool rejected login: " ++ error.print float

def algorithmName : PowAlgo → String
  | .randomX => "RandomX"
  | .sha256d => "SHA-256d"

def jobEvent (expectedHashesForTarget : Bytes32 → UInt64) (job : Job) : Value :=
  .json [("event", .string "job"), ("job_id", .string job.id), ("height", .nat job.height),
    ("algorithm", .string (algorithmName job.algo)), ("coinbase", .ofOption .string job.coinbase),
    ("network_target", .ofOption (fun t : Bytes32 => .string (Hex.encode t.val)) job.blockTarget),
    ("expected_hashes",
      .ofOption (fun t => .number (.float (expectedHashesForTarget t))) job.blockTarget)]

def jobCleared (job : Job) : Value :=
  .json [("event", .string "job_cleared"), ("job_id", .string job.id), ("height", .nat job.height),
    ("reason", .string "accepted_block")]

def shareEvent (submitted accepted rejected : UInt64) : Value :=
  .json [("event", .string "share"), ("submitted", .nat submitted), ("accepted", .nat accepted),
    ("rejected", .nat rejected)]

/-- The figures of one `metrics` event. The two doubles are given by their bits. -/
structure Metrics where
  hashrate : UInt64 := 0
  height : Option UInt64 := none
  totalHashes : UInt64 := 0
  roundHeight : Option UInt64 := none
  roundHashes : UInt64 := 0
  roundProbability : UInt64 := 0
  submitted : UInt64 := 0
  accepted : UInt64 := 0
  rejected : UInt64 := 0
  mempoolSize : Option UInt64 := none
  peerCount : Option UInt64 := none

def Metrics.event (m : Metrics) : Value :=
  .json [("event", .string "metrics"), ("hashrate", .number (.float m.hashrate)),
    ("height", .ofOption .nat m.height), ("total_hashes", .nat m.totalHashes),
    ("round_height", .ofOption .nat m.roundHeight), ("round_hashes", .nat m.roundHashes),
    ("round_probability", .number (.float m.roundProbability)), ("submitted", .nat m.submitted),
    ("accepted", .nat m.accepted), ("rejected", .nat m.rejected),
    ("mempool_size", .ofOption .nat m.mempoolSize), ("peer_count", .ofOption .nat m.peerCount)]

def workerInitializing (worker : UInt64) : Value :=
  .json [("event", .string "worker_initializing"), ("worker", .nat worker)]

def workerError (worker : UInt64) (message : String) : Value :=
  .json [("event", .string "worker_error"), ("worker", .nat worker), ("message", .string message)]

def workerPanicked (worker : UInt64) (message : String) (retryInSecs : UInt64) : Value :=
  .json [("event", .string "worker_error"), ("worker", .nat worker),
    ("message", .string ("internal worker panic: " ++ message)),
    ("retry_in_secs", .nat retryInSecs)]

def workerRecovered (worker : UInt64) : Value :=
  .json [("event", .string "worker_recovered"), ("worker", .nat worker)]

inductive MiningMode
  | sha256d
  | randomXFastShared
  | randomXLightFallback
  | randomXLightRecovery
  deriving DecidableEq

def MiningMode.telemetryName : MiningMode → String
  | .sha256d => "sha256d"
  | .randomXFastShared => "fast-shared"
  | .randomXLightFallback => "light-fallback"
  | .randomXLightRecovery => "light-recovery"

def workerReady (worker : UInt64) (mode : MiningMode) : Value :=
  .json [("event", .string "worker_ready"), ("worker", .nat worker),
    ("mode", .string mode.telemetryName)]

end XusMiner

import XusMiner.CompactTarget
import XusMiner.Json

namespace XusMiner
open ByteCodec

inductive PowAlgo
  | sha256d
  | randomX
  deriving DecidableEq, Repr

def maxBlobBytes : ℕ := 1024 * 1024

/-- A unit of work. The nonce is always the trailing eight bytes of the blob. -/
structure Job where
  id : String
  blob : Bytes
  nonceOffset : ℕ
  /-- Threshold used to decide whether a submitted share or block is valid. -/
  target : Bytes32
  /-- Consensus block target when disclosed separately from a pool share target. -/
  blockTarget : Option Bytes32
  algo : PowAlgo
  powKey : Bytes
  height : UInt64
  timestampMs : Option UInt64
  /-- Reward destination disclosed by the node or pool for this exact job. -/
  coinbase : Option String
  trailingNonce : nonceOffset + 8 = blob.length
  deriving DecidableEq

/-- The check that `offset` is the place of the trailing nonce. -/
def checkNonceOffset (message : String) (blob : Bytes) (offset : ℕ) :
    Except String {n : ℕ // n + 8 = blob.length} :=
  if h : offset = blob.length - 8 ∧ 8 ≤ blob.length then .ok ⟨offset, by omega⟩ else .error message

def checkBytes32 (message : ℕ → String) (bs : Bytes) : Except String Bytes32 :=
  if h : bs.length = 32 then .ok ⟨bs, h⟩ else .error (message bs.length)

def decodeHex (what : String) (s : String) : Except String Bytes :=
  (Hex.decode s).mapError fun e => what ++ e.text

namespace Job

def stratumString (value : Value) (name : String) : Except String String :=
  (((value.get name).bind Value.asStr).filter (fun s => s ≠ "")).okOr
    ("job missing non-empty string `" ++ name ++ "`")

def stratumNumber (value : Value) (name : String) : Except String UInt64 :=
  ((value.get name).bind Value.asU64).okOr ("job missing integer `" ++ name ++ "`")

def stratumAlgo : String → Except String PowAlgo
  | "rx/0" => .ok .randomX
  | "sha256d" => .ok .sha256d
  | other => .error ("unsupported algorithm `" ++ other ++ "`")

/-- The optional consensus target beside a pool's share target. -/
def stratumBlockTarget (value : Value) : Except String (Option Bytes32) :=
  match ((value.get "network_target_full").or (value.get "network_target")).bind Value.asStr with
  | none => .ok none
  | some encoded => do
    let bytes ← decodeHex "invalid network block target hex: " encoded
    let target ← checkBytes32
      (fun n => "network block target is " ++ Strings.decimal n ++ " bytes, want 32") bytes
    return some target

def fromStratum (value : Value) : Except String Job := do
  let id ← stratumString value "job_id"
  Except.ensure "job_id exceeds 256 bytes" ((utf8 id).length ≤ 256)
  let blob ← decodeHex "invalid blob hex: " (← stratumString value "blob")
  Except.ensure ("blob length " ++ Strings.decimal blob.length ++ " outside 8..=1048576")
    (8 ≤ blob.length ∧ blob.length ≤ maxBlobBytes)
  let offset ← stratumNumber value "nonce_offset"
  let nonceSize ← stratumNumber value "nonce_size"
  Except.ensure "SOV jobs require nonce_size 8" (nonceSize = 8)
  let nonceOffset ← checkNonceOffset
    ("nonce_offset " ++ Strings.decimal offset.toNat ++ " does not identify the trailing u64 in "
      ++ Strings.decimal blob.length ++ "-byte blob") blob offset.toNat
  let targetBytes ← decodeHex "invalid target_full hex: " (← stratumString value "target_full")
  let target ← checkBytes32
    (fun n => "target_full is " ++ Strings.decimal n ++ " bytes, want 32") targetBytes
  let blockTarget ← stratumBlockTarget value
  let algo ← stratumAlgo (← stratumString value "algo")
  let seed ← ((value.get "seed_hash").bind Value.asStr).okOr "job missing string `seed_hash`"
  let powKey ← decodeHex "invalid seed_hash hex: " seed
  Except.ensure "RandomX seed_hash cannot be empty" (¬(algo = .randomX ∧ powKey = []))
  let height ← stratumNumber value "height"
  let coinbase := (((value.get "coinbase").or (value.get "coinbase_account")).bind
    Value.asStr).filter (fun account => account ≠ "")
  return { id, blob, nonceOffset := nonceOffset.val, target, blockTarget, algo, powKey, height,
           timestampMs := none, coinbase, trailingNonce := nonceOffset.property }

def templateString (value : Value) (name : String) : Except String String :=
  ((value.get name).bind Value.asStr).okOr ("template missing string `" ++ name ++ "`")

def templateNumber (value : Value) (name : String) : Except String UInt64 :=
  ((value.get name).bind Value.asU64).okOr ("template missing integer `" ++ name ++ "`")

def templateAlgo : String → Except String PowAlgo
  | "RandomX" => .ok .randomX
  | "Sha256d" => .ok .sha256d
  | other => .error ("unsupported node PoW algorithm `" ++ other ++ "`")

/-- An optional 32-bit figure of the template must agree with the header. -/
def checkOptionalBits (value : Value) (name : String) (encoded : UInt32) : Except String PUnit :=
  match (value.get name).bind Value.asU64 with
  | none => .ok ()
  | some n => Except.ensure ("template " ++ name ++ " does not match encoded header")
      (n.toNat ≤ 0xffffffff ∧ encoded = n.toUInt32)

/-- The checks of a template against the header that its blob encodes. -/
def checkHeader (value : Value) (header : BlockHeaderWire) (coinbase : String)
    (height timestampMs : UInt64) (target : Bytes32) : Except String PUnit := do
  Except.ensure ("template proposer `" ++ coinbase ++ "` does not match encoded header coinbase `"
    ++ header.proposer ++ "`") (header.proposer = coinbase)
  Except.ensure ("template height " ++ Strings.decimal height.toNat ++
    " does not match encoded header height " ++ Strings.decimal header.height.toNat)
    (header.height = height)
  Except.ensure ("template timestamp " ++ Strings.decimal timestampMs.toNat ++
    " does not match encoded header timestamp " ++ Strings.decimal header.timestampMs.toNat)
    (header.timestampMs = timestampMs)
  checkOptionalBits value "versionBits" header.versionBits
  checkOptionalBits value "bits" header.bits
  let committedTarget ← (targetFromCompact header.bits).okOr
    "template header contains invalid compact difficulty bits"
  Except.ensure ("template target `" ++ Hex.encode target.val ++
    "` does not match compact header difficulty `" ++ Hex.encode committedTarget.val ++ "`")
    (target = committedTarget)

variable (blake3 : Bytes → Bytes32)

def fromRpc (value : Value) : Except String Job := do
  let templateId ← templateString value "templateId"
  let height ← templateNumber value "height"
  let timestampMs ← templateNumber value "timestampMs"
  let blob ← decodeHex "invalid template blob: " (← templateString value "blob")
  Except.ensure ("template blob is " ++ Strings.decimal blob.length ++
    " bytes; expected 8..=1048576") (8 ≤ blob.length ∧ blob.length ≤ maxBlobBytes)
  let offset ← templateNumber value "nonceOffset"
  let nonceOffset ← checkNonceOffset "node returned an incompatible nonce offset" blob offset.toNat
  let target ← checkBytes32
    (fun n => "template target is " ++ Strings.decimal n ++ " bytes, want 32")
    (← decodeHex "invalid template target: " (← templateString value "target"))
  let algo ← templateAlgo (← templateString value "powAlgo")
  let powKey ← decodeHex "invalid template powKey: " (← templateString value "powKey")
  Except.ensure ("template powKey is " ++ Strings.decimal powKey.length ++
    " bytes; SOV 0.1.99 requires 32") (powKey.length = 32)
  let coinbase := Strings.trim (← templateString value "proposer")
  Except.ensure "template proposer cannot be empty" (coinbase ≠ "")
  (validateAccountId coinbase).mapError fun error =>
    "template proposer is not a valid SOV account: " ++ error
  let header ← (BlockHeaderWire.tryFromSlice blob).mapError fun e =>
    "template blob is not a valid SOV block header: " ++ e.text
  checkHeader value header coinbase height timestampMs target
  let encodedTemplateId := templateIdForBlob blake3 blob
  Except.ensure ("template ID `" ++ templateId ++ "` does not match encoded header ID `" ++
    encodedTemplateId ++ "`") (encodedTemplateId = templateId)
  return { id := templateId, blob, nonceOffset := nonceOffset.val, target,
           blockTarget := some target, algo, powKey, height, timestampMs := some timestampMs,
           coinbase := some coinbase, trailingNonce := nonceOffset.property }

end Job
end XusMiner

import XusMiner.Job

namespace XusMiner
open ByteCodec

/-- The account to request: none for a blank user and for the placeholder label. -/
def requestedCoinbase (user : String) : Option String :=
  let user := Strings.trim user
  if user ≠ "" ∧ user ≠ "xus-miner" then some user else none

def validateRpcCoinbase (requested : Option String) (job : Job) : Except String PUnit := do
  let actual ← job.coinbase.okOr "node template did not disclose a coinbase/proposer"
  match requested with
  | none => return
  | some expected =>
    Except.ensure ("SECURITY: node template coinbase mismatch: requested `" ++ expected ++
      "`, but the block header pays `" ++ actual ++ "`; refusing to hash") (actual = expected)

namespace Job

/-- The bytes hashed for one nonce. -/
def spliced (job : Job) (nonce : UInt64) : Bytes :=
  splice job.blob job.nonceOffset (leBytes 8 nonce.toNat)

@[simp] theorem length_spliced (job : Job) (nonce : UInt64) :
    (job.spliced nonce).length = job.blob.length :=
  length_splice (by simp [job.trailingNonce])

/-- What an accepted template and its encoded header agree on. -/
structure Committed (blake3 : Bytes → Bytes32) (job : Job) (header : BlockHeaderWire) : Prop where
  decoded : BlockHeaderWire.tryFromSlice job.blob = .ok header
  height : header.height = job.height
  timestamp : job.timestampMs = some header.timestampMs
  proposer : job.coinbase = some header.proposer
  bits : targetFromCompact header.bits = some job.target
  blockTarget : job.blockTarget = some job.target
  id : job.id = templateIdForBlob blake3 job.blob

theorem agrees_of_checkHeader {value : Value} {header : BlockHeaderWire} {coinbase : String}
    {height timestampMs : UInt64} {target : Bytes32} {u : PUnit}
    (h : checkHeader value header coinbase height timestampMs target = .ok u) :
    header.proposer = coinbase ∧ header.height = height ∧ header.timestampMs = timestampMs ∧
      targetFromCompact header.bits = some target := by
  obtain ⟨_, hproposer, h⟩ := Except.bind_eq_ok h
  obtain ⟨_, hheight, h⟩ := Except.bind_eq_ok h
  obtain ⟨_, htimestamp, h⟩ := Except.bind_eq_ok h
  obtain ⟨_, _, h⟩ := Except.bind_eq_ok h
  obtain ⟨_, _, h⟩ := Except.bind_eq_ok h
  obtain ⟨committedTarget, hbits, h⟩ := Except.bind_eq_ok h
  have htarget := Except.ensure_eq_ok h
  subst htarget
  exact ⟨Except.ensure_eq_ok hproposer, Except.ensure_eq_ok hheight,
    Except.ensure_eq_ok htimestamp, Option.okOr_eq_ok hbits⟩

/-- Every check of the template read back: the fields of the job are those of its header. -/
theorem committed_of_fromRpc {blake3 : Bytes → Bytes32} {value : Value} {job : Job}
    (h : fromRpc blake3 value = .ok job) : ∃ header, Committed blake3 job header := by
  obtain ⟨templateId, -, h⟩ := Except.bind_eq_ok h
  obtain ⟨height, -, h⟩ := Except.bind_eq_ok h
  obtain ⟨timestampMs, -, h⟩ := Except.bind_eq_ok h
  obtain ⟨blobHex, -, h⟩ := Except.bind_eq_ok h
  obtain ⟨blob, -, h⟩ := Except.bind_eq_ok h
  obtain ⟨_, -, h⟩ := Except.bind_eq_ok h
  obtain ⟨offset, -, h⟩ := Except.bind_eq_ok h
  obtain ⟨nonceOffset, -, h⟩ := Except.bind_eq_ok h
  obtain ⟨targetHex, -, h⟩ := Except.bind_eq_ok h
  obtain ⟨targetBytes, -, h⟩ := Except.bind_eq_ok h
  obtain ⟨target, -, h⟩ := Except.bind_eq_ok h
  obtain ⟨algoName, -, h⟩ := Except.bind_eq_ok h
  obtain ⟨algo, -, h⟩ := Except.bind_eq_ok h
  obtain ⟨keyHex, -, h⟩ := Except.bind_eq_ok h
  obtain ⟨powKey, -, h⟩ := Except.bind_eq_ok h
  obtain ⟨_, -, h⟩ := Except.bind_eq_ok h
  obtain ⟨proposer, -, h⟩ := Except.bind_eq_ok h
  obtain ⟨_, -, h⟩ := Except.bind_eq_ok h
  obtain ⟨_, -, h⟩ := Except.bind_eq_ok h
  obtain ⟨header, hheader, h⟩ := Except.bind_eq_ok h
  obtain ⟨_, hagrees, h⟩ := Except.bind_eq_ok h
  obtain ⟨_, hid, h⟩ := Except.bind_eq_ok h
  obtain rfl := Except.ok.inj h
  obtain ⟨hproposer, hheight, htimestamp, hbits⟩ := agrees_of_checkHeader hagrees
  exact ⟨header,
    { decoded := Except.mapError_eq_ok hheader
      height := hheight
      timestamp := congrArg some htimestamp.symm
      proposer := congrArg some hproposer.symm
      bits := hbits
      blockTarget := rfl
      id := (Except.ensure_eq_ok hid).symm }⟩

end Job

theorem coinbase_of_validateRpcCoinbase {expected : String} {job : Job} {u : PUnit}
    (h : validateRpcCoinbase (some expected) job = .ok u) : job.coinbase = some expected := by
  obtain ⟨actual, hactual, h⟩ := Except.bind_eq_ok h
  rw [Option.okOr_eq_ok hactual, Except.ensure_eq_ok h]

/-- Whatever nonce a worker writes into an accepted template, the header it hashes
is the committed one with that nonce: it pays the same account at the same difficulty. -/
theorem direct_work_is_committed (blake3 : Bytes → Bytes32) (value : Value)
    (requested : Option String) (job : Job) (nonce : UInt64)
    (hjob : Job.fromRpc blake3 value = .ok job)
    (hcoinbase : validateRpcCoinbase requested job = .ok ()) :
    job.nonceOffset + 8 ≤ job.blob.length ∧ (job.spliced nonce).length = job.blob.length ∧
    ∃ header, BlockHeaderWire.tryFromSlice job.blob = .ok header ∧
      BlockHeaderWire.tryFromSlice (job.spliced nonce) = .ok { header with nonce } ∧
      header.height = job.height ∧ job.timestampMs = some header.timestampMs ∧
      job.coinbase = some header.proposer ∧ (∀ r, requested = some r → header.proposer = r) ∧
      targetFromCompact header.bits = some job.target ∧ job.blockTarget = some job.target ∧
      job.id = Hex.encode (blake3 job.blob).val := by
  obtain ⟨header, hc⟩ := Job.committed_of_fromRpc hjob
  have hoffset : job.nonceOffset = job.blob.length - 8 := by have := job.trailingNonce; omega
  obtain ⟨-, hsplice⟩ := BlockHeaderWire.tryFromSlice_splice_nonce hc.decoded nonce
  rw [← hoffset] at hsplice
  refine ⟨job.trailingNonce.le, job.length_spliced nonce, header, hc.decoded, hsplice, hc.height,
    hc.timestamp, hc.proposer, ?_, hc.bits, hc.blockTarget, hc.id⟩
  rintro r rfl
  have hr := coinbase_of_validateRpcCoinbase hcoinbase
  rw [hc.proposer] at hr
  exact Option.some.inj hr

/-- A template around the captured mainnet header at height 10232. -/
def capturedTemplate : Value := Value.json [
  ("templateId", .string "8a1b5154138c14d8bdc6062663809b689d6c3925d53ed634a5c805eea982ace7"),
  ("height", .nat 10232),
  ("timestampMs", .nat 1784757038603),
  ("blob", .string "f827000000000000f0f5d16f1ab1156090c67ecae16e2bf2000ad42f5d33a30660a9f928c12a97582d3adedff11b61f14c886e35afa036736dcd87a74d27b5c1510225d0f592e2132d3adedff11b61f14c886e35afa036736dcd87a74d27b5c1510225d0f592e2135316dc16a06107672c9d20613045329bb38720150901bd1b1b9fa2fd61ff06170b2ecf8b9f010000400000006133353735356433386136323664653162323538323039313361616462653832393962366666366138643033333864646566353239356337343434633165323400000000b1ad3e1e0000000000000000"),
  ("nonceOffset", .nat 220),
  ("target", .string "00003eadb1000000000000000000000000000000000000000000000000000000"),
  ("powAlgo", .string "RandomX"),
  ("powKey", .string "0000000000000000000000000000000000000000000000000000000000000001"),
  ("proposer", .string "a35755d38a626de1b25820913aadbe8299b6ff6a8d0338ddef5295c7444c1e24"),
  ("bits", .nat 507424177)]

/-- The digest that identifies the captured header. -/
def capturedDigest : Bytes32 :=
  ⟨[0x8a, 0x1b, 0x51, 0x54, 0x13, 0x8c, 0x14, 0xd8, 0xbd, 0xc6, 0x06, 0x26, 0x63, 0x80, 0x9b, 0x68,
    0x9d, 0x6c, 0x39, 0x25, 0xd5, 0x3e, 0xd6, 0x34, 0xa5, 0xc8, 0x05, 0xee, 0xa9, 0x82, 0xac, 0xe7],
    rfl⟩

def capturedAccount : String := "a35755d38a626de1b25820913aadbe8299b6ff6a8d0338ddef5295c7444c1e24"

theorem captured_template_accepted :
    (Job.fromRpc (fun _ => capturedDigest) capturedTemplate >>= fun job =>
      validateRpcCoinbase (some capturedAccount) job).isOk = true := by
  decide +kernel

theorem direct_work_is_committed_captured : ∃ job,
    Job.fromRpc (fun _ => capturedDigest) capturedTemplate = .ok job ∧
    ∃ header : BlockHeaderWire,
      BlockHeaderWire.tryFromSlice (job.spliced 7) = .ok { header with nonce := 7 } ∧
      header.proposer = capturedAccount ∧ header.height = job.height := by
  cases h : (Job.fromRpc (fun _ => capturedDigest) capturedTemplate >>= fun job =>
      validateRpcCoinbase (some capturedAccount) job) with
  | error e =>
    have hok := captured_template_accepted
    rw [h] at hok
    cases hok
  | ok u =>
    obtain ⟨job, hjob, hcoinbase⟩ := Except.bind_eq_ok h
    obtain ⟨-, -, header, -, hsplice, hheight, -, -, hproposer, -⟩ :=
      direct_work_is_committed _ _ _ job 7 hjob hcoinbase
    exact ⟨job, hjob, header, hsplice, hproposer _ rfl, hheight⟩

end XusMiner

import XusMiner.Library.Hex
import XusMiner.Library.Strings

namespace XusMiner
open ByteCodec

abbrev Bytes32 := {bs : Bytes // bs.length = 32}

/-- The block header in its declared field order, which is the order on the wire. -/
structure BlockHeaderWire where
  height : UInt64
  prevHash : Bytes32
  txRoot : Bytes32
  receiptsRoot : Bytes32
  stateRoot : Bytes32
  timestampMs : UInt64
  proposer : String
  versionBits : UInt32
  bits : UInt32
  nonce : UInt64
  deriving DecidableEq

namespace BlockHeaderWire

/-- Every field before the nonce. -/
abbrev Front := UInt64 × Bytes32 × Bytes32 × Bytes32 × Bytes32 × UInt64 × String × UInt32 × UInt32

def fields : Front × UInt64 ≃ BlockHeaderWire where
  toFun := fun ⟨⟨h, p, t, r, s, ts, a, v, b⟩, n⟩ => ⟨h, p, t, r, s, ts, a, v, b, n⟩
  invFun := fun ⟨h, p, t, r, s, ts, a, v, b, n⟩ => ⟨⟨h, p, t, r, s, ts, a, v, b⟩, n⟩
  left_inv _ := rfl
  right_inv _ := rfl

open Codec in
def frontCodec : Codec Front :=
  u64.seq ((raw 32).seq ((raw 32).seq ((raw 32).seq ((raw 32).seq
    (u64.seq (str.seq (u32.seq u32)))))))

def codec : Codec BlockHeaderWire := (frontCodec.seq Codec.u64).record fields

/-- `BlockHeaderWire::try_from_slice`: the whole blob is one header. -/
def tryFromSlice (blob : Bytes) : Except DecodeError BlockHeaderWire := codec.ofSlice blob

/-- Overwriting the trailing eight bytes of a header changes its nonce and nothing else. -/
theorem tryFromSlice_splice_nonce {blob : Bytes} {header : BlockHeaderWire}
    (h : tryFromSlice blob = .ok header) (nonce : UInt64) :
    8 ≤ blob.length ∧ tryFromSlice (splice blob (blob.length - 8) (leBytes 8 nonce.toNat)) =
      .ok { header with nonce } := by
  obtain ⟨he, rfl⟩ := (codec.ofSlice_eq_ok_iff _ _).mp h
  let front := frontCodec.encode (fields.symm header).1
  have hsplit (n : UInt64) :
      codec.encode { header with nonce := n } = front ++ leBytes 8 n.toNat := rfl
  have hlen : (codec.encode header).length = front.length + 8 := by
    have := congrArg List.length (hsplit header.nonce)
    simpa only [List.length_append, length_leBytes] using this
  refine ⟨by omega, ?_⟩
  rw [hlen, Nat.add_sub_cancel, show codec.encode header = front ++ leBytes 8 header.nonce.toNat
    from hsplit header.nonce, splice_tail _ _ _ (by simp), ← hsplit]
  exact (codec.ofSlice_eq_ok_iff _ _).mpr ⟨he, rfl⟩

end BlockHeaderWire

section
variable (blake3 : Bytes → Bytes32)

def templateIdForBlob (blob : Bytes) : String := Hex.encode (blake3 blob).val

end

def isSeparator (byte : UInt8) : Bool := byte == 45 || byte == 95 || byte == 46

def isLowercaseOrDigit (byte : UInt8) : Bool :=
  (97 ≤ byte && byte ≤ 122) || (48 ≤ byte && byte ≤ 57)

/-- The loop over the bytes, with the flag it carries. -/
def checkAccountBytes : Bool → Bytes → Except String Unit
  | _, [] => .ok ()
  | previousWasSeparator, byte :: rest =>
    if !(isLowercaseOrDigit byte || isSeparator byte) then
      .error "account contains a character outside a-z, 0-9, -, _, ."
    else if isSeparator byte && previousWasSeparator then
      .error "account contains adjacent separators"
    else checkAccountBytes (isSeparator byte) rest

def validateAccountId (account : String) : Except String Unit :=
  let bytes := utf8 account
  if ¬(2 ≤ bytes.length ∧ bytes.length ≤ 64) then
    .error ("account length " ++ Strings.decimal bytes.length ++ " is outside 2..=64 bytes")
  else if isSeparator (bytes.headD 0) || isSeparator (bytes.getLastD 0) then
    .error "account cannot start or end with a separator"
  else checkAccountBytes false bytes

end XusMiner

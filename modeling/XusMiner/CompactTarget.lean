import XusMiner.Wire
import XusMiner.Library.BigEndian

namespace XusMiner
open ByteCodec

def zeroTarget : Bytes32 := ⟨List.replicate 32 0, List.length_replicate⟩

def setByte (target : Bytes32) (index : ℕ) (byte : UInt8) : Bytes32 :=
  ⟨target.val.set index byte, by rw [List.length_set, target.property]⟩

/-- One turn of the placement loop: the byte lands `size` places before the end,
unless that place is outside of the array. -/
def placeByte (size : ℕ) (target : Bytes32) (entry : ℕ × UInt8) : Bytes32 :=
  if size ≤ 32 + entry.1 ∧ 32 + entry.1 - size < 32 then
    setByte target (32 + entry.1 - size) entry.2
  else target

/-- Bitcoin-style compact difficulty bits as a big-endian target. -/
def targetFromCompact (bits : UInt32) : Option Bytes32 :=
  let size := (bits >>> 24).toNat
  let mantissa := bits &&& 0x007fffff
  if bits &&& 0x00800000 ≠ 0 then none
  else if mantissa = 0 then some zeroTarget
  else if size > 34 ∨ (mantissa > 0xff ∧ size > 33) ∨ (mantissa > 0xffff ∧ size > 32) then none
  else if size ≤ 3 then
    let value := mantissa >>> UInt32.ofNat (8 * (3 - size))
    some (setByte (setByte (setByte zeroTarget 29 (value >>> 16).toUInt8)
      30 (value >>> 8).toUInt8) 31 value.toUInt8)
  else
    some ([(0, (mantissa >>> 16).toUInt8), (1, (mantissa >>> 8).toUInt8),
        (2, mantissa.toUInt8)].foldl
      (placeByte size) zeroTarget)

/-- The number that compact difficulty bits stand for: their mantissa, moved by
whole bytes, what falls below the point being dropped. -/
def compactValue (bits : UInt32) : ℕ :=
  let size := (bits >>> 24).toNat
  let mantissa := (bits &&& 0x007fffff).toNat
  if 3 ≤ size then mantissa * 256 ^ (size - 3) else mantissa / 256 ^ (3 - size)

theorem value_setByte {target : Bytes32} {index : ℕ} (byte : UInt8)
    (h : target.val[index]? = some 0) :
    ofBeBytes (setByte target index byte).val =
      ofBeBytes target.val + byte.toNat * 256 ^ (31 - index) := by
  rw [setByte, ofBeBytes_set byte h, target.property]

theorem setByte_ne {target : Bytes32} {index i : ℕ} {byte : UInt8} (h : index ≠ i) :
    (setByte target index byte).val[i]? = target.val[i]? :=
  List.getElem?_set_ne h

theorem zeroTarget_zero {i : ℕ} (h : i < 32) : zeroTarget.val[i]? = some 0 := by
  rw [zeroTarget, List.getElem?_replicate, if_pos h]

@[simp] theorem value_zeroTarget : ofBeBytes zeroTarget.val = 0 :=
  ofBeBytes_replicate_zero 32

/-- The places of the mantissa's bytes from the given one on are still zero. -/
def Unplaced (size : ℕ) (target : Bytes32) (offset : ℕ) : Prop :=
  ∀ i, 32 + offset ≤ i + size → i < 32 → target.val[i]? = some 0

/-- One turn of the placement loop adds the byte's weight: a byte whose place is
outside of the array has to be zero for that. -/
theorem value_placeByte {size offset : ℕ} {target : Bytes32} (byte : UInt8)
    (hsize : 3 < size) (hoffset : offset ≤ 2) (hfit : byte ≠ 0 → size ≤ 32 + offset)
    (h : Unplaced size target offset) :
    ofBeBytes (placeByte size target (offset, byte)).val =
        ofBeBytes target.val + byte.toNat * 256 ^ (size - 1 - offset) ∧
      Unplaced size (placeByte size target (offset, byte)) (offset + 1) := by
  unfold placeByte
  by_cases hplace : size ≤ 32 + offset
  · have hindex : size ≤ 32 + offset ∧ 32 + offset - size < 32 := ⟨hplace, by omega⟩
    have hweight : 31 - (32 + offset - size) = size - 1 - offset := by omega
    rw [if_pos hindex]
    refine ⟨?_, fun i hi hlt => ?_⟩
    · rw [value_setByte byte (h _ (by omega) hindex.2), hweight]
    · rw [setByte_ne (by omega)]
      exact h i (by omega) hlt
  · have hbyte : byte = 0 := not_not.mp (mt hfit hplace)
    rw [if_neg (mt And.left hplace), hbyte]
    exact ⟨by simp, fun i hi hlt => h i (by omega) hlt⟩

theorem toNat_highByte (mantissa : UInt32) :
    (mantissa >>> 16).toUInt8.toNat = mantissa.toNat / 2 ^ 16 % 256 := by
  simp [Nat.shiftRight_eq_div_pow]

theorem toNat_middleByte (mantissa : UInt32) :
    (mantissa >>> 8).toUInt8.toNat = mantissa.toNat / 2 ^ 8 % 256 := by
  simp [Nat.shiftRight_eq_div_pow]

/-- Three bytes, most significant first, spell the mantissa they were cut from. -/
theorem mantissa_eq (mantissa : UInt32) (h : mantissa.toNat < 2 ^ 24) :
    (mantissa >>> 16).toUInt8.toNat * 256 ^ 2 + (mantissa >>> 8).toUInt8.toNat * 256 +
      mantissa.toUInt8.toNat = mantissa.toNat := by
  have hlow : mantissa.toUInt8.toNat = mantissa.toNat % 256 := by simp
  rw [toNat_highByte, toNat_middleByte, hlow]
  omega

end XusMiner

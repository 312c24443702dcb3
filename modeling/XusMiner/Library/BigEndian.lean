import XusMiner.Library.ByteCodec

namespace ByteCodec

/-- The number that a byte string spells, most significant byte first. -/
def ofBeBytes : Bytes → ℕ
  | [] => 0
  | b :: bs => b.toNat * 256 ^ bs.length + ofBeBytes bs

theorem ofBeBytes_lt (bs : Bytes) : ofBeBytes bs < 256 ^ bs.length := by
  induction bs with
  | nil => simp [ofBeBytes]
  | cons b bs ih =>
    have hb : b.toNat + 1 ≤ 256 := b.toNat_lt
    have hmul := Nat.mul_le_mul_right (256 ^ bs.length) hb
    rw [add_mul, one_mul] at hmul
    rw [ofBeBytes, List.length_cons, pow_succ']
    omega

@[simp] theorem ofBeBytes_replicate_zero (n : ℕ) : ofBeBytes (List.replicate n 0) = 0 := by
  induction n with
  | zero => rfl
  | succ n ih => simp [List.replicate_succ, ofBeBytes, ih]

/-- A byte written over a zero adds its own weight to the number. -/
theorem ofBeBytes_set {bs : Bytes} {i : ℕ} (b : UInt8) (h : bs[i]? = some 0) :
    ofBeBytes (bs.set i b) = ofBeBytes bs + b.toNat * 256 ^ (bs.length - 1 - i) := by
  induction bs generalizing i with
  | nil => simp at h
  | cons c bs ih =>
    cases i with
    | zero =>
      have hc : c = 0 := by simpa using h
      simp [hc, ofBeBytes, Nat.add_comm]
    | succ i =>
      rw [List.getElem?_cons_succ] at h
      have hweight : (c :: bs).length - 1 - (i + 1) = bs.length - 1 - i := by
        rw [List.length_cons]; omega
      rw [List.set_cons_succ, ofBeBytes, ofBeBytes, List.length_set, ih h, hweight]
      omega

/-- Below the base, the higher digit decides and the lower one breaks ties. -/
theorem mul_add_lt_mul_add_iff {base x y u v : ℕ} (hu : u < base) (hv : v < base) :
    x * base + u < y * base + v ↔ x < y ∨ x = y ∧ u < v := by
  rcases lt_trichotomy x y with hlt | heq | hgt
  · have hmul := Nat.mul_le_mul_right base (Nat.succ_le_of_lt hlt)
    rw [Nat.succ_mul] at hmul
    omega
  · subst heq
    omega
  · have hmul := Nat.mul_le_mul_right base (Nat.succ_le_of_lt hgt)
    rw [Nat.succ_mul] at hmul
    omega

/-- Byte strings of one length are ordered as the numbers they spell. -/
theorem ofBeBytes_lt_iff {xs ys : Bytes} (h : xs.length = ys.length) :
    ofBeBytes xs < ofBeBytes ys ↔ xs < ys := by
  induction xs generalizing ys with
  | nil =>
    have hnil : ys = [] := List.length_eq_zero_iff.mp h.symm
    subst hnil
    simp
  | cons x xs ih =>
    match ys, h with
    | y :: ys, h =>
      have hlen : xs.length = ys.length := Nat.succ.inj h
      have hx : ofBeBytes xs < 256 ^ ys.length := hlen ▸ ofBeBytes_lt xs
      rw [List.cons_lt_cons_iff, ofBeBytes, ofBeBytes, hlen,
        mul_add_lt_mul_add_iff hx (ofBeBytes_lt ys), ih hlen, UInt8.lt_iff_toNat_lt,
        UInt8.toNat_inj]

theorem ofBeBytes_le_iff {xs ys : Bytes} (h : xs.length = ys.length) :
    ofBeBytes xs ≤ ofBeBytes ys ↔ xs ≤ ys := by
  rw [← Nat.not_lt, ofBeBytes_lt_iff h.symm, List.not_lt]

end ByteCodec

import XusMiner.Engine.Worker

namespace XusMiner.Engine
open ByteCodec

/-- The mantissa's bytes, placed in three turns, make up the number they stand for. -/
theorem value_placed {size : ℕ} {mantissa : UInt32} (hsize : 3 < size)
    (hmantissa : mantissa.toNat < 2 ^ 24) (h34 : size ≤ 34)
    (h33 : mantissa > 0xff → size ≤ 33) (h32 : mantissa > 0xffff → size ≤ 32) :
    ofBeBytes ([(0, (mantissa >>> 16).toUInt8), (1, (mantissa >>> 8).toUInt8),
      (2, mantissa.toUInt8)].foldl (placeByte size) zeroTarget).val =
      mantissa.toNat * 256 ^ (size - 3) := by
  have hfit0 : (mantissa >>> 16).toUInt8 ≠ 0 → size ≤ 32 + 0 := by
    intro hne
    have hbyte := mt UInt8.toNat_inj.mp hne
    rw [toNat_highByte, UInt8.toNat_zero] at hbyte
    apply h32
    apply UInt32.lt_iff_toNat_lt.mpr
    show 0xffff < mantissa.toNat
    omega
  have hfit1 : (mantissa >>> 8).toUInt8 ≠ 0 → size ≤ 32 + 1 := by
    intro hne
    have hbyte := mt UInt8.toNat_inj.mp hne
    rw [toNat_middleByte, UInt8.toNat_zero] at hbyte
    apply h33
    apply UInt32.lt_iff_toNat_lt.mpr
    show 0xff < mantissa.toNat
    omega
  have hstart : Unplaced size zeroTarget 0 := fun i _ hi => zeroTarget_zero hi
  obtain ⟨hvalue0, hplaced0⟩ := value_placeByte _ hsize (by omega) hfit0 hstart
  obtain ⟨hvalue1, hplaced1⟩ := value_placeByte _ hsize (by omega) hfit1 hplaced0
  obtain ⟨hvalue2, -⟩ := value_placeByte mantissa.toUInt8 hsize le_rfl (fun _ => h34) hplaced1
  have hpow1 : 256 ^ (size - 1 - 1) = 256 * 256 ^ (size - 3) := by
    rw [← pow_succ']; congr 1; omega
  have hpow0 : 256 ^ (size - 1 - 0) = 256 ^ 2 * 256 ^ (size - 3) := by
    rw [← pow_add]; congr 1; omega
  have hpow2 : size - 1 - 2 = size - 3 := by omega
  rw [List.foldl_cons, List.foldl_cons, List.foldl_cons, List.foldl_nil, hvalue2, hvalue1,
    hvalue0, value_zeroTarget, hpow0, hpow1, hpow2]
  conv_rhs => rw [← mantissa_eq mantissa hmantissa]
  ring

theorem value_small {size : ℕ} {mantissa : UInt32} (hsize : size ≤ 3)
    (hmantissa : mantissa.toNat < 2 ^ 24) :
    let value := mantissa >>> UInt32.ofNat (8 * (3 - size))
    ofBeBytes (setByte (setByte (setByte zeroTarget 29 (value >>> 16).toUInt8)
      30 (value >>> 8).toUInt8) 31 value.toUInt8).val = mantissa.toNat / 256 ^ (3 - size) := by
  intro value
  have hvalue : value.toNat = mantissa.toNat / 256 ^ (3 - size) := by
    have hmod : 8 * (3 - size) % 2 ^ 32 % 32 = 8 * (3 - size) := by omega
    rw [UInt32.toNat_shiftRight, UInt32.toNat_ofNat', hmod, Nat.shiftRight_eq_div_pow, pow_mul]
    norm_num
  have hlt : value.toNat < 2 ^ 24 := hvalue ▸ lt_of_le_of_lt (Nat.div_le_self _ _) hmantissa
  rw [value_setByte, value_setByte, value_setByte, value_zeroTarget, ← hvalue,
    ← mantissa_eq value hlt]
  · ring
  · exact zeroTarget_zero (by decide)
  · rw [setByte_ne (by decide)]
    exact zeroTarget_zero (by decide)
  · rw [setByte_ne (by decide), setByte_ne (by decide)]
    exact zeroTarget_zero (by decide)

/-- The three guards are exactly those of a number that 32 bytes cannot spell. -/
theorem overflow_of_guard {size : ℕ} {mantissa : UInt32} (hne : mantissa ≠ 0)
    (h : size > 34 ∨ (mantissa > 0xff ∧ size > 33) ∨ (mantissa > 0xffff ∧ size > 32)) :
    3 ≤ size ∧ 2 ^ 256 ≤ mantissa.toNat * 256 ^ (size - 3) := by
  -- a mantissa of at least this many bytes, pushed up by this many more
  have bound (low shift : ℕ) (hlow : 256 ^ low ≤ mantissa.toNat) (hshift : shift ≤ size - 3)
      (hsum : low + shift = 32) : 2 ^ 256 ≤ mantissa.toNat * 256 ^ (size - 3) := by
    calc 2 ^ 256 = 256 ^ low * 256 ^ shift := by rw [← pow_add, hsum]; norm_num
      _ ≤ mantissa.toNat * 256 ^ (size - 3) :=
        Nat.mul_le_mul hlow (Nat.pow_le_pow_right (by decide) hshift)
  rcases h with hsize | ⟨hbyte, hsize⟩ | ⟨hbytes, hsize⟩
  · have hpos : mantissa.toNat ≠ 0 := fun h0 => hne (UInt32.toNat_inj.mp h0)
    exact ⟨by omega, bound 0 32 (Nat.pos_of_ne_zero hpos) (by omega) rfl⟩
  · have hlow : 0xff < mantissa.toNat := UInt32.lt_iff_toNat_lt.mp hbyte
    exact ⟨by omega, bound 1 31 hlow (by omega) rfl⟩
  · have hlow : 0xffff < mantissa.toNat := UInt32.lt_iff_toNat_lt.mp hbytes
    exact ⟨by omega, bound 2 30 hlow (by omega) rfl⟩

theorem mantissa_lt (bits : UInt32) : (bits &&& 0x007fffff).toNat < 2 ^ 24 := by
  have hle : (bits &&& 0x007fffff).toNat ≤ 0x007fffff := by
    rw [UInt32.toNat_and]
    exact Nat.and_le_right
  exact lt_of_le_of_lt hle (by norm_num)

/-- Bits without a sign decode to the number they stand for, or not at all when
32 bytes cannot spell it. -/
theorem targetFromCompact_cases {bits : UInt32} (hsign : bits &&& 0x00800000 = 0) :
    (∃ target, targetFromCompact bits = some target ∧
      ofBeBytes target.val = compactValue bits) ∨
    targetFromCompact bits = none ∧ 2 ^ 256 ≤ compactValue bits := by
  have hmantissa := mantissa_lt bits
  unfold targetFromCompact compactValue
  dsimp only
  generalize (bits >>> 24).toNat = size
  generalize bits &&& 0x007fffff = mantissa at hmantissa ⊢
  rw [if_neg (not_not.mpr hsign)]
  by_cases hzero : mantissa = 0
  · subst hzero
    exact .inl ⟨zeroTarget, rfl, by simp⟩
  rw [if_neg hzero]
  by_cases hguard : size > 34 ∨ (mantissa > 0xff ∧ size > 33) ∨ (mantissa > 0xffff ∧ size > 32)
  · obtain ⟨hthree, hover⟩ := overflow_of_guard hzero hguard
    rw [if_pos hguard, if_pos hthree]
    exact .inr ⟨rfl, hover⟩
  rw [if_neg hguard]
  by_cases hsmall : size ≤ 3
  · rw [if_pos hsmall]
    refine .inl ⟨_, rfl, ?_⟩
    rw [value_small hsmall hmantissa]
    split_ifs with hthree
    · have hsize : size = 3 := le_antisymm hsmall hthree
      simp [hsize]
    · rfl
  · rw [if_neg hsmall, if_pos (by omega)]
    obtain ⟨h34, hbytes⟩ := not_or.mp hguard
    obtain ⟨h33, h32⟩ := not_or.mp hbytes
    exact .inl ⟨_, rfl, value_placed (lt_of_not_ge hsmall) hmantissa (not_lt.mp h34)
      (fun hgt => not_lt.mp fun h => h33 ⟨hgt, h⟩) (fun hgt => not_lt.mp fun h => h32 ⟨hgt, h⟩)⟩

/-- A worker goes on to submit a digest exactly when it is a share of the job
and the job is still the latest. -/
theorem test_readEndpoint_iff (s : State) (wk : Worker) (job : Job) (digest : Bytes32) :
    (wk.test s job digest).pc = .readEndpoint digest ↔
      digest.val ≤ job.target.val ∧ s.generation = wk.generation := by
  unfold Worker.test
  split_ifs with h
  · simp [h]
  · exact iff_of_false (by simp [Worker.advance]) h

/-- Compact difficulty bits decode to exactly the number they stand for. Signed bits decode
to nothing, and so do those that stand for 2^256 or more. A worker that mines a job with the
decoded target submits the digests whose big-endian value is at most that number. -/
theorem compact_difficulty_exact (bits : UInt32) :
    (bits &&& 0x00800000 ≠ 0 → targetFromCompact bits = none) ∧
    (bits &&& 0x00800000 = 0 →
      ((∃ target, targetFromCompact bits = some target) ↔ compactValue bits < 2 ^ 256) ∧
      ∀ target, targetFromCompact bits = some target →
        ofBeBytes target.val = compactValue bits ∧
        (∀ digest : Bytes32,
          digest.val ≤ target.val ↔ ofBeBytes digest.val ≤ compactValue bits) ∧
        ∀ (s : State) (wk : Worker) (job : Job) (digest : Bytes32), job.target = target →
          ((wk.test s job digest).pc = .readEndpoint digest ↔
            ofBeBytes digest.val ≤ compactValue bits ∧ s.generation = wk.generation)) := by
  refine ⟨fun hsign => by rw [targetFromCompact, if_pos hsign], fun hsign => ?_⟩
  have hvalue (target) (h : targetFromCompact bits = some target) :
      ofBeBytes target.val = compactValue bits := by
    rcases targetFromCompact_cases hsign with ⟨decoded, hsome, hvalue⟩ | ⟨hnone, -⟩
    · rw [Option.some.inj (h.symm.trans hsome), hvalue]
    · rw [hnone] at h
      cases h
  have hshare (target) (h : targetFromCompact bits = some target) (digest : Bytes32) :
      digest.val ≤ target.val ↔ ofBeBytes digest.val ≤ compactValue bits := by
    rw [← hvalue target h, ofBeBytes_le_iff (digest.property.trans target.property.symm)]
  refine ⟨⟨?_, fun hlt => ?_⟩, fun target h => ⟨hvalue target h, hshare target h, ?_⟩⟩
  · rintro ⟨target, h⟩
    calc compactValue bits = ofBeBytes target.val := (hvalue target h).symm
      _ < 256 ^ target.val.length := ofBeBytes_lt _
      _ = 2 ^ 256 := by rw [target.property]; norm_num
  · rcases targetFromCompact_cases hsign with ⟨target, hsome, -⟩ | ⟨-, hover⟩
    · exact ⟨target, hsome⟩
    · exact absurd hlt (not_lt.mpr hover)
  · intro s wk job digest htarget
    rw [test_readEndpoint_iff, htarget, hshare target h digest]

/-- The first bits whose number no longer fits, and the last ones below them. -/
example : targetFromCompact 0x21010000 = none ∧
    targetFromCompact 0x2100ffff =
      some ⟨0xff :: 0xff :: List.replicate 30 0, rfl⟩ := by decide

end XusMiner.Engine

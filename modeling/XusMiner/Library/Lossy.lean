import XusMiner.Library.Utf8

/-! What lossy decoding makes of the beginning of a text that goes on. -/

namespace Utf8
open ByteCodec ByteArray.utf8DecodeChar?

theorem forall_byte {p : UInt8 → Prop} (h : ∀ n < 256, p (UInt8.ofNat n)) (b : UInt8) : p b := by
  have hb := h b.toNat b.toNat_lt
  rwa [UInt8.ofNat_toNat] at hb

/-! ## Four bytes -/

theorem decodeChar_four {w x y z : UInt8} (h : parseFirstByte w = .threeMore) (rest : Bytes) :
    decodeChar (w :: x :: y :: z :: rest) = assemble₄ w x y z := by
  unfold decodeChar ByteArray.utf8DecodeChar?
  rw [dif_pos (by simp [ByteArray.size])]
  split
  case h_5 =>
    rw [dif_pos (by simp [ByteArray.size])]
    rfl
  all_goals
    next hfirst => exact nomatch h.symm.trans hfirst

/-- The bits that the first two of four bytes give. -/
def highBits (w x : UInt8) : UInt32 :=
  ((w &&& 0x07).toUInt32 <<< 18) ||| ((x &&& 0x3f).toUInt32 <<< 12)

theorem range_of_tailLength {w : UInt8} (h : tailLength w = 3) :
    240 ≤ w.toNat ∧ w.toNat ≤ 244 := by
  have hfirst : 0xF0 ≤ w ∧ w ≤ 0xF4 := by
    by_contra hnot
    rw [tailLength, if_neg hnot] at h
    split_ifs at h <;> cases h
  exact ⟨UInt8.le_iff_toNat_le.1 hfirst.1, UInt8.le_iff_toNat_le.1 hfirst.2⟩

theorem first_of_tailLength {w : UInt8} (h : tailLength w = 3) :
    w = 0xF0 ∨ w = 0xF1 ∨ w = 0xF2 ∨ w = 0xF3 ∨ w = 0xF4 := by
  obtain ⟨hge, hle⟩ := range_of_tailLength h
  simp only [← UInt8.toNat_inj]
  change w.toNat = 240 ∨ w.toNat = 241 ∨ w.toNat = 242 ∨ w.toNat = 243 ∨ w.toNat = 244
  omega

theorem parseFirstByte_of_tailLength {w : UInt8} (h : tailLength w = 3) :
    parseFirstByte w = .threeMore := by
  rcases first_of_tailLength h with rfl | rfl | rfl | rfl | rfl <;> rfl

theorem range_iff {low high b : UInt8} :
    (decide (low ≤ b) && decide (b ≤ high)) = true ↔
      low.toNat ≤ b.toNat ∧ b.toNat ≤ high.toNat := by
  rw [Bool.and_eq_true, decide_eq_true_eq, decide_eq_true_eq, UInt8.le_iff_toNat_le,
    UInt8.le_iff_toNat_le]

theorem isContinuation_iff {b : UInt8} :
    isContinuation b = true ↔ 128 ≤ b.toNat ∧ b.toNat ≤ 191 := range_iff

/-- The range of the second of four bytes, which the first one can narrow. -/
theorem range_of_isSecond {w : UInt8} (h : tailLength w = 3) {x : UInt8}
    (hx : isSecond w x = true) : 128 ≤ x.toNat ∧ x.toNat ≤ 191 ∧
      (w.toNat = 240 → 144 ≤ x.toNat) ∧ (w.toNat = 244 → x.toNat ≤ 143) := by
  rcases first_of_tailLength h with rfl | rfl | rfl | rfl | rfl
  · have hrange : 144 ≤ x.toNat ∧ x.toNat ≤ 191 := range_iff.1 hx
    exact ⟨by omega, hrange.2, fun _ => hrange.1, nofun⟩
  · obtain ⟨hge, hle⟩ := isContinuation_iff.1 hx
    exact ⟨hge, hle, nofun, nofun⟩
  · obtain ⟨hge, hle⟩ := isContinuation_iff.1 hx
    exact ⟨hge, hle, nofun, nofun⟩
  · obtain ⟨hge, hle⟩ := isContinuation_iff.1 hx
    exact ⟨hge, hle, nofun, nofun⟩
  · have hrange : 128 ≤ x.toNat ∧ x.toNat ≤ 143 := range_iff.1 hx
    exact ⟨hrange.1, by omega, nofun, fun _ => hrange.2⟩

theorem isContinuation_of_isSecond {w : UInt8} (h : tailLength w = 3) (x : UInt8)
    (hx : isSecond w x = true) : isContinuation x = true := by
  obtain ⟨hge, hle, -⟩ := range_of_isSecond h hx
  exact isContinuation_iff.2 ⟨hge, hle⟩

theorem isInvalidContinuationByte_eq_false (b : UInt8) :
    isContinuation b = true → isInvalidContinuationByte b = false := by
  revert b
  exact forall_byte (by decide +kernel)

/-- The bits of a continuation byte. -/
theorem toNat_lowBits (b : UInt8) : (b &&& 0x3f).toUInt32.toNat = b.toNat % 2 ^ 6 := by
  rw [UInt8.toNat_toUInt32, UInt8.toNat_and]
  exact Nat.and_two_pow_sub_one_eq_mod b.toNat 6

theorem lowBits_lt (b : UInt8) : (b &&& 0x3f).toUInt32.toNat < 2 ^ 6 := by
  rw [toNat_lowBits]
  exact Nat.mod_lt _ (by decide)

/-- A shift that loses no bits. -/
theorem shiftLeft_toNat {a b : UInt32} {k : ℕ} (ha : a.toNat < 2 ^ k)
    (hk : k + b.toNat ≤ 32) (hb : b.toNat < 32) : (a <<< b).toNat = a.toNat <<< b.toNat := by
  have hshift : a.toNat <<< b.toNat < 2 ^ 32 := by
    rw [Nat.shiftLeft_eq]
    calc a.toNat * 2 ^ b.toNat < 2 ^ k * 2 ^ b.toNat :=
        Nat.mul_lt_mul_of_pos_right ha (by positivity)
      _ = 2 ^ (k + b.toNat) := (pow_add 2 k b.toNat).symm
      _ ≤ 2 ^ 32 := Nat.pow_le_pow_right (by decide) hk
  rw [UInt32.toNat_shiftLeft, Nat.mod_eq_of_lt hb, Nat.mod_eq_of_lt hshift]

/-- The bits of the first two bytes, side by side. -/
theorem toNat_highBits (w x : UInt8) :
    (highBits w x).toNat = (w.toNat % 2 ^ 3 * 2 ^ 6 + x.toNat % 2 ^ 6) <<< 12 := by
  have hw : (w &&& 0x07).toUInt32.toNat = w.toNat % 2 ^ 3 := by
    rw [UInt8.toNat_toUInt32, UInt8.toNat_and]
    exact Nat.and_two_pow_sub_one_eq_mod w.toNat 3
  have hwlt : (w &&& 0x07).toUInt32.toNat < 2 ^ 3 := by
    rw [hw]
    exact Nat.mod_lt _ (by decide)
  rw [highBits, UInt32.toNat_or, shiftLeft_toNat hwlt (by decide) (by decide),
    shiftLeft_toNat (lowBits_lt x) (by decide) (by decide), hw, toNat_lowBits]
  change (w.toNat % 2 ^ 3) <<< 18 ||| (x.toNat % 2 ^ 6) <<< 12 = _
  have hlow : (x.toNat % 2 ^ 6) <<< 12 < 2 ^ 18 := by
    rw [Nat.shiftLeft_eq]
    omega
  rw [← Nat.shiftLeft_add_eq_or_of_lt hlow, Nat.shiftLeft_eq, Nat.shiftLeft_eq, Nat.shiftLeft_eq]
  ring

theorem highBits_range {w : UInt8} (h : tailLength w = 3) (x : UInt8) (hx : isSecond w x = true) :
    ∃ high, (highBits w x).toNat = high <<< 12 ∧ 0x10 ≤ high ∧ high ≤ 0x10F := by
  obtain ⟨hwge, hwle⟩ := range_of_tailLength h
  obtain ⟨hge, hle, hfirst, hlast⟩ := range_of_isSecond h hx
  refine ⟨_, toNat_highBits w x, ?_, ?_⟩
  · omega
  · omega

theorem lowBits_shiftLeft (b : UInt8) :
    ((b &&& 0x3f).toUInt32 <<< 6).toNat = (b &&& 0x3f).toUInt32.toNat <<< 6 :=
  shiftLeft_toNat (lowBits_lt b) (by decide) (by decide)

theorem toNat_assemble₄Unchecked (w x y z : UInt8) : (assemble₄Unchecked w x y z).toNat =
    (highBits w x).toNat |||
      ((y &&& 0x3f).toUInt32.toNat <<< 6 ||| (z &&& 0x3f).toUInt32.toNat) := by
  have hvalue : assemble₄Unchecked w x y z =
      highBits w x ||| (y &&& 0x3f).toUInt32 <<< 6 ||| (z &&& 0x3f).toUInt32 := rfl
  rw [hvalue, UInt32.toNat_or, UInt32.toNat_or, lowBits_shiftLeft, Nat.or_assoc]

/-- Four bytes that pass every check are a character. -/
theorem decodeChar_four_ne_none {w x y z : UInt8} (h : tailLength w = 3) (hx : isSecond w x = true)
    (hy : isContinuation y = true) (hz : isContinuation z = true) (rest : Bytes) :
    decodeChar (w :: x :: y :: z :: rest) ≠ none := by
  obtain ⟨high, hhigh, hle, hge⟩ := highBits_range h x hx
  have hlow : (y &&& 0x3f).toUInt32.toNat <<< 6 ||| (z &&& 0x3f).toUInt32.toNat < 2 ^ 12 := by
    apply Nat.or_lt_two_pow
    · rw [Nat.shiftLeft_eq]
      have hy := lowBits_lt y
      omega
    · exact (lowBits_lt z).trans (by decide)
  have hvalue := toNat_assemble₄Unchecked w x y z
  rw [hhigh, ← Nat.shiftLeft_add_eq_or_of_lt hlow, Nat.shiftLeft_eq] at hvalue
  generalize (y &&& 0x3f).toUInt32.toNat <<< 6 ||| (z &&& 0x3f).toUInt32.toNat = low at hlow hvalue
  have hx' := isInvalidContinuationByte_eq_false x (isContinuation_of_isSecond h x hx)
  have hy' := isInvalidContinuationByte_eq_false y hy
  have hz' := isInvalidContinuationByte_eq_false z hz
  rw [decodeChar_four (parseFirstByte_of_tailLength h), assemble₄, if_neg (by simp [hx', hy', hz'])]
  dsimp only
  rw [dif_neg, dif_neg]
  · exact Option.some_ne_none _
  · rw [UInt32.not_lt, UInt32.le_iff_toNat_le, hvalue]
    change high * 2 ^ 12 + low ≤ 0x10FFFF
    omega
  · rw [UInt32.not_lt, UInt32.le_iff_toNat_le, hvalue]
    change 0x10000 ≤ high * 2 ^ 12 + low
    omega

theorem tailLength_le (first : UInt8) : tailLength first ≤ 3 := by
  unfold tailLength
  split_ifs <;> decide

/-- A sequence that is replaced is no longer than what replaces it. -/
theorem illFormedLength_le {bs : Bytes} (h : decodeChar bs = none) : illFormedLength bs ≤ 3 := by
  rcases bs with _ | ⟨first, _ | ⟨second, rest⟩⟩
  · exact (by decide : 1 ≤ 3)
  · exact (by decide : 1 ≤ 3)
  · rw [illFormedLength]
    split_ifs with hsecond
    · have htail := tailLength_le first
      by_contra hlong
      have hwhile := (List.takeWhile_prefix isContinuation
        (l := rest.take (tailLength first - 1))).length_le
      have htake := List.length_take_le (tailLength first - 1) rest
      have hthree : tailLength first = 3 := by omega
      rw [hthree] at hlong
      rcases rest with _ | ⟨y, _ | ⟨z, rest⟩⟩
      · exact hlong (by simp)
      · have hone := (List.takeWhile_prefix isContinuation (l := [y])).length_le
        rw [List.length_singleton] at hone
        exact hlong (Nat.add_le_add_left hone 2)
      · have hboth : isContinuation y = true ∧ isContinuation z = true := by
          by_contra hnot
          apply hlong
          by_cases hy : isContinuation y = true
          · have hz : ¬isContinuation z = true := fun hz => hnot ⟨hy, hz⟩
            simp [hy, hz]
          · simp [hy]
        exact decodeChar_four_ne_none hthree hsecond.2 hboth.1 hboth.2 rest h
    · decide

/-! ## Texts that go on -/

theorem eq_of_decodeChar {bs : Bytes} {c : Char} (h : decodeChar bs = some c) :
    ∃ rest, bs = String.utf8EncodeChar c ++ rest := by
  obtain ⟨rest, hrest⟩ := ByteArray.exists_of_utf8DecodeChar?_eq_some h
  have hlist := congrArg (fun bytes => bytes.data.toList) hrest
  exact ⟨rest.data.toList, by simpa using hlist⟩

/-- Four bytes decide what the next character is. -/
theorem decodeChar_of_length {bs : Bytes} (h : 4 ≤ bs.length) (rest : Bytes) :
    decodeChar (bs ++ rest) = decodeChar bs := by
  cases hshort : decodeChar bs with
  | some c =>
    obtain ⟨left, rfl⟩ := eq_of_decodeChar hshort
    rw [List.append_assoc, decodeChar_append]
  | none =>
    cases hlong : decodeChar (bs ++ rest) with
    | none => rfl
    | some c =>
      exfalso
      obtain ⟨left, hleft⟩ := eq_of_decodeChar hlong
      have hsize : (String.utf8EncodeChar c).length ≤ bs.length := by
        rw [String.length_utf8EncodeChar]
        exact c.utf8Size_le_four.trans h
      have hprefix : String.utf8EncodeChar c <+: bs :=
        List.prefix_of_prefix_length_le ⟨left, hleft.symm⟩ (List.prefix_append bs rest) hsize
      obtain ⟨tail, rfl⟩ := hprefix
      rw [decodeChar_append] at hshort
      cases hshort

theorem illFormedLength_of_length {bs : Bytes} (h : 4 ≤ bs.length) (rest : Bytes) :
    illFormedLength (bs ++ rest) = illFormedLength bs := by
  rcases bs with _ | ⟨first, _ | ⟨second, bs⟩⟩
  · cases h
  · simp at h
  · have htail := tailLength_le first
    have hroom : tailLength first - 1 ≤ bs.length := by
      simp only [List.length_cons] at h
      omega
    rw [List.cons_append, List.cons_append, illFormedLength, illFormedLength,
      List.take_append_of_le_length hroom]

theorem lossyChars_drop (skip : ℕ) (bs : Bytes) :
    lossyChars skip bs = lossyChars 0 (bs.drop skip) := by
  induction bs generalizing skip with
  | nil => cases skip <;> rfl
  | cons b bs ih =>
    cases skip with
    | zero => rfl
    | succ skip => exact ih skip

theorem illFormedLength_pos (bs : Bytes) : 0 < illFormedLength bs := by
  rcases bs with _ | ⟨first, _ | ⟨second, rest⟩⟩
  · exact Nat.one_pos
  · exact Nat.one_pos
  · rw [illFormedLength]
    split_ifs
    · omega
    · exact Nat.one_pos

theorem lossyChars_eq {bs : Bytes} (hne : bs ≠ []) :
    lossyChars 0 bs = match decodeChar bs with
      | some c => c :: lossyChars 0 (bs.drop c.utf8Size)
      | none => replacement :: lossyChars 0 (bs.drop (illFormedLength bs)) := by
  obtain ⟨b, bs, rfl⟩ := List.exists_cons_of_ne_nil hne
  have hskip : ∀ {skip : ℕ}, 0 < skip →
      lossyChars (skip - 1) bs = lossyChars 0 ((b :: bs).drop skip) := by
    intro skip hskip
    obtain ⟨skip, rfl⟩ := Nat.exists_eq_succ_of_ne_zero hskip.ne'
    exact lossyChars_drop skip bs
  rw [lossyChars]
  cases decodeChar (b :: bs) with
  | some c => exact congrArg _ (hskip c.utf8Size_pos)
  | none => exact congrArg _ (hskip (illFormedLength_pos _))

/-- The next character of a text takes as many bytes as are passed over for it, or more; when the
text goes on it stays the same. -/
theorem lossyChars_cons {bs : Bytes} (hne : bs ≠ []) :
    ∃ c skip, lossyChars 0 bs = c :: lossyChars 0 (bs.drop skip) ∧ 0 < skip ∧ skip ≤ c.utf8Size ∧
      ∀ rest, 4 ≤ bs.length →
        lossyChars 0 (bs ++ rest) = c :: lossyChars 0 ((bs ++ rest).drop skip) := by
  have heq := lossyChars_eq hne
  have hrest : ∀ rest, bs ++ rest ≠ [] := fun rest h => hne (List.append_eq_nil_iff.1 h).1
  cases hdecode : decodeChar bs with
  | some c =>
    rw [hdecode] at heq
    refine ⟨c, c.utf8Size, heq, c.utf8Size_pos, le_rfl, fun rest hlength => ?_⟩
    rw [lossyChars_eq (hrest rest), decodeChar_of_length hlength, hdecode]
  | none =>
    rw [hdecode] at heq
    refine ⟨replacement, illFormedLength bs, heq, illFormedLength_pos bs,
      illFormedLength_le hdecode, fun rest hlength => ?_⟩
    rw [lossyChars_eq (hrest rest), decodeChar_of_length hlength, hdecode]
    dsimp only
    rw [illFormedLength_of_length hlength]

/-- What is kept of a text stays clear of where it was cut off. -/
theorem takeBytes_lossyChars {budget : ℕ} {bs : Bytes} (h : budget + 3 ≤ bs.length) (rest : Bytes) :
    takeBytes budget (lossyChars 0 bs) <+: lossyChars 0 (bs ++ rest) := by
  induction hlength : bs.length using Nat.strong_induction_on generalizing bs budget with
  | _ length ih =>
    have hne : bs ≠ [] := by
      rintro rfl
      simp at h
    obtain ⟨c, skip, heq, hpos, hskip, hgoes⟩ := lossyChars_cons hne
    rw [heq, takeBytes]
    by_cases hfits : c.utf8Size ≤ budget
    · have hroom : skip ≤ bs.length := by omega
      rw [if_pos hfits, hgoes rest (by omega), List.drop_append_of_le_length hroom,
        List.cons_prefix_cons]
      refine ⟨rfl, ih _ ?_ ?_ rfl⟩
      · rw [List.length_drop]
        omega
      · rw [List.length_drop]
        omega
    · rw [if_neg hfits]
      exact List.nil_prefix

theorem byteSize_takeBytes (budget : ℕ) (cs : List Char) :
    byteSize (takeBytes budget cs) ≤ budget := by
  induction cs generalizing budget with
  | nil => exact Nat.zero_le _
  | cons c cs ih =>
    rw [takeBytes]
    split_ifs with hfits
    · have hrest := ih (budget - c.utf8Size)
      rw [byteSize] at hrest ⊢
      rw [List.map_cons, List.sum_cons]
      omega
    · exact Nat.zero_le _

end Utf8

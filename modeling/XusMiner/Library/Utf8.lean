import XusMiner.Library.ByteCodec

/-! Decoding that replaces what is ill-formed, and cutting a text to a number of bytes. -/

namespace Utf8
open ByteCodec

def replacement : Char := Char.ofNat 0xFFFD

def isContinuation (b : UInt8) : Bool := 0x80 ≤ b && b ≤ 0xBF

/-- The bytes a sequence needs after its first. -/
def tailLength (first : UInt8) : ℕ :=
  if 0xC2 ≤ first ∧ first ≤ 0xDF then 1
  else if 0xE0 ≤ first ∧ first ≤ 0xEF then 2
  else if 0xF0 ≤ first ∧ first ≤ 0xF4 then 3
  else 0

/-- Whether a byte can come second: the ranges leave out overlong forms, surrogates and what is
above the last code point. -/
def isSecond (first b : UInt8) : Bool :=
  if first = 0xE0 then 0xA0 ≤ b && b ≤ 0xBF
  else if first = 0xED then 0x80 ≤ b && b ≤ 0x9F
  else if first = 0xF0 then 0x90 ≤ b && b ≤ 0xBF
  else if first = 0xF4 then 0x80 ≤ b && b ≤ 0x8F
  else isContinuation b

/-- The length of the maximal ill-formed sequence at the start. -/
def illFormedLength : Bytes → ℕ
  | first :: second :: rest =>
    if 0 < tailLength first ∧ isSecond first second then
      2 + ((rest.take (tailLength first - 1)).takeWhile isContinuation).length
    else 1
  | _ => 1

def decodeChar (bs : Bytes) : Option Char := (⟨bs.toArray⟩ : ByteArray).utf8DecodeChar? 0

/-- `skip` counts the bytes of the last character that are still to be passed over. -/
def lossyChars : ℕ → Bytes → List Char
  | _, [] => []
  | skip + 1, _ :: bs => lossyChars skip bs
  | 0, b :: bs =>
    match decodeChar (b :: bs) with
    | some c => c :: lossyChars (c.utf8Size - 1) bs
    | none => replacement :: lossyChars (illFormedLength (b :: bs) - 1) bs

/-- `String::from_utf8_lossy`. -/
def fromUtf8Lossy (bs : Bytes) : String := String.ofList (lossyChars 0 bs)

theorem utf8_eq_flatMap (s : String) : utf8 s = s.toList.flatMap String.utf8EncodeChar := by
  rw [← utf8_ofList, String.ofList_toList]

theorem length_utf8 (s : String) : (utf8 s).length = s.utf8ByteSize := by
  simp [utf8]

theorem length_le_flatMap {α β : Type} {f : α → List β} (h : ∀ a, 0 < (f a).length) (as : List α) :
    as.length ≤ (as.flatMap f).length := by
  induction as with
  | nil => exact le_rfl
  | cons a as ih =>
    have ha := h a
    rw [List.flatMap_cons, List.length_append, List.length_cons]
    omega

theorem decodeChar_append (c : Char) (bs : Bytes) :
    decodeChar (String.utf8EncodeChar c ++ bs) = some c := by
  have h := ByteArray.utf8DecodeChar?_utf8EncodeChar_append (b := ⟨bs.toArray⟩) (c := c)
  unfold decodeChar
  rw [← h]
  congr 1
  ext1
  simp

/-- A one-byte character's byte occurs in no other character. -/
theorem eq_of_mem_encodeChar {a c : Char} {b : UInt8} (ha : String.utf8EncodeChar a = [b])
    (h : b ∈ String.utf8EncodeChar c) : c = a := by
  obtain ⟨i, hi, hb⟩ := List.getElem_of_mem h
  have hfirst : b.IsUTF8FirstByte := by
    have hzero := @UInt8.isUTF8FirstByte_getElem_zero_utf8EncodeChar a
    simpa [ha] using hzero
  rw [← hb, UInt8.isUTF8FirstByte_getElem_utf8EncodeChar] at hfirst
  subst hfirst
  rcases hc : String.utf8EncodeChar c with _ | ⟨first, tail⟩
  · simp [hc] at h
  · simp only [hc, List.getElem_cons_zero] at hb
    have hchar := decodeChar_append c []
    have hother := decodeChar_append a tail
    rw [List.append_nil, hc, hb] at hchar
    rw [ha, List.singleton_append, hchar] at hother
    exact Option.some.inj hother

theorem mem_utf8 {a : Char} {b : UInt8} (ha : String.utf8EncodeChar a = [b]) {s : String}
    (h : b ∈ utf8 s) : a ∈ s.toList := by
  rw [utf8_eq_flatMap] at h
  obtain ⟨c, hc, hb⟩ := List.mem_flatMap.1 h
  exact eq_of_mem_encodeChar ha hb ▸ hc

theorem encodeChar_ascii {c : Char} (h : c.toNat < 128) :
    String.utf8EncodeChar c = [c.toUInt8] := by
  have hle : c.val.toNat ≤ 127 := Nat.le_of_lt_succ h
  exact String.utf8EncodeChar_eq_singleton (if_pos (UInt32.le_iff_toNat_le.2 hle))

theorem toNat_ofUInt8 (b : UInt8) : (Char.ofUInt8 b).toNat = b.toNat := UInt8.toNat_toUInt32 b

/-- A byte below 128 occurs in the one character that it is the code of. -/
theorem eq_of_ascii_mem {b : UInt8} {c : Char} (hb : b < 128) (h : b ∈ String.utf8EncodeChar c) :
    c = Char.ofUInt8 b := by
  have hlt : (Char.ofUInt8 b).toNat < 128 := by
    rw [toNat_ofUInt8]
    exact UInt8.lt_iff_toNat_lt.1 hb
  refine eq_of_mem_encodeChar ?_ h
  rw [encodeChar_ascii hlt]
  exact congrArg (fun code => [code]) (UInt8.toUInt8_toUInt32 b)

theorem utf8_of_ascii {s : String} (h : ∀ c ∈ s.toList, c.toNat < 128) :
    utf8 s = s.toList.map Char.toUInt8 := by
  rw [utf8_eq_flatMap]
  generalize s.toList = cs at h
  induction cs with
  | nil => rfl
  | cons c cs ih =>
    rw [List.forall_mem_cons] at h
    rw [List.flatMap_cons, encodeChar_ascii h.1, ih h.2]
    rfl

theorem ofUInt8_toUInt8 {c : Char} (h : c.toNat < 128) : Char.ofUInt8 c.toUInt8 = c := by
  have hcode : (Char.ofUInt8 c.toUInt8).toNat = c.toNat :=
    calc (Char.ofUInt8 c.toUInt8).toNat
        = c.toUInt8.toNat := toNat_ofUInt8 _
      _ = c.toNat % 2 ^ 8 := UInt32.toNat_toUInt8 _
      _ = c.toNat := Nat.mod_eq_of_lt (h.trans (by decide))
  exact Char.toNat_inj.1 hcode

theorem ascii_of_utf8 {s : String} (h : ∀ b ∈ utf8 s, b < 128) :
    ∀ c ∈ s.toList, c.toNat < 128 := by
  intro c hc
  obtain ⟨b, hb⟩ := List.exists_mem_of_ne_nil _ (String.utf8EncodeChar_ne_nil (c := c))
  have hlt : b < 128 := h b (utf8_eq_flatMap s ▸ List.mem_flatMap.2 ⟨c, hc, hb⟩)
  rw [eq_of_ascii_mem hlt hb, toNat_ofUInt8]
  exact UInt8.lt_iff_toNat_lt.1 hlt

theorem lossyChars_skip (passed bs : Bytes) :
    lossyChars passed.length (passed ++ bs) = lossyChars 0 bs := by
  induction passed with
  | nil => rfl
  | cons b passed ih => exact ih

theorem lossyChars_append (c : Char) (bs : Bytes) :
    lossyChars 0 (String.utf8EncodeChar c ++ bs) = c :: lossyChars 0 bs := by
  have hdecode := decodeChar_append c bs
  have hlength := String.length_utf8EncodeChar c
  rcases hc : String.utf8EncodeChar c with _ | ⟨b, tail⟩
  · rw [hc] at hlength
    exact absurd hlength c.utf8Size_pos.ne
  · rw [hc] at hdecode hlength
    have htail : c.utf8Size - 1 = tail.length := by
      rw [← hlength, List.length_cons, Nat.add_sub_cancel]
    rw [List.cons_append] at hdecode ⊢
    rw [lossyChars, hdecode]
    simp only
    rw [htail, lossyChars_skip]

/-- Well-formed text is decoded as it is. -/
theorem fromUtf8Lossy_utf8 (s : String) : fromUtf8Lossy (utf8 s) = s := by
  have h : ∀ cs : List Char, lossyChars 0 (cs.flatMap String.utf8EncodeChar) = cs := by
    intro cs
    induction cs with
    | nil => rfl
    | cons c cs ih => rw [List.flatMap_cons, lossyChars_append, ih]
  rw [fromUtf8Lossy, utf8_eq_flatMap, h, String.ofList_toList]

example : fromUtf8Lossy [0x61, 0xE2, 0x82, 0x62, 0xC3, 0xA9] = "a\uFFFDbé" := by decide

/-- The longest prefix of at most `budget` bytes that ends at a character boundary. -/
def takeBytes : ℕ → List Char → List Char
  | _, [] => []
  | budget, c :: cs =>
    if c.utf8Size ≤ budget then c :: takeBytes (budget - c.utf8Size) cs else []

/-- The bytes a text takes. -/
def byteSize (cs : List Char) : ℕ := (cs.map Char.utf8Size).sum

theorem byteSize_append (cs ds : List Char) : byteSize (cs ++ ds) = byteSize cs + byteSize ds := by
  simp only [byteSize, List.map_append, List.sum_append]

theorem byteSize_flatMap {α : Type} (f : α → List Char) (xs : List α) :
    byteSize (xs.flatMap f) = (xs.map fun x => byteSize (f x)).sum := by
  induction xs with
  | nil => rfl
  | cons x xs ih => rw [List.flatMap_cons, byteSize_append, ih, List.map_cons, List.sum_cons]

theorem length_utf8_ofList (cs : List Char) : (utf8 (String.ofList cs)).length = byteSize cs := by
  rw [utf8_ofList, byteSize]
  induction cs with
  | nil => rfl
  | cons c cs ih =>
    rw [List.flatMap_cons, List.length_append, String.length_utf8EncodeChar, ih, List.map_cons,
      List.sum_cons]

/-- A text of ASCII characters has a byte for each. -/
theorem byteSize_of_ascii {cs : List Char} (h : ∀ c ∈ cs, c.utf8Size = 1) :
    byteSize cs = cs.length := by
  induction cs with
  | nil => rfl
  | cons c cs ih =>
    have hrest := ih fun d hd => h d (List.mem_cons_of_mem c hd)
    have hc := h c List.mem_cons_self
    rw [byteSize] at hrest ⊢
    rw [List.map_cons, List.sum_cons, hrest, hc, List.length_cons, Nat.add_comm]

end Utf8

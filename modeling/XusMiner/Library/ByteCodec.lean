import Mathlib.Tactic

namespace Except
variable {ε α β : Type}

/-- A successful sequence of two steps succeeded in each of them. -/
theorem bind_eq_ok {x : Except ε α} {f : α → Except ε β} {b : β} (h : x >>= f = .ok b) :
    ∃ a, x = .ok a ∧ f a = .ok b := by
  cases x with
  | error e => cases h
  | ok a => exact ⟨a, rfl, h⟩

theorem map_eq_ok {x : Except ε α} {f : α → β} {b : β} (h : x.map f = .ok b) :
    ∃ a, x = .ok a ∧ f a = b := by
  cases x with
  | error e => cases h
  | ok a => exact ⟨a, rfl, ok.inj h⟩

/-- A guard: the error unless the condition holds. -/
def ensure (e : ε) (p : Prop) [Decidable p] : Except ε PUnit :=
  if p then .ok () else .error e

theorem ensure_eq_ok {e : ε} {p : Prop} [Decidable p] {u : PUnit} (h : ensure e p = .ok u) : p := by
  unfold ensure at h
  split_ifs at h with hp
  exact hp

theorem mapError_eq_ok {ε' : Type} {f : ε → ε'} {x : Except ε α} {a : α}
    (h : x.mapError f = .ok a) : x = .ok a := by
  cases x with
  | error e => cases h
  | ok b => exact congrArg ok (ok.inj h)

end Except

namespace Option
variable {ε α : Type}

def okOr (e : ε) : Option α → Except ε α
  | some a => .ok a
  | none => .error e

theorem okOr_eq_ok {e : ε} {o : Option α} {a : α} (h : o.okOr e = .ok a) : o = some a := by
  cases o with
  | none => cases h
  | some b => exact congrArg some (Except.ok.inj h)

end Option

namespace ByteCodec

abbrev Bytes := List UInt8

/-- The `w` least significant bytes of `n`, least significant first. -/
def leBytes : ℕ → ℕ → Bytes
  | 0, _ => []
  | w + 1, n => UInt8.ofNat n :: leBytes w (n / 256)

def ofLeBytes : Bytes → ℕ
  | [] => 0
  | b :: bs => b.toNat + 256 * ofLeBytes bs

@[simp] theorem length_leBytes (w n : ℕ) : (leBytes w n).length = w := by
  induction w generalizing n with
  | zero => rfl
  | succ w ih => simp [leBytes, ih]

theorem ofLeBytes_lt (bs : Bytes) : ofLeBytes bs < 256 ^ bs.length := by
  induction bs with
  | nil => simp [ofLeBytes]
  | cons b bs ih =>
    have hb : b.toNat < 256 := b.toNat_lt
    rw [ofLeBytes, List.length_cons, pow_succ]
    omega

theorem ofLeBytes_leBytes (w n : ℕ) : ofLeBytes (leBytes w n) = n % 256 ^ w := by
  induction w generalizing n with
  | zero => simp [leBytes, ofLeBytes, Nat.mod_one]
  | succ w ih =>
    rw [leBytes, ofLeBytes, ih, pow_succ', Nat.mod_mul]
    simp

theorem leBytes_ofLeBytes (bs : Bytes) : leBytes bs.length (ofLeBytes bs) = bs := by
  induction bs with
  | nil => rfl
  | cons b bs ih =>
    have hb : b.toNat < 256 := b.toNat_lt
    have hdiv : (b.toNat + 256 * ofLeBytes bs) / 256 = ofLeBytes bs := by omega
    have hhead : UInt8.ofNat (b.toNat + 256 * ofLeBytes bs) = b := by
      apply UInt8.toNat_inj.mp
      simp only [UInt8.toNat_ofNat']
      omega
    rw [List.length_cons, leBytes, ofLeBytes, hdiv, ih, hhead]

/-- Overwriting `patch.length` bytes in place, from `offset` on. -/
def splice (bs : Bytes) (offset : ℕ) (patch : Bytes) : Bytes :=
  bs.take offset ++ patch ++ bs.drop (offset + patch.length)

theorem length_splice {bs patch : Bytes} {offset : ℕ} (h : offset + patch.length ≤ bs.length) :
    (splice bs offset patch).length = bs.length := by
  simp only [splice, List.length_append, List.length_take, List.length_drop]
  omega

theorem splice_tail (front old patch : Bytes) (h : old.length = patch.length) :
    splice (front ++ old) front.length patch = front ++ patch := by
  simp [splice, ← h]

/-- A second patch of the same place hides the first. -/
theorem splice_splice {bs p q : Bytes} {offset : ℕ} (hlen : p.length = q.length)
    (h : offset + p.length ≤ bs.length) :
    splice (splice bs offset p) offset q = splice bs offset q := by
  have ht : (bs.take offset).length = offset := by rw [List.length_take]; omega
  unfold splice
  rw [List.append_assoc (bs.take offset), List.take_left' ht, ← List.append_assoc, ← hlen,
    List.drop_left' (by rw [List.length_append, ht])]

/-- Why a byte string is refused by a decoder. -/
inductive DecodeError
  | unexpectedEnd
  | invalidUtf8
  | trailingBytes
  deriving DecidableEq, Repr

def DecodeError.text : DecodeError → String
  | .unexpectedEnd => "Unexpected length of input"
  | .invalidUtf8 => "invalid utf-8 sequence"
  | .trailingBytes => "Not all bytes read"

/-- A prefix decoder with its encoder. The two laws make the encoding of an
encodable value the only byte string that decodes to it. -/
structure Codec (α : Type) where
  encode : α → Bytes
  decode : Bytes → Except DecodeError (α × Bytes)
  Encodable : α → Prop
  decode_encode : ∀ a rest, Encodable a → decode (encode a ++ rest) = .ok (a, rest)
  encode_of_decode : ∀ {bs a rest}, decode bs = .ok (a, rest) → Encodable a ∧ bs = encode a ++ rest

/-- The first `n` bytes and what follows them. -/
def splitBytes (n : ℕ) (bs : Bytes) : Except DecodeError (Bytes × Bytes) :=
  if n ≤ bs.length then .ok (bs.take n, bs.drop n) else .error .unexpectedEnd

theorem splitBytes_append {n : ℕ} {bs : Bytes} (rest : Bytes) (h : bs.length = n) :
    splitBytes n (bs ++ rest) = .ok (bs, rest) := by
  subst h
  simp [splitBytes]

theorem splitBytes_eq_ok {n : ℕ} {bs front rest : Bytes}
    (h : splitBytes n bs = .ok (front, rest)) : front.length = n ∧ bs = front ++ rest := by
  unfold splitBytes at h
  split_ifs at h with hn
  obtain ⟨rfl, rfl⟩ := Prod.mk.inj (Except.ok.inj h)
  exact ⟨by simp [hn], (List.take_append_drop n bs).symm⟩

/-- The bytes of a string. -/
def utf8 (s : String) : Bytes := s.toByteArray.data.toList

theorem utf8_ofList (cs : List Char) :
    utf8 (String.ofList cs) = cs.flatMap String.utf8EncodeChar := by
  simp [utf8, List.utf8Encode]

def ofUtf8 (bs : Bytes) : Except DecodeError String :=
  match String.fromUTF8? ⟨bs.toArray⟩ with
  | some s => .ok s
  | none => .error .invalidUtf8

theorem ofUtf8_utf8 (s : String) : ofUtf8 (utf8 s) = .ok s := by
  have h : String.fromUTF8? s.toByteArray = some s := by
    unfold String.fromUTF8?
    rw [dif_pos s.isValidUTF8]
    rfl
  simp only [ofUtf8, utf8, Array.toArray_toList]
  rw [h]

theorem utf8_of_ofUtf8 {bs : Bytes} {s : String} (h : ofUtf8 bs = .ok s) : utf8 s = bs := by
  unfold ofUtf8 String.fromUTF8? at h
  split at h
  · next t ht =>
    split_ifs at ht with hv
    obtain rfl := Option.some.inj ht
    obtain rfl := Except.ok.inj h
    simp [utf8, String.fromUTF8]
  · cases h

namespace Codec

/-- Fixed-width little-endian integers, through any type in bijection with them. -/
def uint (w : ℕ) (α : Type) (toNat : α → ℕ) (ofNat : ℕ → α)
    (hlt : ∀ a, toNat a < 256 ^ w) (hinv : ∀ a, ofNat (toNat a) = a)
    (hnat : ∀ n, n < 256 ^ w → toNat (ofNat n) = n) : Codec α where
  encode a := leBytes w (toNat a)
  decode bs := (splitBytes w bs).map fun p => (ofNat (ofLeBytes p.1), p.2)
  Encodable _ := True
  decode_encode a rest _ := by
    rw [splitBytes_append rest (length_leBytes w (toNat a))]
    simp [Except.map, ofLeBytes_leBytes, Nat.mod_eq_of_lt (hlt a), hinv]
  encode_of_decode {bs a rest} h := by
    obtain ⟨⟨front, tail⟩, hs, he⟩ := Except.map_eq_ok h
    obtain ⟨hlen, hbs⟩ := splitBytes_eq_ok hs
    obtain ⟨rfl, rfl⟩ := Prod.mk.inj he
    refine ⟨trivial, ?_⟩
    rw [hnat _ (hlen ▸ ofLeBytes_lt front), ← hlen, leBytes_ofLeBytes]
    exact hbs

def u32 : Codec UInt32 :=
  uint 4 UInt32 UInt32.toNat UInt32.ofNat (fun a => a.toNat_lt) (fun _ => UInt32.ofNat_toNat)
    (fun _ h => UInt32.toNat_ofNat_of_lt' h)

def u64 : Codec UInt64 :=
  uint 8 UInt64 UInt64.toNat UInt64.ofNat (fun a => a.toNat_lt) (fun _ => UInt64.ofNat_toNat)
    (fun _ h => UInt64.toNat_ofNat_of_lt' h)

/-- A raw array of `n` bytes. -/
def raw (n : ℕ) : Codec {bs : Bytes // bs.length = n} where
  encode a := a.val
  decode bs :=
    match h : splitBytes n bs with
    | .ok p => .ok (⟨p.1, (splitBytes_eq_ok h).1⟩, p.2)
    | .error e => .error e
  Encodable _ := True
  decode_encode a rest _ := by
    have hs := splitBytes_append rest a.property
    split
    · next p hp =>
      obtain rfl := Except.ok.inj (hs.symm.trans hp)
      rfl
    · next e he => simp [hs] at he
  encode_of_decode {bs a rest} h := by
    split at h
    · next p hp =>
      obtain ⟨rfl, rfl⟩ := Prod.mk.inj (Except.ok.inj h)
      exact ⟨trivial, (splitBytes_eq_ok hp).2⟩
    · cases h

/-- A string behind its byte length as a 32-bit integer. -/
def str : Codec String where
  encode s := u32.encode (UInt32.ofNat (utf8 s).length) ++ utf8 s
  decode bs := do
    let (len, bs) ← u32.decode bs
    let (text, rest) ← splitBytes len.toNat bs
    return (← ofUtf8 text, rest)
  Encodable s := (utf8 s).length < 2 ^ 32
  decode_encode s rest h := by
    rw [List.append_assoc, u32.decode_encode _ _ trivial]
    have hlen : (UInt32.ofNat (utf8 s).length).toNat = (utf8 s).length :=
      UInt32.toNat_ofNat_of_lt' h
    simp only [bind, Except.bind, hlen, splitBytes_append rest rfl, ofUtf8_utf8, pure, Except.pure]
  encode_of_decode {bs s rest} h := by
    obtain ⟨⟨len, tail⟩, hu, h⟩ := Except.bind_eq_ok h
    obtain ⟨⟨text, tail'⟩, hs, h⟩ := Except.bind_eq_ok h
    obtain ⟨s', ht, h⟩ := Except.bind_eq_ok h
    obtain ⟨rfl, rfl⟩ := Prod.mk.inj (Except.ok.inj h)
    obtain ⟨-, rfl⟩ := u32.encode_of_decode hu
    obtain ⟨hlen, rfl⟩ := splitBytes_eq_ok hs
    have hs' := utf8_of_ofUtf8 ht
    subst hs'
    refine ⟨hlen ▸ len.toNat_lt, ?_⟩
    rw [hlen, UInt32.ofNat_toNat, List.append_assoc]

/-- One value after another. -/
def seq {α β : Type} (c : Codec α) (d : Codec β) : Codec (α × β) where
  encode p := c.encode p.1 ++ d.encode p.2
  decode bs := do
    let (a, bs) ← c.decode bs
    let (b, rest) ← d.decode bs
    return ((a, b), rest)
  Encodable p := c.Encodable p.1 ∧ d.Encodable p.2
  decode_encode p rest h := by
    rw [List.append_assoc, c.decode_encode _ _ h.1]
    simp only [bind, Except.bind, d.decode_encode _ _ h.2, pure, Except.pure]
  encode_of_decode {bs p rest} h := by
    obtain ⟨⟨a, tail⟩, ha, h⟩ := Except.bind_eq_ok h
    obtain ⟨⟨b, tail'⟩, hb, h⟩ := Except.bind_eq_ok h
    obtain ⟨rfl, rfl⟩ := Prod.mk.inj (Except.ok.inj h)
    obtain ⟨hea, rfl⟩ := c.encode_of_decode ha
    obtain ⟨heb, rfl⟩ := d.encode_of_decode hb
    exact ⟨⟨hea, heb⟩, (List.append_assoc ..).symm⟩

/-- A record read as the product of its fields. -/
def record {α β : Type} (c : Codec α) (e : α ≃ β) : Codec β where
  encode b := c.encode (e.symm b)
  decode bs := (c.decode bs).map fun p => (e p.1, p.2)
  Encodable b := c.Encodable (e.symm b)
  decode_encode b rest h := by
    rw [c.decode_encode _ _ h]
    simp [Except.map]
  encode_of_decode {bs b rest} h := by
    obtain ⟨⟨a, tail⟩, ha, he⟩ := Except.map_eq_ok h
    obtain ⟨rfl, rfl⟩ := Prod.mk.inj he
    rw [e.symm_apply_apply]
    exact c.encode_of_decode ha

/-- Decoding that must consume every byte. -/
def ofSlice {α : Type} (c : Codec α) (bs : Bytes) : Except DecodeError α := do
  let (a, rest) ← c.decode bs
  if rest.isEmpty then return a else throw .trailingBytes

theorem ofSlice_eq_ok_iff {α : Type} (c : Codec α) (bs : Bytes) (a : α) :
    c.ofSlice bs = .ok a ↔ c.Encodable a ∧ bs = c.encode a := by
  constructor
  · intro h
    obtain ⟨⟨a', rest⟩, hd, h⟩ := Except.bind_eq_ok h
    obtain ⟨he, hbs⟩ := c.encode_of_decode hd
    dsimp only at h
    split_ifs at h with hr
    obtain rfl := Except.ok.inj h
    rw [List.isEmpty_iff.mp hr, List.append_nil] at hbs
    exact ⟨he, hbs⟩
  · rintro ⟨he, rfl⟩
    have hd := c.decode_encode a [] he
    rw [List.append_nil] at hd
    simp [ofSlice, hd, bind, Except.bind, pure, Except.pure]

end Codec
end ByteCodec

import XusMiner.JsonText

/-! The indented text of a JSON value, as `to_vec_pretty` writes it, and its size in bytes. -/

namespace XusMiner
open ByteCodec Utf8

def spaces (indent : ℕ) : List Char := List.replicate (2 * indent) ' '

namespace Value

section
variable (float : UInt64 → List Char)

mutual

def pretty (indent : ℕ) : Value → List Char
  | .null => text float .null
  | .bool b => text float (.bool b)
  | .number n => text float (.number n)
  | .string s => text float (.string s)
  | .array [] => "[]".toList
  | .array (x :: xs) =>
    "[\n".toList ++ spaces (indent + 1) ++ pretty (indent + 1) x ++ prettyItems indent xs
  | .object [] => "\x7b\x7d".toList
  | .object (f :: fields) =>
    "\x7b\n".toList ++ spaces (indent + 1) ++ prettyField (indent + 1) f ++
      prettyFields indent fields

def prettyItems (indent : ℕ) : List Value → List Char
  | [] => "\n".toList ++ spaces indent ++ "]".toList
  | x :: xs =>
    ",\n".toList ++ spaces (indent + 1) ++ pretty (indent + 1) x ++ prettyItems indent xs

def prettyField (indent : ℕ) : String × Value → List Char
  | (name, v) => quoted name ++ ": ".toList ++ pretty indent v

def prettyFields (indent : ℕ) : List (String × Value) → List Char
  | [] => "\n".toList ++ spaces indent ++ "\x7d".toList
  | f :: fields =>
    ",\n".toList ++ spaces (indent + 1) ++ prettyField (indent + 1) f ++ prettyFields indent fields

end

/-- `serde_json::to_vec_pretty` -/
def toVecPretty (v : Value) : Bytes := utf8 (String.ofList (pretty float 0 v))

end

example : String.ofList ((json [("b", .array [.nat 7, .null]), ("a", .string "\n")]).pretty
    (fun _ => []) 0) = "\x7b\n  \"a\": \"\\n\",\n  \"b\": [\n    7,\n    null\n  ]\n\x7d" := by
  decide

end Value

theorem byteSize_spaces (indent : ℕ) : byteSize (spaces indent) = 2 * indent := by
  have hspace : ∀ c ∈ spaces indent, c.utf8Size = 1 := by
    intro c hc
    rw [List.eq_of_mem_replicate hc]
    decide
  rw [byteSize_of_ascii hspace, spaces, List.length_replicate]

/-- The bytes one character takes within quotes. -/
def escapedSize (c : Char) : ℕ :=
  if c.toNat ∈ [0x22, 0x5C, 8, 9, 10, 12, 13] then 2
  else if c.toNat < 0x20 then 6
  else c.utf8Size

/-- The bytes a string takes between its quotes. -/
def escapedBytes (s : String) : ℕ := (s.toList.map escapedSize).sum

theorem byteSize_escapeChar (c : Char) : byteSize (escapeChar c) = escapedSize c := by
  by_cases hshort : c.toNat ∈ [0x22, 0x5C, 8, 9, 10, 12, 13]
  · rw [escapedSize, if_pos hshort]
    simp only [List.mem_cons, List.not_mem_nil, or_false] at hshort
    unfold escapeChar
    rcases hshort with h | h | h | h | h | h | h <;> rw [h] <;> rfl
  · rw [escapedSize, if_neg hshort]
    unfold escapeChar
    split
    iterate 7
      · next h => exact absurd (by rw [h]; decide) hshort
    split_ifs with hcontrol
    · have hdigit : ∀ n, n < 16 → (Hex.digit n).utf8Size = 1 := by decide
      have hfront : byteSize "\\u00".toList = 4 := by decide
      rw [byteSize_append, hfront, byteSize, List.map_cons, List.map_cons, List.map_nil,
        hdigit _ (by omega), hdigit _ (by omega)]
      rfl
    · exact Nat.add_zero _

theorem byteSize_quoted (s : String) : byteSize (quoted s) = escapedBytes s + 2 := by
  have hquote : byteSize "\"".toList = 1 := by decide
  have hbody : byteSize (s.toList.flatMap escapeChar) = escapedBytes s := by
    rw [byteSize_flatMap, escapedBytes]
    simp only [byteSize_escapeChar]
  rw [quoted, byteSize_append, byteSize_append, hquote, hbody]
  omega

namespace Value
variable {float : UInt64 → List Char}

theorem byteSize_digits (n : ℕ) : byteSize (Nat.toDigits 10 n) = (Nat.toDigits 10 n).length := by
  apply byteSize_of_ascii
  intro c hc
  have hdigit := Nat.isDigit_of_mem_toDigits (by decide) (by decide) hc
  simp only [Char.isDigit, Bool.and_eq_true, decide_eq_true_eq] at hdigit
  have hlow : c.val.toNat ≤ 57 := UInt32.le_iff_toNat_le.1 hdigit.2
  rw [Char.utf8Size, if_pos]
  exact UInt32.le_iff_toNat_le.2 (hlow.trans (by decide))

/-- A member takes a line of its own. -/
theorem byteSize_prettyFields (indent : ℕ) (fields : List (String × Value)) :
    byteSize (prettyFields float indent fields) =
      (fields.map fun f => byteSize (prettyField float (indent + 1) f) + 2 * indent + 4).sum +
        2 * indent + 2 := by
  have hfeed : byteSize "\n".toList = 1 := by decide
  have hclose : byteSize "\x7d".toList = 1 := by decide
  have hcomma : byteSize ",\n".toList = 2 := by decide
  induction fields with
  | nil =>
    rw [prettyFields, byteSize_append, byteSize_append, hfeed, hclose, byteSize_spaces,
      List.map_nil, List.sum_nil]
    omega
  | cons f fields ih =>
    rw [prettyFields, byteSize_append, byteSize_append, byteSize_append, hcomma, byteSize_spaces,
      ih, List.map_cons, List.sum_cons]
    omega

theorem byteSize_pretty_object (indent : ℕ) {fields : List (String × Value)} (h : fields ≠ []) :
    byteSize (pretty float indent (.object fields)) =
      (fields.map fun f => byteSize (prettyField float (indent + 1) f) + 2 * indent + 4).sum +
        2 * indent + 2 := by
  have hopen : byteSize "\x7b\n".toList = byteSize ",\n".toList := by decide
  cases fields with
  | nil => exact absurd rfl h
  | cons f fields =>
    rw [← byteSize_prettyFields, pretty, prettyFields, byteSize_append, byteSize_append,
      byteSize_append, byteSize_append, byteSize_append, byteSize_append, hopen]

theorem byteSize_stringField (indent : ℕ) (name s : String) :
    byteSize (prettyField float indent (name, .string s)) =
      escapedBytes name + escapedBytes s + 6 := by
  have hcolon : byteSize ": ".toList = 2 := by decide
  rw [prettyField, byteSize_append, byteSize_append, byteSize_quoted, hcolon, pretty, text,
    byteSize_quoted]
  omega

theorem byteSize_natField (indent : ℕ) (name : String) (n : UInt64) :
    byteSize (prettyField float indent (name, .nat n)) =
      escapedBytes name + (Nat.toDigits 10 n.toNat).length + 4 := by
  have hcolon : byteSize ": ".toList = 2 := by decide
  rw [prettyField, byteSize_append, byteSize_append, byteSize_quoted, hcolon, nat, pretty, text,
    Number.text, byteSize_digits]
  omega

theorem length_toVecPretty (v : Value) :
    (v.toVecPretty float).length = byteSize (pretty float 0 v) := length_utf8_ofList _

end Value
end XusMiner

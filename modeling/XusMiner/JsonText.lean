import XusMiner.Json
import XusMiner.Library.Hex
import XusMiner.Library.Utf8

/-! The compact text of a JSON value, as `Value::to_string` writes it. -/

namespace XusMiner
open ByteCodec

def lineFeed : Char := Char.ofNat 10

/-- The text of one character of a string: quotes, backslashes and controls are escaped. -/
def escapeChar (c : Char) : List Char :=
  match c.toNat with
  | 0x22 => "\\\"".toList
  | 0x5C => "\\\\".toList
  | 8 => "\\b".toList
  | 9 => "\\t".toList
  | 10 => "\\n".toList
  | 12 => "\\f".toList
  | 13 => "\\r".toList
  | n => if n < 0x20 then "\\u00".toList ++ [Hex.digit (n / 16), Hex.digit (n % 16)] else [c]

def quoted (s : String) : List Char :=
  "\"".toList ++ s.toList.flatMap escapeChar ++ "\"".toList

/-- `float` is the text of a finite double. -/
def Number.text (float : UInt64 → List Char) : Number → List Char
  | .posInt n => Nat.toDigits 10 n.toNat
  | .negInt n => "-".toList ++ Nat.toDigits 10 n.toInt.natAbs
  | .float bits => float bits

namespace Value

section
variable (float : UInt64 → List Char)

mutual

def text : Value → List Char
  | .null => "null".toList
  | .bool b => (if b then "true" else "false").toList
  | .number n => n.text float
  | .string s => quoted s
  | .array [] => "[]".toList
  | .array (x :: xs) => "[".toList ++ text x ++ itemsText xs
  | .object [] => "\x7b\x7d".toList
  | .object (f :: fields) => "\x7b".toList ++ fieldText f ++ fieldsText fields

def itemsText : List Value → List Char
  | [] => "]".toList
  | x :: xs => ",".toList ++ text x ++ itemsText xs

def fieldText : String × Value → List Char
  | (name, v) => quoted name ++ ":".toList ++ text v

def fieldsText : List (String × Value) → List Char
  | [] => "\x7d".toList
  | f :: fields => ",".toList ++ fieldText f ++ fieldsText fields

end

/-- `value.to_string()` -/
def print (v : Value) : String := String.ofList (text float v)

end

example : (json [("event", .string "a\n\"b\""), ("list", .array [.nat 7, .null])]).print
    (fun _ => []) = "\x7b\"event\":\"a\\n\\\"b\\\"\",\"list\":[7,null]\x7d" := by
  decide

end Value

theorem lineFeed_notMem_escapeChar (c : Char) : lineFeed ∉ escapeChar c := by
  unfold escapeChar
  split
  any_goals decide
  split_ifs with hlt
  · have hdigit : ∀ n, n < 16 → lineFeed ≠ Hex.digit n := by decide
    have hhigh := hdigit (c.toNat / 16) (by omega)
    have hlow := hdigit (c.toNat % 16) (by omega)
    have hescape : lineFeed ∉ "\\u00".toList := by decide
    simp only [List.mem_append, List.mem_cons, List.not_mem_nil, or_false, not_or]
    exact ⟨hescape, hhigh, hlow⟩
  · intro h
    rw [← List.mem_singleton.1 h] at hlt
    exact hlt (by decide)

theorem lineFeed_notMem_quoted (s : String) : lineFeed ∉ quoted s := by
  have hquote : lineFeed ∉ "\"".toList := by decide
  have hbody : lineFeed ∉ s.toList.flatMap escapeChar := by
    intro h
    obtain ⟨c, -, hc⟩ := List.mem_flatMap.1 h
    exact lineFeed_notMem_escapeChar c hc
  simp only [quoted, List.mem_append, not_or]
  exact ⟨⟨hquote, hbody⟩, hquote⟩

theorem lineFeed_notMem_digits (n : ℕ) : lineFeed ∉ Nat.toDigits 10 n := by
  intro h
  exact absurd (Nat.isDigit_of_mem_toDigits (by decide) (by decide) h) (by decide)

theorem Number.lineFeed_notMem_text {float : UInt64 → List Char}
    (h : ∀ bits, lineFeed ∉ float bits) (n : Number) : lineFeed ∉ n.text float := by
  cases n with
  | posInt n => exact lineFeed_notMem_digits _
  | negInt n =>
    have hsign : lineFeed ∉ "-".toList := by decide
    simp only [Number.text, List.mem_append, not_or]
    exact ⟨hsign, lineFeed_notMem_digits _⟩
  | float bits => exact h bits

/-- Escaping never shortens a text. -/
theorem length_le_quoted (s : String) : s.toList.length ≤ (quoted s).length := by
  have hpos : ∀ c : Char, 0 < (escapeChar c).length := by
    intro c
    unfold escapeChar
    split
    any_goals decide
    split_ifs
    · simp
    · simp
  have hbody := Utf8.length_le_flatMap hpos s.toList
  simp only [quoted, List.length_append]
  omega

namespace Value
variable {float : UInt64 → List Char}

mutual

/-- A value is printed on one line. -/
theorem lineFeed_notMem_text (h : ∀ bits, lineFeed ∉ float bits) :
    ∀ v : Value, lineFeed ∉ text float v
  | .null => (by decide : lineFeed ∉ "null".toList)
  | .bool true => (by decide : lineFeed ∉ "true".toList)
  | .bool false => (by decide : lineFeed ∉ "false".toList)
  | .number n => Number.lineFeed_notMem_text h n
  | .string s => lineFeed_notMem_quoted s
  | .array [] => (by decide : lineFeed ∉ "[]".toList)
  | .array (x :: xs) => by
    have hopen : lineFeed ∉ "[".toList := by decide
    have hx := lineFeed_notMem_text h x
    have hxs := lineFeed_notMem_itemsText h xs
    simp only [text, List.mem_append, not_or]
    exact ⟨⟨hopen, hx⟩, hxs⟩
  | .object [] => (by decide : lineFeed ∉ "\x7b\x7d".toList)
  | .object (f :: fields) => by
    have hopen : lineFeed ∉ "\x7b".toList := by decide
    have hf := lineFeed_notMem_fieldText h f
    have hfields := lineFeed_notMem_fieldsText h fields
    simp only [text, List.mem_append, not_or]
    exact ⟨⟨hopen, hf⟩, hfields⟩

theorem lineFeed_notMem_itemsText (h : ∀ bits, lineFeed ∉ float bits) :
    ∀ xs : List Value, lineFeed ∉ itemsText float xs
  | [] => (by decide : lineFeed ∉ "]".toList)
  | x :: xs => by
    have hcomma : lineFeed ∉ ",".toList := by decide
    have hx := lineFeed_notMem_text h x
    have hxs := lineFeed_notMem_itemsText h xs
    simp only [itemsText, List.mem_append, not_or]
    exact ⟨⟨hcomma, hx⟩, hxs⟩

theorem lineFeed_notMem_fieldText (h : ∀ bits, lineFeed ∉ float bits) :
    ∀ f : String × Value, lineFeed ∉ fieldText float f
  | (name, v) => by
    have hcolon : lineFeed ∉ ":".toList := by decide
    have hv := lineFeed_notMem_text h v
    simp only [fieldText, List.mem_append, not_or]
    exact ⟨⟨lineFeed_notMem_quoted name, hcolon⟩, hv⟩

theorem lineFeed_notMem_fieldsText (h : ∀ bits, lineFeed ∉ float bits) :
    ∀ fields : List (String × Value), lineFeed ∉ fieldsText float fields
  | [] => (by decide : lineFeed ∉ "\x7d".toList)
  | f :: fields => by
    have hcomma : lineFeed ∉ ",".toList := by decide
    have hf := lineFeed_notMem_fieldText h f
    have hfields := lineFeed_notMem_fieldsText h fields
    simp only [fieldsText, List.mem_append, not_or]
    exact ⟨⟨hcomma, hf⟩, hfields⟩

end

theorem fieldsText_ends (fields : List (String × Value)) :
    ∃ front, fieldsText float fields = front ++ "\x7d".toList := by
  induction fields with
  | nil => exact ⟨[], rfl⟩
  | cons f fields ih =>
    obtain ⟨front, hfront⟩ := ih
    exact ⟨",".toList ++ fieldText float f ++ front,
      by simp only [fieldsText, hfront, List.append_assoc]⟩

/-- An object's text ends with its closing brace. -/
theorem text_object_ends (fields : List (String × Value)) :
    ∃ front, text float (.object fields) = front ++ "\x7d".toList := by
  cases fields with
  | nil => exact ⟨"\x7b".toList, (by decide : "\x7b\x7d".toList = _)⟩
  | cons f fields =>
    obtain ⟨front, hfront⟩ := @fieldsText_ends float fields
    exact ⟨"\x7b".toList ++ fieldText float f ++ front,
      by simp only [text, hfront, List.append_assoc]⟩

theorem length_le_fieldsText {name : String} {v : Value} {fields : List (String × Value)}
    (h : (name, v) ∈ fields) : (text float v).length ≤ (fieldsText float fields).length := by
  induction fields with
  | nil => cases h
  | cons f fields ih =>
    rw [fieldsText, List.length_append]
    rcases List.mem_cons.1 h with rfl | hmem
    · rw [fieldText, List.length_append, List.length_append]
      omega
    · exact (ih hmem).trans (Nat.le_add_left _ _)

/-- A member's text is part of the object's. -/
theorem length_le_text_object {name : String} {v : Value} {fields : List (String × Value)}
    (h : (name, v) ∈ fields) : (text float v).length ≤ (text float (.object fields)).length := by
  cases fields with
  | nil => cases h
  | cons f fields =>
    have hopen : ",".toList.length = "\x7b".toList.length := by decide
    have hlength : (fieldsText float (f :: fields)).length =
        (text float (.object (f :: fields))).length := by
      simp only [fieldsText, text, List.length_append, hopen]
    exact (length_le_fieldsText h).trans_eq hlength

theorem length_text_le_print (v : Value) :
    (text float v).length ≤ (v.print float).utf8ByteSize := by
  have h := Utf8.length_le_flatMap (f := String.utf8EncodeChar)
    (fun c => by rw [String.length_utf8EncodeChar]; exact c.utf8Size_pos) (text float v)
  rwa [← utf8_ofList, Utf8.length_utf8] at h

end Value
end XusMiner

import XusMiner.Library.Strings

namespace XusMiner

/-- A JSON number: an unsigned or a negative 64-bit integer, or the bits of a double. -/
inductive Number
  | posInt (n : UInt64)
  | negInt (n : Int64)
  | float (bits : UInt64)
  deriving DecidableEq, Repr

namespace Number

def isFinite : Number → Bool
  | .float bits => (bits >>> 52) &&& 0x7ff ≠ 0x7ff
  | _ => true

/-- The comparison `x > 0.0` of the number as a double. -/
def isPositive : Number → Bool
  | .posInt n => 0 < n
  | .negInt n => 0 < n
  | .float bits => 0 < bits && bits < 0x8000000000000000

/-- `x.clamp(0.0, 1.0)` of the number as a double. -/
def clampUnit : Number → Number
  | .posInt n => if n = 0 then .float 0 else .float 0x3ff0000000000000
  | .negInt _ => .float 0
  | .float bits =>
    if 0x8000000000000000 < bits then .float 0
    else if bits ≠ 0x8000000000000000 ∧ 0x3ff0000000000000 < bits then .float 0x3ff0000000000000
    else .float bits

end Number

/-- A parsed JSON value. An object lists its members in key order. -/
inductive Value
  | null
  | bool (b : Bool)
  | number (n : Number)
  | string (s : String)
  | array (xs : List Value)
  | object (fields : List (String × Value))

namespace Value

def get (v : Value) (name : String) : Option Value :=
  match v with
  | .object fields => fields.lookup name
  | _ => none

def asStr : Value → Option String
  | .string s => some s
  | _ => none

def asU64 : Value → Option UInt64
  | .number (.posInt n) => some n
  | _ => none

def asF64 : Value → Option Number
  | .number n => some n
  | _ => none

def asBool : Value → Option Bool
  | .bool b => some b
  | _ => none

def asArray : Value → Option (List Value)
  | .array xs => some xs
  | _ => none

def isNull : Value → Bool
  | .null => true
  | _ => false

def isObject : Value → Bool
  | .object _ => true
  | _ => false

def nat (n : UInt64) : Value := .number (.posInt n)

/-- Inserting a member at its place in key order. -/
def insertField (name : String) (v : Value) : List (String × Value) → List (String × Value)
  | [] => [(name, v)]
  | (k, w) :: rest =>
    if name = k then (name, v) :: rest
    else if name < k then (name, v) :: (k, w) :: rest
    else (k, w) :: insertField name v rest

/-- The object literal `json!({..})`. -/
def json (fields : List (String × Value)) : Value :=
  .object (fields.foldl (fun acc f => insertField f.1 f.2 acc) [])

def ofOption {α : Type} (f : α → Value) : Option α → Value
  | some a => f a
  | none => .null

@[simp] theorem nat_inj {m n : UInt64} : nat m = nat n ↔ m = n := by simp [nat]

@[simp] theorem asStr_eq_some {v : Value} {s : String} : v.asStr = some s ↔ v = .string s := by
  cases v <;> simp [asStr]

@[simp] theorem asU64_eq_some {v : Value} {n : UInt64} : v.asU64 = some n ↔ v = .nat n := by
  rcases v with _ | _ | n | _ | _ | _
  case number => cases n <;> simp [asU64, nat]
  all_goals simp [asU64, nat]

@[simp] theorem asBool_eq_some {v : Value} {b : Bool} : v.asBool = some b ↔ v = .bool b := by
  cases v <;> simp [asBool]

theorem insertField_nil (name : String) (v : Value) : insertField name v [] = [(name, v)] := rfl

theorem insertField_cons {name k : String} (hne : ¬name = k) (hlt : ¬name < k) (v w : Value)
    (rest : List (String × Value)) :
    insertField name v ((k, w) :: rest) = (k, w) :: insertField name v rest := by
  rw [insertField, if_neg hne, if_neg hlt]

theorem lookup_insertField_self (name : String) (v : Value) (fields : List (String × Value)) :
    (insertField name v fields).lookup name = some v := by
  induction fields with
  | nil => simp [insertField]
  | cons f rest ih =>
    obtain ⟨k, w⟩ := f
    unfold insertField
    split_ifs with heq hlt
    · simp
    · simp
    · rw [List.lookup_cons, beq_false_of_ne heq]
      exact ih

theorem lookup_insertField_of_ne {name other : String} (h : other ≠ name) (v : Value)
    (fields : List (String × Value)) :
    (insertField name v fields).lookup other = fields.lookup other := by
  induction fields with
  | nil => simp [insertField, List.lookup_cons, beq_false_of_ne h]
  | cons f rest ih =>
    obtain ⟨k, w⟩ := f
    unfold insertField
    split_ifs with heq hlt
    · subst heq
      simp [List.lookup_cons, beq_false_of_ne h]
    · simp [List.lookup_cons, beq_false_of_ne h]
    · simp only [List.lookup_cons, ih]

/-- A member of an object literal: the last value given for the name. -/
theorem get_json (fields : List (String × Value)) (name : String) :
    (json fields).get name = fields.reverse.lookup name := by
  suffices h : ∀ acc : List (String × Value),
      (fields.foldl (fun acc f => insertField f.1 f.2 acc) acc).lookup name =
        (fields.reverse.lookup name).or (acc.lookup name) by
    simpa [json, get] using h []
  induction fields with
  | nil => simp
  | cons f rest ih =>
    obtain ⟨k, v⟩ := f
    intro acc
    rw [List.foldl_cons, ih, List.reverse_cons, List.lookup_append, Option.or_assoc]
    congr 1
    by_cases h : name = k
    · subst h
      simp [lookup_insertField_self]
    · simp [lookup_insertField_of_ne h, List.lookup_cons, beq_false_of_ne h]

end Value
end XusMiner

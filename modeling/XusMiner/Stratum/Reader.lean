import XusMiner.Json
import XusMiner.Library.BufReader

namespace XusMiner.Stratum
open ByteCodec

def maxLineBytes : Nat := 64 * 1024

def newline : UInt8 := 10

def unterminated : IoError :=
  ⟨.invalidData, "Stratum line exceeds 64 KiB or is unterminated"⟩

/-- The last step of `read_json_line`. -/
def parsed : Except String Value → Except IoError (Option Value)
  | .error error => .error ⟨.invalidData, "invalid JSON: " ++ error⟩
  | .ok value => .ok (some value)

variable (parse : Bytes → Except String Value)

/-- `parse` is `serde_json::from_slice`. -/
def readJsonLine (reader : BufReader) : Except IoError (Option Value) × BufReader :=
  match reader.readUntil newline (maxLineBytes + 1) [] with
  | (.error error, reader) => (.error error, reader)
  | (.ok bytes, reader) =>
    -- the end of the stream, and a line that ends there without a newline is an error
    if bytes.length = 0 then (.ok none, reader)
    else if maxLineBytes < bytes.length ∨ bytes.getLast? ≠ some newline then
      (.error unterminated, reader)
    else (parsed (parse bytes), reader)

def connectionClosed : IoError := ⟨.unexpectedEof, "pool closed connection"⟩

/-- Only the end of the stream leaves a call without having used up something of it. -/
theorem readJsonLine_progress {reader reader' : BufReader}
    {result : Except IoError (Option Value)}
    (h : readJsonLine parse reader = (result, reader')) (hresult : result ≠ .ok none) :
    reader'.items.length < reader.items.length := by
  have hitems := reader.readUntil_items newline (maxLineBytes + 1) []
  have hprogress := @Interrupted.readUntil_length _ _ _ newline (maxLineBytes + 1) [] reader.items
  rw [hitems] at hprogress
  rcases hread : reader.readUntil newline (maxLineBytes + 1) [] with ⟨read, rest⟩
  rw [hread] at hprogress
  unfold readJsonLine at h
  rw [hread] at h
  cases read with
  | error error =>
    cases h
    rcases hprogress with hlt | heq
    · exact hlt
    · cases heq
  | ok bytes =>
    dsimp only at h
    rcases hprogress with hlt | heq
    · split_ifs at h
      · cases h
        exact absurd rfl hresult
      · cases h
        exact hlt
      · cases h
        exact hlt
    · have hbytes : bytes = [] := by simpa using congrArg Prod.fst heq
      rw [hbytes] at h
      cases h
      exact absurd rfl hresult

variable {σ : Type} (handle : σ → Value → Except IoError σ) (keepalive : σ → Except IoError σ)

/-- The read loop of `run_session`: the messages it passes to `handle_message`, and the error
that ends it. `handle` and `keepalive` are that call and the keepalive write. -/
def readLoop (s : σ) (reader : BufReader) : List Value × IoError :=
  match _h : readJsonLine parse reader with
  | (.ok (some message), reader') =>
    match handle s message with
    | .ok s' =>
      let rest := readLoop s' reader'
      (message :: rest.1, rest.2)
    | .error error => ([message], error)
  | (.ok none, _) => ([], connectionClosed)
  | (.error error, reader') =>
    if error.kind = .wouldBlock ∨ error.kind = .timedOut then
      match keepalive s with
      | .ok s' => readLoop s' reader'
      | .error error => ([], error)
    else ([], error)
termination_by reader.items.length
decreasing_by
  all_goals exact readJsonLine_progress parse _h (by rintro ⟨⟩)

/-- What the loop does with the result of a call. -/
def afterRead (s : σ) (reader : BufReader) : Except IoError (Option Value) → List Value × IoError
  | .ok (some message) =>
    match handle s message with
    | .ok s' => (message :: (readLoop parse handle keepalive s' reader).1,
        (readLoop parse handle keepalive s' reader).2)
    | .error error => ([message], error)
  | .ok none => ([], connectionClosed)
  | .error error =>
    if error.kind = .wouldBlock ∨ error.kind = .timedOut then
      match keepalive s with
      | .ok s' => readLoop parse handle keepalive s' reader
      | .error error => ([], error)
    else ([], error)

theorem readLoop_eq {s : σ} {reader reader' : BufReader} {result : Except IoError (Option Value)}
    (h : readJsonLine parse reader = (result, reader')) :
    readLoop parse handle keepalive s reader =
      afterRead parse handle keepalive s reader' result := by
  rw [readLoop]
  split <;> rename_i h' <;> rw [h'] at h <;> cases h <;> rfl

end XusMiner.Stratum

import XusMiner.Job
import XusMiner.Library.BufRead
import XusMiner.Library.BufReader
import XusMiner.Library.Checked
import XusMiner.Library.Delimiters

namespace XusMiner.Rpc
open ByteCodec EStateM

def maxHeaderBytes : ℕ := 32 * 1024
def maxBodyBytes : ℕ := maxBlobBytes * 2 + 256 * 1024

/-- Why a reply is not read: an error the caller sees, a panic, or a loop that outlives the rounds
it is given. -/
inductive Failure
  | io (error : IoError)
  | panic (panic : Checked.Panic)
  | endless
  deriving DecidableEq

def invalid (message : String) : IoError := ⟨.invalidData, message⟩

/-- The error of `read_exact`. -/
def unexpectedEof : IoError := ⟨.unexpectedEof, "failed to fill whole buffer"⟩

/-- `MAX_HEADER_BYTES - *used + 1` -/
def room (used : ℕ) : Except Failure ℕ :=
  if used ≤ maxHeaderBytes then .ok (maxHeaderBytes - used + 1) else .error (.panic .overflow)

/-- The checks of a line, once it is read. -/
def checkLine (used : ℕ) (bytes : Bytes) : Except IoError (String × ℕ) :=
  if maxHeaderBytes < used then
    .error (invalid "node RPC HTTP headers exceed the safety limit")
  else if ¬[13, 10] <:+ bytes then
    .error (invalid "node returned incomplete or malformed HTTP headers")
  else
    match ofUtf8 (bytes.take (bytes.length - 2)) with
    | .ok line => .ok (line, used)
    | .error _ => .error (invalid "node returned non-UTF-8 HTTP headers")

def checkStatus (line : String) : Except IoError Unit :=
  let status := Strings.splitn 3 " " line
  let version := status[0]?.getD ""
  let code := status[1]?.getD ""
  if ¬(version = "HTTP/1.0" ∨ version = "HTTP/1.1") ∨ code.utf8ByteSize ≠ 3 ∨
      ¬code.toList.all Char.isDigit then
    .error (invalid "node returned malformed HTTP status")
  else if code.toList.head? ≠ some '2' then
    .error (invalid ("node RPC returned HTTP status " ++ code))
  else .ok ()

def isTokenChar (c : Char) : Bool := c.isAlphanum || c ∈ "!#$%&'*+-.^_`|~".toList

def isAsciiControl (c : Char) : Bool := c.toNat < 32 || c.toNat == 127

/-- One round of the loop: what a header line says of the length of the body. -/
def header (line : String) (contentLength : Option ℕ) : Except IoError (Option ℕ) :=
  match Strings.splitOnce ":" line with
  | none => .error (invalid "node returned malformed HTTP header")
  | some (name, value) =>
    if name = "" ∨ ¬name.toList.all isTokenChar ∨
        value.toList.any fun c => isAsciiControl c && c ≠ '\t' then
      .error (invalid "node returned malformed HTTP header")
    else
      let value := Strings.trim value
      if Strings.eqIgnoreAsciiCase name "content-length" then
        if contentLength.isSome ∨ value = "" ∨ ¬value.toList.all Char.isDigit then
          .error (invalid "node returned invalid or duplicate Content-Length")
        else
          match Strings.parseUnsigned (2 ^ 64) value with
          | none => .error (invalid "node returned invalid Content-Length")
          | some length =>
            if maxBodyBytes < length then
              .error (invalid "node RPC body exceeds the safety limit")
            else .ok (some length)
      else if Strings.eqIgnoreAsciiCase name "transfer-encoding" then
        .error (invalid "node RPC Transfer-Encoding is unsupported")
      else if Strings.eqIgnoreAsciiCase name "content-encoding" ∧
          ¬Strings.eqIgnoreAsciiCase value "identity" then
        .error (invalid "node RPC Content-Encoding is unsupported")
      else .ok contentLength

section Reader
variable {σ : Type} (reader : BufRead IoError σ)

/-- A check that is not about the stream. -/
def check {α : Type} (x : Except IoError α) : EStateM Failure σ α :=
  (ofExcept x : EStateM IoError σ α).adaptExcept .io

/-- A line of the head, and what the head has used with it. -/
def headerLine (used : ℕ) : EStateM Failure σ (String × ℕ) := do
  let limit ← ofExcept (room used)
  let bytes ← (reader.readUntil 10 limit).adaptExcept .io
  check (checkLine (used + bytes.length) bytes)

/-- The loop over the header lines. -/
def headers : ℕ → ℕ → Option ℕ → EStateM Failure σ (Option ℕ)
  | 0, _, _ => throw .endless
  | rounds + 1, used, contentLength => do
    let (line, used) ← headerLine reader used
    if line = "" then return contentLength
    else
      let contentLength ← check (header line contentLength)
      headers rounds used contentLength

/-- As many rounds as there are lines in the head: a line is two bytes at least. -/
def maxRounds : ℕ := maxHeaderBytes / 2

def readHead : EStateM Failure σ (Option ℕ) := do
  let (statusLine, used) ← headerLine reader 0
  check (checkStatus statusLine)
  headers reader maxRounds used none

def readBody : Option ℕ → EStateM Failure σ Bytes
  | some length => (reader.readExact unexpectedEof length).adaptExcept .io
  | none => do
    let body ← (reader.readToEnd (maxBodyBytes + 1)).adaptExcept .io
    if maxBodyBytes < body.length then
      throw (.io (invalid "node RPC body exceeds the safety limit"))
    else return body

def readResponse : EStateM Failure σ Bytes := do
  let contentLength ← readHead reader
  readBody reader contentLength

end Reader

section Simulation
variable {σ τ : Type} {view : σ → τ} {reader : BufRead IoError σ} {reader' : BufRead IoError τ}

theorem check_simulates {α : Type} (x : Except IoError α) :
    Simulates view (check x) (check x) :=
  (Simulates.ofExcept x).adaptExcept Failure.io

theorem headerLine_simulates (h : ∀ stop limit out, Simulates view
    (reader.collect stop limit out) (reader'.collect stop limit out)) (used : ℕ) :
    Simulates view (headerLine reader used) (headerLine reader' used) :=
  (Simulates.ofExcept _).bind fun limit =>
    ((h _ limit []).adaptExcept Failure.io).bind fun _ => check_simulates _

theorem headers_simulates (h : ∀ stop limit out, Simulates view
    (reader.collect stop limit out) (reader'.collect stop limit out)) (rounds used : ℕ)
    (contentLength : Option ℕ) :
    Simulates view (headers reader rounds used contentLength)
      (headers reader' rounds used contentLength) := by
  induction rounds generalizing used contentLength with
  | zero => exact .throw _
  | succ rounds ih =>
    exact (headerLine_simulates h used).bind fun _ =>
      .ite (.pure _) ((check_simulates _).bind fun _ => ih _ _)

/-- What a reply is read as depends on the bytes of the stream only. -/
theorem readResponse_simulates (h : ∀ stop limit out, Simulates view
    (reader.collect stop limit out) (reader'.collect stop limit out)) :
    Simulates view (readResponse reader) (readResponse reader') := by
  have hhead : Simulates view (readHead reader) (readHead reader') :=
    (headerLine_simulates h 0).bind fun _ =>
      (check_simulates _).bind fun _ => headers_simulates h _ _ _
  refine hhead.bind fun contentLength => ?_
  cases contentLength with
  | some length => exact (BufRead.readExact_simulates h unexpectedEof length).adaptExcept Failure.io
  | none =>
    exact ((h _ _ []).adaptExcept Failure.io).bind fun _ => .ite (.throw _) (.pure _)

end Simulation

end XusMiner.Rpc

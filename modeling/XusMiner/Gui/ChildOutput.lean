import XusMiner.JsonText
import XusMiner.Gui.Supervisor

namespace XusMiner.Gui
open ByteCodec

def maxChildLineBytes : Nat := 8 * 1024

def newline : UInt8 := 10

def carriageReturn : UInt8 := 13

def truncatedLineSuffix : String := " … [line truncated at 8 KiB]"

def boundedText (raw : String) (maxBytes : Nat) (suffix : String) (forceSuffix : Bool) : String :=
  if !forceSuffix && raw.utf8ByteSize ≤ maxBytes then raw
  else if maxBytes = 0 then ""
  else if maxBytes ≤ suffix.utf8ByteSize then
    String.ofList (Utf8.takeBytes maxBytes suffix.toList)
  else
    String.ofList (Utf8.takeBytes (maxBytes - suffix.utf8ByteSize) raw.toList) ++ suffix

/-- The local variables of `read_bounded_child_line`. -/
structure ChildLine where
  captured : Bytes := []
  sawBytes : Bool := false
  truncated : Bool := false
  reachedLineEnd : Bool := false

namespace ChildLine

/-- One round of the loop: what `fill_buf` showed up to the newline, or all of it. -/
def retain (line : ChildLine) (content : Bytes) : ChildLine :=
  let retained := min content.length (maxChildLineBytes - line.captured.length)
  { line with
    captured := line.captured ++ content.take retained
    sawBytes := true
    truncated := line.truncated || retained < content.length }

def finish (line : ChildLine) : Option String :=
  if !line.sawBytes then none
  else
    -- the carriage return of a line that was cut is part of its text
    let captured :=
      if line.reachedLineEnd && !line.truncated && line.captured.getLast? == some carriageReturn
      then line.captured.dropLast else line.captured
    let decoded := Utf8.fromUtf8Lossy captured
    some (boundedText decoded maxChildLineBytes truncatedLineSuffix
      (line.truncated || maxChildLineBytes < decoded.utf8ByteSize))

end ChildLine

def readChildLineFrom (line : ChildLine) (buffer : Bytes) (events : List ReadEvent) :
    Except IoError ChildLine × BufReader :=
  if newline ∈ buffer then
    let content := buffer.takeWhile (· ≠ newline)
    (.ok { line.retain content with reachedLineEnd := true },
      ⟨buffer.drop (content.length + 1), events⟩)
  else
    let line := if buffer = [] then line else line.retain buffer
    match events with
    | [] => (.ok line, ⟨[], []⟩)
    | .error error :: events => (.error error, ⟨[], events⟩)
    | .ok bytes :: events => readChildLineFrom line bytes.val events

def readBoundedChildLine (reader : BufReader) : Except IoError (Option String) × BufReader :=
  let (line, reader) := readChildLineFrom {} reader.buffer reader.events
  (line.map ChildLine.finish, reader)

/-- One round of the telemetry thread: what it sends on, and the reader it goes on with. -/
def telemetryStep (parse : String → Except String Value) (reader : BufReader) :
    Option ProcessMessage × Option BufReader :=
  match readBoundedChildLine reader with
  | (.ok (some line), reader) =>
    match parse line with
    | .ok value => (some (.telemetry value), some reader)
    | .error _ => (some (.log line), some reader)
  | (.ok none, _) => (none, none)
  | (.error error, _) => (some (.log ("Telemetry channel failed: " ++ error.message)), none)

/-- The line so far holds the first 8 KiB of what was read of it. -/
structure ChildLine.Of (read : Bytes) (line : ChildLine) : Prop where
  captured : line.captured = read.take maxChildLineBytes
  truncated : line.truncated = decide (maxChildLineBytes < read.length)

theorem ChildLine.Of.retain {read : Bytes} {line : ChildLine} (h : line.Of read)
    (content : Bytes) : (line.retain content).Of (read ++ content) where
  captured := by
    have hroom : maxChildLineBytes - (read.take maxChildLineBytes).length =
        maxChildLineBytes - read.length := by
      rw [List.length_take]
      omega
    simp only [ChildLine.retain, h.captured, hroom, List.take_append]
    rw [List.append_cancel_left_eq, List.take_eq_take_iff]
    omega
  truncated := by
    simp only [ChildLine.retain, h.captured, h.truncated, List.length_take, List.length_append,
      ← Bool.decide_or, decide_eq_decide]
    omega

/-- The loop reads a line up to its newline and leaves what follows, however it is cut. -/
theorem readChildLineFrom_line {content : Bytes} (hcontent : newline ∉ content)
    (rest : List (Except IoError UInt8)) {read : Bytes} {line : ChildLine} (hline : line.Of read)
    {buffer : Bytes} {events : List ReadEvent}
    (h : BufReader.items ⟨buffer, events⟩ = (content ++ [newline]).map .ok ++ rest) :
    ∃ line' reader', readChildLineFrom line buffer events = (.ok line', reader') ∧
      line'.Of (read ++ content) ∧ line'.sawBytes = true ∧ line'.reachedLineEnd = true ∧
      reader'.items = rest := by
  induction events generalizing read line content buffer with
  | nil =>
    by_cases hfound : newline ∈ buffer
    · obtain ⟨htake, hrest⟩ := BufReader.line_in_buffer hfound hcontent h
      rw [readChildLineFrom, if_pos hfound, htake]
      have hretain := hline.retain content
      exact ⟨_, _, rfl, ⟨hretain.captured, hretain.truncated⟩, rfl, rfl, hrest⟩
    · obtain ⟨content', -, htail⟩ := BufReader.line_past_buffer hfound h
      simp at htail
  | cons event events ih =>
    by_cases hfound : newline ∈ buffer
    · obtain ⟨htake, hrest⟩ := BufReader.line_in_buffer hfound hcontent h
      rw [readChildLineFrom, if_pos hfound, htake]
      have hretain := hline.retain content
      exact ⟨_, _, rfl, ⟨hretain.captured, hretain.truncated⟩, rfl, rfl, hrest⟩
    · obtain ⟨content', rfl, htail⟩ := BufReader.line_past_buffer hfound h
      have hnotMem : newline ∉ content' := fun hmem => hcontent (List.mem_append_right _ hmem)
      have hline' : (if buffer = [] then line else line.retain buffer).Of (read ++ buffer) := by
        by_cases hbuffer : buffer = []
        · rwa [if_pos hbuffer, hbuffer, List.append_nil]
        · rw [if_neg hbuffer]
          exact hline.retain buffer
      rw [readChildLineFrom, if_neg hfound, ← List.append_assoc]
      cases event with
      | error error =>
        exfalso
        cases content' <;> cases htail
      | ok bytes => exact ih hnotMem hline' htail

theorem boundedText_fits {raw suffix : String} {maxBytes : Nat} (h : raw.utf8ByteSize ≤ maxBytes) :
    boundedText raw maxBytes suffix false = raw := by
  simp [boundedText, h]

theorem boundedText_forced (raw : String) :
    boundedText raw maxChildLineBytes truncatedLineSuffix true =
      String.ofList (Utf8.takeBytes (maxChildLineBytes - truncatedLineSuffix.utf8ByteSize)
        raw.toList) ++ truncatedLineSuffix := by
  have hsuffix : ¬maxChildLineBytes ≤ truncatedLineSuffix.utf8ByteSize := by decide
  have hmax : maxChildLineBytes ≠ 0 := by decide
  rw [boundedText, if_neg (by simp), if_neg hmax, if_neg hsuffix]

/-- A line that fits is shown as it was written. -/
theorem ChildLine.Of.finish_fits {text : String} {line : ChildLine} (h : line.Of (utf8 text))
    (hsaw : line.sawBytes = true) (hlast : (utf8 text).getLast? ≠ some carriageReturn)
    (hfits : text.utf8ByteSize ≤ maxChildLineBytes) : line.finish = some text := by
  have hlength : (utf8 text).length ≤ maxChildLineBytes := (Utf8.length_utf8 text).trans_le hfits
  have htruncated : line.truncated = false := by
    rw [h.truncated]
    exact decide_eq_false (by omega)
  have hcaptured : line.captured = utf8 text := by
    rw [h.captured, List.take_of_length_le hlength]
  have hkeep : ((utf8 text).getLast? == some carriageReturn) = false := beq_false_of_ne hlast
  have hforce : decide (maxChildLineBytes < text.utf8ByteSize) = false :=
    decide_eq_false (by omega)
  simp only [ChildLine.finish, hsaw, hcaptured, htruncated, hkeep, Bool.and_false,
    Bool.false_eq_true, Bool.not_true, if_false, Utf8.fromUtf8Lossy_utf8, hforce, Bool.or_false]
  exact congrArg some (boundedText_fits hfits)

theorem ChildLine.Of.finish_long {read : Bytes} {line : ChildLine} (h : line.Of read)
    (hsaw : line.sawBytes = true) (hlong : maxChildLineBytes < read.length) :
    ∃ front, line.finish = some (front ++ truncatedLineSuffix) := by
  have htruncated : line.truncated = true := by
    rw [h.truncated]
    exact decide_eq_true hlong
  have hforced := boundedText_forced (Utf8.fromUtf8Lossy line.captured)
  refine ⟨_, Eq.trans ?_ (congrArg some hforced)⟩
  simp [ChildLine.finish, hsaw, htruncated]

end XusMiner.Gui

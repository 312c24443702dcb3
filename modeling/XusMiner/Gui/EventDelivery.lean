import XusMiner.Engine.Events
import XusMiner.Gui.ChildOutput

namespace XusMiner.Gui
open ByteCodec

/-- What is relied on of `serde_json`: the printed event is parsed back, a printed double has no
line feed, and a text that is parsed as an object ends, white space aside, with a brace. -/
structure SerdeJson (parse : String → Except String Value) (float : UInt64 → List Char)
    (event : Value) : Prop where
  roundTrip : parse (event.print float) = .ok event
  oneLine : ∀ bits, lineFeed ∉ float bits
  closed : ∀ text fields, parse text = .ok (.object fields) →
    ∃ front space, text.toList = front ++ "\x7d".toList ++ space ∧ ∀ c ∈ space, c ∈ " \n\r\t".toList

variable {parse : String → Except String Value} {float : UInt64 → List Char}

/-- The telemetry thread sends on exactly this event and leaves what follows its line. -/
def Delivered (parse : String → Except String Value) (event : Value) (reader : BufReader)
    (rest : List (Except IoError UInt8)) : Prop :=
  ∃ reader', telemetryStep parse reader = (some (.telemetry event), some reader') ∧
    reader'.items = rest

theorem emitted_eq (event : Value) :
    emitted float event = utf8 (event.print float) ++ [newline] := by
  simp only [emitted, Utf8.utf8_eq_flatMap, String.toList_append, List.flatMap_append,
    String.toList_ofList]
  rfl

theorem newline_notMem_print (h : ∀ bits, lineFeed ∉ float bits) (event : Value) :
    newline ∉ utf8 (event.print float) := by
  intro hmem
  have hchar : lineFeed ∈ (event.print float).toList := Utf8.mem_utf8 (by decide) hmem
  rw [Value.print, String.toList_ofList] at hchar
  exact Value.lineFeed_notMem_text h event hchar

theorem getLast_print_object (fields : List (String × Value)) :
    (utf8 ((Value.object fields).print float)).getLast? = some 0x7d := by
  obtain ⟨front, hfront⟩ := @Value.text_object_ends float fields
  rw [Value.print, hfront, utf8_ofList, List.flatMap_append]
  have hbrace : "\x7d".toList.flatMap String.utf8EncodeChar = [0x7d] := by decide
  rw [hbrace, List.getLast?_concat]

/-- A cut line is not the text of an object: its suffix ends with a bracket. -/
theorem parse_truncated {event : Value} (h : SerdeJson parse float event) (front : String)
    (fields : List (String × Value)) :
    parse (front ++ truncatedLineSuffix) ≠ .ok (.object fields) := by
  intro hparse
  obtain ⟨body, space, htext, hspace⟩ := h.closed _ _ hparse
  have hlast : (front ++ truncatedLineSuffix).toList.getLast? = "]".toList.getLast? := by
    have hsuffix : truncatedLineSuffix.toList.getLast? = "]".toList.getLast? := by decide
    rw [String.toList_append, List.getLast?_append, hsuffix]
    rfl
  rw [htext] at hlast
  rcases List.eq_nil_or_concat space with rfl | ⟨space, c, rfl⟩
  · have hbrace : "\x7d".toList.getLast? = some (Char.ofNat 0x7d) := by decide
    rw [List.append_nil, List.getLast?_append, hbrace, Option.some_or] at hlast
    exact absurd hlast (by decide)
  · rw [List.concat_eq_append, ← List.append_assoc, List.getLast?_concat] at hlast
    have hc := hspace c (by simp)
    have hbracket : c = Char.ofNat 0x5d := Option.some.inj hlast
    rw [hbracket] at hc
    exact absurd hc (by decide)

/-- What the thread reads of an emitted event, however the pipe cuts it. -/
theorem read_emitted {event : Value} (h : ∀ bits, lineFeed ∉ float bits) {reader : BufReader}
    {rest : List (Except IoError UInt8)}
    (hitems : reader.items = (emitted float event).map .ok ++ rest) :
    ∃ (line : ChildLine) (reader' : BufReader),
      readBoundedChildLine reader = (.ok line.finish, reader') ∧
      line.Of (utf8 (event.print float)) ∧ line.sawBytes = true ∧ reader'.items = rest := by
  rw [emitted_eq] at hitems
  obtain ⟨line, reader', hread, hline, hsaw, -, hrest⟩ :=
    readChildLineFrom_line (newline_notMem_print h _) rest (⟨rfl, rfl⟩ : ChildLine.Of [] {}) hitems
  refine ⟨line, reader', ?_, hline, hsaw, hrest⟩
  rw [readBoundedChildLine, hread]
  rfl

theorem delivered_of_fits {fields : List (String × Value)}
    (h : SerdeJson parse float (.object fields)) {reader : BufReader}
    {rest : List (Except IoError UInt8)}
    (hitems : reader.items = (emitted float (.object fields)).map .ok ++ rest)
    (hfits : ((Value.object fields).print float).utf8ByteSize ≤ maxChildLineBytes) :
    Delivered parse (.object fields) reader rest := by
  obtain ⟨line, reader', hread, hline, hsaw, hrest⟩ := read_emitted h.oneLine hitems
  have hlast : (utf8 ((Value.object fields).print float)).getLast? ≠ some carriageReturn := by
    rw [getLast_print_object]
    decide
  refine ⟨reader', ?_, hrest⟩
  rw [telemetryStep, hread, hline.finish_fits hsaw hlast hfits]
  simp only [h.roundTrip]

theorem fits_of_delivered {fields : List (String × Value)}
    (h : SerdeJson parse float (.object fields)) {reader : BufReader}
    {rest : List (Except IoError UInt8)}
    (hitems : reader.items = (emitted float (.object fields)).map .ok ++ rest)
    (hdelivered : Delivered parse (.object fields) reader rest) :
    ((Value.object fields).print float).utf8ByteSize ≤ maxChildLineBytes := by
  obtain ⟨line, reader', hread, hline, hsaw, hrest⟩ := read_emitted h.oneLine hitems
  obtain ⟨reader'', hstep, -⟩ := hdelivered
  by_contra hlong
  rw [not_le, ← Utf8.length_utf8] at hlong
  obtain ⟨front, hfront⟩ := hline.finish_long hsaw hlong
  have hparse := parse_truncated h front fields
  rw [telemetryStep, hread, hfront] at hstep
  cases htext : parse (front ++ truncatedLineSuffix) with
  | error error => simp [htext] at hstep
  | ok value =>
    simp only [htext, Prod.mk.injEq, Option.some.injEq, ProcessMessage.telemetry.injEq] at hstep
    exact hparse (hstep.1 ▸ htext)

/-- A parser that knows one text. -/
def parseOnly (float : UInt64 → List Char) (event : Value) (text : String) : Except String Value :=
  if text = event.print float then .ok event else .error "expected value"

theorem serdeJson_parseOnly (h : ∀ bits, lineFeed ∉ float bits) (fields : List (String × Value)) :
    SerdeJson (parseOnly float (.object fields)) float (.object fields) where
  roundTrip := if_pos rfl
  oneLine := h
  closed text _ hparse := by
    unfold parseOnly at hparse
    split_ifs at hparse with htext
    obtain ⟨front, hfront⟩ := @Value.text_object_ends float fields
    refine ⟨front, [], ?_, by simp⟩
    rw [htext, Value.print, String.toList_ofList, hfront, List.append_nil]

theorem sessionError_eq (message : String) (retryInSecs : UInt64) :
    sessionError message retryInSecs = .object [("event", .string "session_error"),
      ("message", .string message), ("retry_in_secs", .nat retryInSecs)] := by
  have hmessage (w : Value) : Value.insertField "message" (.string message) [("event", w)] =
      [("event", w), ("message", .string message)] :=
    Value.insertField_cons (by decide) (by decide +kernel) _ w []
  have hlast (w : Value) : Value.insertField "retry_in_secs" (.nat retryInSecs) [("message", w)] =
      [("message", w), ("retry_in_secs", .nat retryInSecs)] :=
    Value.insertField_cons (by decide +kernel) (by decide +kernel) _ w []
  have hretry (v w : Value) :
      Value.insertField "retry_in_secs" (.nat retryInSecs) [("event", v), ("message", w)] =
        ("event", v) :: Value.insertField "retry_in_secs" (.nat retryInSecs) [("message", w)] :=
    Value.insertField_cons (by decide +kernel) (by decide +kernel) _ v _
  rw [sessionError, Value.json, List.foldl_cons, List.foldl_cons, List.foldl_cons, List.foldl_nil,
    Value.insertField_nil, hmessage, hretry, hlast]

theorem length_message_le (message : String) (retryInSecs : UInt64) :
    message.toList.length ≤ ((sessionError message retryInSecs).print float).utf8ByteSize := by
  have hmember : (Value.text float (.string message)).length ≤
      (Value.text float (sessionError message retryInSecs)).length := by
    rw [sessionError_eq]
    exact Value.length_le_text_object (by simp : ("message", Value.string message) ∈ _)
  calc message.toList.length
    _ ≤ (quoted message).length := length_le_quoted message
    _ ≤ (Value.text float (sessionError message retryInSecs)).length := hmember
    _ ≤ _ := Value.length_text_le_print _

theorem length_rejectedLogin (text : String) :
    text.toList.length ≤ (rejectedLogin float (.string text)).toList.length := by
  have hprint : (Value.print float (.string text)).toList = quoted text := String.toList_ofList
  have happend : ∀ s t : String, t.toList.length ≤ (s ++ t).toList.length := by
    intro s t
    rw [String.toList_append, List.length_append]
    exact Nat.le_add_left _ _
  calc text.toList.length
    _ ≤ (quoted text).length := length_le_quoted text
    _ = (Value.print float (.string text)).toList.length := by rw [hprint]
    _ ≤ (rejectedLogin float (.string text)).toList.length := by
      unfold rejectedLogin
      apply happend

/-- An emitted event reaches the interface as telemetry exactly if its text fits the reader's
8 KiB, however the pipe cuts the line and whatever follows it. -/
theorem event_delivered_iff {fields : List (String × Value)}
    (h : SerdeJson parse float (.object fields)) {reader : BufReader}
    {rest : List (Except IoError UInt8)}
    (hitems : reader.items = (emitted float (.object fields)).map .ok ++ rest) :
    Delivered parse (.object fields) reader rest ↔
      ((Value.object fields).print float).utf8ByteSize ≤ maxChildLineBytes :=
  ⟨fits_of_delivered h hitems, delivered_of_fits h hitems⟩

theorem event_delivered_iff_nodeConnected :
    Delivered (parseOnly (fun _ => "0.0".toList) (.object [("event", .string "node_connected")]))
      (.object [("event", .string "node_connected")])
      ⟨emitted (fun _ => "0.0".toList) (.object [("event", .string "node_connected")]), []⟩ [] ↔
    ((Value.object [("event", .string "node_connected")]).print
      (fun _ => "0.0".toList)).utf8ByteSize ≤ maxChildLineBytes :=
  event_delivered_iff (serdeJson_parseOnly (fun _ => by decide) _) (BufReader.items_buffered _)

/-- The `session_error` of a rejected login does not always arrive: of a pool's error text of nine
thousand characters the reader keeps the beginning, and shows the line as text. -/
theorem session_error_logged :
    ¬∀ (parse : String → Except String Value) (float : UInt64 → List Char) (error : Value)
      (retryInSecs : UInt64) (reader : BufReader) (rest : List (Except IoError UInt8)),
      SerdeJson parse float (sessionError (rejectedLogin float error) retryInSecs) →
      reader.items =
        (emitted float (sessionError (rejectedLogin float error) retryInSecs)).map .ok ++ rest →
      Delivered parse (sessionError (rejectedLogin float error) retryInSecs) reader rest := by
  intro h
  let float : UInt64 → List Char := fun _ => "0.0".toList
  have hfloat : ∀ bits, lineFeed ∉ float bits := fun _ => by decide
  obtain ⟨reason, hreason⟩ : ∃ reason : String, reason.toList.length = 9000 :=
    ⟨String.ofList (List.replicate 9000 'x'), by
      rw [String.toList_ofList, List.length_replicate]⟩
  have hdelivered (parse : String → Except String Value) (reader : BufReader)
      (rest : List (Except IoError UInt8)) := h parse float (.string reason) 5 reader rest
  obtain ⟨fields, hevent⟩ : ∃ fields,
      sessionError (rejectedLogin float (.string reason)) 5 = .object fields :=
    ⟨_, sessionError_eq _ _⟩
  rw [hevent] at hdelivered
  have hserde := serdeJson_parseOnly hfloat fields
  have hitems := BufReader.items_buffered (emitted float (.object fields))
  have hfits := fits_of_delivered hserde hitems (hdelivered _ _ _ hserde hitems)
  rw [← hevent] at hfits
  have hmessage := @length_message_le float (rejectedLogin float (.string reason)) 5
  have hlength := @length_rejectedLogin float reason
  have hmax : maxChildLineBytes = 8192 := rfl
  omega

end XusMiner.Gui

import XusMiner.Stratum.Reader

namespace XusMiner.Stratum
open ByteCodec

def IsTimeout (error : IoError) : Prop := error.kind = .wouldBlock ∨ error.kind = .timedOut

/-- A line as it arrives, without its newline: bytes, and errors that come between them. -/
structure Line where
  items : List (Except IoError UInt8)
  unbroken : .ok newline ∉ items

namespace Line

def stream (line : Line) : List (Except IoError UInt8) := line.items ++ [.ok newline]

/-- What the pool sent. -/
def bytes (line : Line) : Bytes := Interrupted.bytes line.items ++ [newline]

/-- What of it arrives after the last error inside the line. -/
def received (line : Line) : Bytes := Interrupted.sinceError line.items ++ [newline]

theorem received_eq_bytes {line : Line} (h : ∀ error, .error error ∉ line.items) :
    line.received = line.bytes := by
  rw [received, bytes, Interrupted.sinceError_eq_bytes h]

/-- Every stream is a sequence of lines and a rest without a newline. -/
theorem exists_lines (items : List (Except IoError UInt8)) :
    ∃ (lines : List Line) (tail : List (Except IoError UInt8)),
      .ok newline ∉ tail ∧ items = lines.flatMap stream ++ tail := by
  induction items with
  | nil => exact ⟨[], [], List.not_mem_nil, rfl⟩
  | cons x xs ih =>
    rcases ih with ⟨lines, tail, htail, rfl⟩
    by_cases hx : x = .ok newline
    · exact ⟨⟨[], List.not_mem_nil⟩ :: lines, tail, htail, by simp [stream, hx]⟩
    · cases lines with
      | nil => exact ⟨[], x :: tail, by simp [Ne.symm hx, htail], rfl⟩
      | cons line lines =>
        have hline : .ok newline ∉ x :: line.items := by simp [Ne.symm hx, line.unbroken]
        exact ⟨⟨x :: line.items, hline⟩ :: lines, tail, htail, by simp [stream]⟩

end Line

variable {parse : Bytes → Except String Value} {σ : Type} {handle : σ → Value → Except IoError σ}
  {keepalive : σ → Except IoError σ}

theorem afterRead_timeout {s : σ} {reader : BufReader} {error : IoError} (h : IsTimeout error) :
    afterRead parse handle keepalive s reader (.error error) =
      match keepalive s with
      | .ok s' => readLoop parse handle keepalive s' reader
      | .error error => ([], error) := if_pos h

section Calls

variable {body : Bytes} {rest : List (Except IoError UInt8)} {reader : BufReader}

theorem readJsonLine_line (parse : Bytes → Except String Value) (hbody : newline ∉ body)
    (hlen : body.length < maxLineBytes)
    (h : reader.items = body.map .ok ++ .ok newline :: rest) :
    ∃ reader', reader'.items = rest ∧
      readJsonLine parse reader = (parsed (parse (body ++ [newline])), reader') := by
  have hitems := reader.readUntil_items newline (maxLineBytes + 1) []
  rw [h, Interrupted.readUntil_line hbody (by omega)] at hitems
  rcases hread : reader.readUntil newline (maxLineBytes + 1) [] with ⟨read, reader'⟩
  rw [hread] at hitems
  cases hitems
  refine ⟨reader', rfl, ?_⟩
  have hlen' : ¬maxLineBytes < body.length + 1 := by omega
  simp [readJsonLine, hread, hlen']

/-- The stream ends, at the end of a line or in the middle of one. -/
theorem readJsonLine_end (parse : Bytes → Except String Value) (hbody : newline ∉ body)
    (hlen : body.length ≤ maxLineBytes) (h : reader.items = body.map .ok) :
    ∃ reader', readJsonLine parse reader =
      (if body = [] then .ok none else .error unterminated, reader') := by
  have hitems := reader.readUntil_items newline (maxLineBytes + 1) []
  have hsplit : maxLineBytes + 1 = maxLineBytes + 1 - body.length + body.length := by omega
  rw [h, hsplit, ← List.append_nil (body.map _), Interrupted.readUntil_body hbody,
    Interrupted.readUntil_nil, ← hsplit] at hitems
  rcases hread : reader.readUntil newline (maxLineBytes + 1) [] with ⟨read, reader'⟩
  rw [hread] at hitems
  have hread' : read = .ok body := (congrArg Prod.fst hitems).symm
  refine ⟨reader', ?_⟩
  have hlast : body.getLast? ≠ some newline := fun h => hbody (List.mem_of_getLast? h)
  unfold readJsonLine
  rw [hread, hread']
  dsimp only
  by_cases hempty : body = []
  · rw [if_pos hempty, hempty]
    rfl
  · rw [if_neg hempty, if_neg (by simpa using hempty), if_pos (.inr hlast)]

/-- More than a full line's worth of bytes without a newline. -/
theorem readJsonLine_overlong (parse : Bytes → Except String Value) (hbody : newline ∉ body)
    (hlen : maxLineBytes < body.length) (h : reader.items = body.map .ok ++ rest) :
    ∃ reader', readJsonLine parse reader = (.error unterminated, reader') := by
  have hitems := reader.readUntil_items newline (maxLineBytes + 1) []
  have htake : newline ∉ body.take (maxLineBytes + 1) := fun h => hbody (List.mem_of_mem_take h)
  rw [h, BufReader.readUntil_capped htake hlen] at hitems
  rcases hread : reader.readUntil newline (maxLineBytes + 1) [] with ⟨read, reader'⟩
  rw [hread] at hitems
  have hread' : read = .ok (body.take (maxLineBytes + 1)) := (congrArg Prod.fst hitems).symm
  subst hread'
  refine ⟨reader', ?_⟩
  have hlength : (body.take (maxLineBytes + 1)).length = maxLineBytes + 1 :=
    List.length_take_of_le hlen
  simp [readJsonLine, hread, hlength]

theorem readJsonLine_error (parse : Bytes → Except String Value) (hbody : newline ∉ body)
    (hlen : body.length ≤ maxLineBytes)
    {error : IoError} (h : reader.items = body.map .ok ++ .error error :: rest) :
    ∃ reader', reader'.items = rest ∧ readJsonLine parse reader = (.error error, reader') := by
  have hitems := reader.readUntil_items newline (maxLineBytes + 1) []
  rw [h, Interrupted.readUntil_error hbody (by omega)] at hitems
  rcases hread : reader.readUntil newline (maxLineBytes + 1) [] with ⟨read, reader'⟩
  rw [hread] at hitems
  cases hitems
  exact ⟨reader', rfl, by simp [readJsonLine, hread]⟩

end Calls

/-- A line read from its start, or from a later byte of it after a timeout: the loop goes on
with what arrived after the last timeout, unless a keepalive write ends it. -/
theorem readLoop_line (parse : Bytes → Except String Value) (handle : σ → Value → Except IoError σ)
    (keepalive : σ → Except IoError σ) {items rest : List (Except IoError UInt8)}
    (hline : .ok newline ∉ items)
    (htimeouts : ∀ error, .error error ∈ items → IsTimeout error)
    (hlen : (Interrupted.bytes items).length < maxLineBytes) {s : σ} {reader : BufReader}
    (h : reader.items = items ++ .ok newline :: rest) :
    (∃ error, (∃ s, keepalive s = .error error) ∧
      readLoop parse handle keepalive s reader = ([], error)) ∨
    ∃ s' reader', reader'.items = rest ∧ readLoop parse handle keepalive s reader =
      afterRead parse handle keepalive s' reader'
        (parsed (parse (Interrupted.sinceError items ++ [newline]))) := by
  induction items using Interrupted.items_induction generalizing s reader with
  | clean body =>
    have hbody : newline ∉ body := by simpa using hline
    rw [Interrupted.bytes_ok] at hlen
    rcases readJsonLine_line parse hbody hlen h with ⟨reader', hrest, hread⟩
    rw [Interrupted.sinceError_ok]
    exact .inr ⟨s, reader', hrest, readLoop_eq _ _ _ hread⟩
  | interrupted body error xs ih =>
    have hbody : newline ∉ body := by
      intro hmem
      exact hline (List.mem_append_left _ (List.mem_map.2 ⟨_, hmem, rfl⟩))
    rw [Interrupted.bytes_append, Interrupted.bytes_ok, List.length_append] at hlen
    have hxs : Interrupted.bytes (.error error :: xs) = Interrupted.bytes xs := rfl
    rw [hxs] at hlen
    rw [List.append_assoc, List.cons_append] at h
    rcases readJsonLine_error parse hbody (by omega) h with ⟨reader', hrest, hread⟩
    have htimeout : IsTimeout error := htimeouts error (by simp)
    rw [readLoop_eq _ _ _ hread, Interrupted.sinceError_error, afterRead_timeout htimeout]
    cases hkeep : keepalive s with
    | error failure => exact .inl ⟨failure, ⟨s, hkeep⟩, rfl⟩
    | ok s' =>
      apply ih _ _ (by omega) hrest
      · exact fun hmem => hline (by simp [hmem])
      · exact fun e he => htimeouts e (by simp [he])

/-- What is left of the stream when there is no newline to come: no message is passed. -/
theorem readLoop_tail (parse : Bytes → Except String Value) (handle : σ → Value → Except IoError σ)
    (keepalive : σ → Except IoError σ) {items : List (Except IoError UInt8)}
    (htail : .ok newline ∉ items)
    (htimeouts : ∀ error, .error error ∈ items → IsTimeout error) {s : σ} {reader : BufReader}
    (h : reader.items = items) :
    ∃ error, readLoop parse handle keepalive s reader = ([], error) ∧
      (Interrupted.bytes items = [] → error = connectionClosed ∨ ∃ s, keepalive s = .error error)
      := by
  induction items using Interrupted.items_induction generalizing s reader with
  | clean body =>
    have hbody : newline ∉ body := by simpa using htail
    by_cases hlen : body.length ≤ maxLineBytes
    · rcases readJsonLine_end parse hbody hlen h with ⟨reader', hread⟩
      rw [readLoop_eq _ _ _ hread]
      by_cases hempty : body = []
      · exact ⟨connectionClosed, by rw [if_pos hempty]; rfl, fun _ => .inl rfl⟩
      · exact ⟨unterminated, by rw [if_neg hempty]; rfl, by simp [hempty]⟩
    · rw [← List.append_nil (body.map _)] at h
      rcases readJsonLine_overlong parse hbody (by omega) h with ⟨reader', hread⟩
      rw [readLoop_eq _ _ _ hread]
      refine ⟨unterminated, rfl, ?_⟩
      rw [Interrupted.bytes_ok]
      rintro rfl
      exact absurd (Nat.zero_le _) hlen
  | interrupted body error xs ih =>
    have hbody : newline ∉ body := by
      intro hmem
      exact htail (List.mem_append_left _ (List.mem_map.2 ⟨_, hmem, rfl⟩))
    by_cases hlen : body.length ≤ maxLineBytes
    · rcases readJsonLine_error parse hbody hlen h with ⟨reader', hrest, hread⟩
      have htimeout : IsTimeout error := htimeouts error (by simp)
      rw [readLoop_eq _ _ _ hread, afterRead_timeout htimeout]
      cases hkeep : keepalive s with
      | error failure => exact ⟨failure, rfl, fun _ => .inr ⟨s, hkeep⟩⟩
      | ok s' =>
        rcases @ih (fun hmem => htail (by simp [hmem])) (fun e he => htimeouts e (by simp [he]))
          s' reader' hrest with ⟨e, hloop, hbytes⟩
        refine ⟨e, hloop, fun hempty => hbytes ?_⟩
        rw [Interrupted.bytes_append] at hempty
        exact (List.append_eq_nil_iff.1 hempty).2
    · rcases readJsonLine_overlong parse hbody (by omega) h with ⟨reader', hread⟩
      rw [readLoop_eq _ _ _ hread]
      refine ⟨unterminated, rfl, ?_⟩
      rw [Interrupted.bytes_append, Interrupted.bytes_ok, List.append_eq_nil_iff]
      rintro ⟨rfl, -⟩
      exact absurd (Nat.zero_le _) hlen

/-- The loop has passed on exactly `values` before the pool closed the connection, or the
session's own handling of a message, or of a timeout, ended it on the way there. -/
def Delivered (handle : σ → Value → Except IoError σ) (keepalive : σ → Except IoError σ)
    (values : List Value) (closed : Prop) (outcome : List Value × IoError) : Prop :=
  (outcome.1 = values ∧ (closed → outcome.2 = connectionClosed)) ∨
  (outcome.1 <+: values ∧
    ((∃ s message, handle s message = .error outcome.2) ∨ ∃ s, keepalive s = .error outcome.2))

theorem stream_timeouts {line : Line} {rest : List (Except IoError UInt8)}
    (h : ∀ error, .error error ∈ line.stream ++ rest → IsTimeout error) :
    (∀ error, .error error ∈ line.items → IsTimeout error) ∧
      ∀ error, .error error ∈ rest → IsTimeout error :=
  ⟨fun e he => h e (by simp [Line.stream, he]), fun e he => h e (by simp [he])⟩

theorem line_length {line : Line} (h : line.bytes.length ≤ maxLineBytes) :
    (Interrupted.bytes line.items).length < maxLineBytes := by
  rw [Line.bytes, List.length_append, List.length_singleton] at h
  omega

/-- Induction on the lines: each call that is not a timeout returns the next line's message. -/
theorem delivered_of_received {lines : List Line} {values : List Value}
    {tail : List (Except IoError UInt8)} (htail : .ok newline ∉ tail) {s : σ} {reader : BufReader}
    (hstream : reader.items = lines.flatMap Line.stream ++ tail)
    (htimeouts : ∀ error, .error error ∈ reader.items → IsTimeout error)
    (hlines : ∀ line ∈ lines, line.bytes.length ≤ maxLineBytes)
    (hvalues : lines.map (parse ·.received) = values.map .ok) :
    Delivered handle keepalive values (Interrupted.bytes tail = [])
      (readLoop parse handle keepalive s reader) := by
  induction lines generalizing values s reader with
  | nil =>
    have hnil : values = [] := by simpa using hvalues.symm
    subst hnil
    rw [hstream] at htimeouts
    rcases readLoop_tail parse handle keepalive htail
      htimeouts (s := s) hstream with ⟨error, hloop, hclosed⟩
    rw [hloop]
    by_cases hbytes : Interrupted.bytes tail = []
    · rcases hclosed hbytes with heq | hraised
      · exact .inl ⟨rfl, fun _ => heq⟩
      · exact .inr ⟨List.prefix_rfl, .inr hraised⟩
    · exact .inl ⟨rfl, fun h => absurd h hbytes⟩
  | cons line lines ih =>
    obtain ⟨value, values, rfl⟩ : ∃ v vs, values = v :: vs := by
      cases values with
      | nil => cases hvalues
      | cons v vs => exact ⟨v, vs, rfl⟩
    rcases List.cons.inj hvalues with ⟨hvalue, hvalues⟩
    rw [List.flatMap_cons, List.append_assoc] at hstream
    rw [hstream] at htimeouts
    rcases stream_timeouts htimeouts with ⟨hline, hrest⟩
    rw [Line.stream, List.append_assoc, List.singleton_append] at hstream
    rcases readLoop_line parse handle keepalive line.unbroken
      hline (line_length (hlines line (List.mem_cons_self ..))) (s := s) hstream with
      ⟨error, hraised, hloop⟩ | ⟨s', reader', hitems, hloop⟩
    · rw [hloop]
      exact .inr ⟨List.nil_prefix, .inr hraised⟩
    · change parse (Interrupted.sinceError line.items ++ [newline]) = .ok value at hvalue
      rw [hloop, hvalue]
      cases hhandle : handle s' value with
      | error error =>
        simp only [parsed, afterRead, hhandle]
        exact .inr ⟨List.cons_prefix_cons.2 ⟨rfl, List.nil_prefix⟩, .inl ⟨s', value, hhandle⟩⟩
      | ok s'' =>
        simp only [parsed, afterRead, hhandle]
        rw [← hitems] at hrest
        rcases @ih values s'' reader' hitems hrest
          (fun l hl => hlines l (List.mem_cons_of_mem _ hl)) hvalues with
          ⟨hmessages, hclosed⟩ | ⟨hstarts, hraised⟩
        · exact .inl ⟨by rw [hmessages], hclosed⟩
        · exact .inr ⟨List.cons_prefix_cons.2 ⟨rfl, hstarts⟩, hraised⟩

/-- With a session that never fails, the messages passed on tell what every call received. -/
theorem received_of_messages {lines : List Line} {values : List Value}
    {tail : List (Except IoError UInt8)} {reader : BufReader}
    (hstream : reader.items = lines.flatMap Line.stream ++ tail)
    (htimeouts : ∀ error, .error error ∈ reader.items → IsTimeout error)
    (hlines : ∀ line ∈ lines, line.bytes.length ≤ maxLineBytes)
    (hlength : values.length = lines.length)
    (h : (readLoop parse (fun _ _ => .ok ()) (fun _ => .ok ()) () reader).1 = values) :
    lines.map (parse ·.received) = values.map .ok := by
  induction lines generalizing values reader with
  | nil => simpa [eq_comm] using List.length_eq_zero_iff.1 hlength
  | cons line lines ih =>
    obtain ⟨value, values, rfl⟩ := List.exists_cons_of_length_eq_add_one hlength
    rw [List.flatMap_cons, List.append_assoc] at hstream
    rw [hstream] at htimeouts
    rcases stream_timeouts htimeouts with ⟨hline, hrest⟩
    rw [Line.stream, List.append_assoc, List.singleton_append] at hstream
    rcases readLoop_line parse (fun (_ : Unit) _ => .ok ()) (fun _ => .ok ()) line.unbroken hline
      (line_length (hlines line (List.mem_cons_self ..))) (s := ()) hstream with
      ⟨error, ⟨_, hraised⟩, hloop⟩ | ⟨s', reader', hitems, hloop⟩
    · cases hraised
    · rw [hloop] at h
      change parse line.received :: _ = _
      change (afterRead _ _ _ s' reader' (parsed (parse line.received))).1 = _ at h
      rw [← hitems] at hrest
      cases hparse : parse line.received with
      | error error =>
        rw [hparse] at h
        cases h
      | ok v =>
        rw [hparse] at h
        change v :: (readLoop _ _ _ () reader').1 = value :: values at h
        rw [List.cons.injEq] at h
        rw [ih hitems hrest (fun l hl => hlines l (List.mem_cons_of_mem _ hl))
          (Nat.succ.inj hlength) h.2, List.map_cons, h.1]

/-- The loop passes on exactly the messages of the lines, whatever the session does with them,
if and only if what arrives of each line after the last timeout inside it is as good as the line. -/
theorem stratum_messages_iff (parse : Bytes → Except String Value) (lines : List Line)
    (values : List Value) (tail : List (Except IoError UInt8)) (reader : BufReader)
    (hstream : reader.items = lines.flatMap Line.stream ++ tail) (htail : .ok newline ∉ tail)
    (htimeouts : ∀ error, .error error ∈ reader.items → IsTimeout error)
    (hlines : ∀ line ∈ lines, line.bytes.length ≤ maxLineBytes)
    (hvalues : lines.map (parse ·.bytes) = values.map .ok) :
    (∀ (σ : Type) (handle : σ → Value → Except IoError σ) (keepalive : σ → Except IoError σ)
        (s : σ),
      Delivered handle keepalive values (Interrupted.bytes tail = [])
        (readLoop parse handle keepalive s reader)) ↔
      ∀ line ∈ lines, parse line.received = parse line.bytes := by
  rw [← List.map_inj_left, hvalues]
  constructor
  · intro h
    apply received_of_messages hstream htimeouts hlines
    · simpa using (congrArg List.length hvalues).symm
    · rcases h Unit (fun _ _ => .ok ()) (fun _ => .ok ()) () with ⟨hmessages, -⟩ | ⟨-, hraised⟩
      · exact hmessages
      · rcases hraised with ⟨_, _, ⟨⟩⟩ | ⟨_, ⟨⟩⟩
  · intro h σ handle keepalive s
    exact delivered_of_received htail hstream htimeouts hlines h

/-- Every stream without errors is a sequence of lines and a rest, and the messages of its lines are
passed on, however the bytes are cut into reads. -/
theorem unbroken_stream_delivered {reader : BufReader}
    (hunbroken : ∀ error, .error error ∉ reader.items) :
    ∃ (lines : List Line) (tail : List (Except IoError UInt8)),
      reader.items = lines.flatMap Line.stream ++ tail ∧ .ok newline ∉ tail ∧
      ∀ values, (∀ line ∈ lines, line.bytes.length ≤ maxLineBytes) →
        lines.map (parse ·.bytes) = values.map .ok → ∀ s,
          Delivered handle keepalive values (Interrupted.bytes tail = [])
            (readLoop parse handle keepalive s reader) := by
  obtain ⟨lines, tail, htail, hitems⟩ := Line.exists_lines reader.items
  refine ⟨lines, tail, hitems, htail, fun values hlines hvalues s => ?_⟩
  have hreceived (line : Line) (hline : line ∈ lines) : line.received = line.bytes := by
    refine Line.received_eq_bytes fun error herror => hunbroken error ?_
    rw [hitems]
    refine List.mem_append_left _ (List.mem_flatMap.2 ⟨line, hline, ?_⟩)
    exact List.mem_append_left _ herror
  refine delivered_of_received htail hitems (fun error h => absurd h (hunbroken error)) hlines ?_
  rw [← hvalues]
  exact List.map_congr_left fun line hline => congrArg parse (hreceived line hline)

section Replies

/-- What the JSON parser makes of a keepalive reply, and of the end of one. -/
def parseReply (bytes : Bytes) : Except String Value :=
  if bytes = utf8 "\x7b\"id\":2\x7d\n" then .ok (.object [("id", .nat 2)])
  else .error "expected value at line 1 column 1"

def readTimeout : IoError := ⟨.timedOut, "timed out"⟩

def wholeReply : Line := ⟨(utf8 "\x7b\"id\":2\x7d").map .ok, by decide⟩

def lateReply : Line := ⟨.error readTimeout :: wholeReply.items, by decide⟩

def brokenReply : Line :=
  ⟨.ok 0x7b :: .error readTimeout :: (utf8 "\"id\":2\x7d").map .ok, by decide⟩

/-- Two replies, with a timeout between them. -/
def twoReplies : BufReader :=
  ⟨[], [.ok ⟨utf8 "\x7b\"id\":2\x7d\n", by decide⟩, .error readTimeout,
    .ok ⟨utf8 "\x7b\"id\":2\x7d\n", by decide⟩]⟩

/-- One reply, with a timeout after its first byte. -/
def splitReply : BufReader :=
  ⟨[], [.ok ⟨[0x7b], by decide⟩, .error readTimeout, .ok ⟨utf8 "\"id\":2\x7d\n", by decide⟩]⟩

theorem stratum_messages_iff_twoReplies :
    (∀ (σ : Type) (handle : σ → Value → Except IoError σ) (keepalive : σ → Except IoError σ)
        (s : σ),
      Delivered handle keepalive [.object [("id", .nat 2)], .object [("id", .nat 2)]]
        (Interrupted.bytes ([] : List (Except IoError UInt8)) = [])
        (readLoop parseReply handle keepalive s twoReplies)) ↔
      ∀ line ∈ [wholeReply, lateReply], parseReply line.received = parseReply line.bytes :=
  stratum_messages_iff parseReply [wholeReply, lateReply] _ [] twoReplies (by decide) (by decide)
    (by simp [BufReader.items, twoReplies, ReadEvent.items, IsTimeout, readTimeout]) (by decide)
    rfl

/-- The first byte of the reply is gone with the call that timed out. -/
theorem stratum_message_lost :
    ¬∀ (parse : Bytes → Except String Value) (lines : List Line) (values : List Value)
      (tail : List (Except IoError UInt8)) (reader : BufReader),
      reader.items = lines.flatMap Line.stream ++ tail → .ok newline ∉ tail →
      (∀ error, .error error ∈ reader.items → IsTimeout error) →
      (∀ line ∈ lines, line.bytes.length ≤ maxLineBytes) →
      lines.map (parse ·.bytes) = values.map .ok →
      ∀ (σ : Type) (handle : σ → Value → Except IoError σ) (keepalive : σ → Except IoError σ)
        (s : σ), Delivered handle keepalive values (Interrupted.bytes tail = [])
          (readLoop parse handle keepalive s reader) := by
  intro h
  have hstream : splitReply.items = [brokenReply].flatMap Line.stream ++ [] := by decide
  have htimeouts : ∀ error, .error error ∈ splitReply.items → IsTimeout error := by
    simp [BufReader.items, splitReply, ReadEvent.items, IsTimeout, readTimeout]
  have hlines : ∀ line ∈ [brokenReply], line.bytes.length ≤ maxLineBytes := by decide
  rcases h parseReply [brokenReply] [.object [("id", .nat 2)]] [] splitReply hstream (by decide)
    htimeouts hlines rfl Unit (fun _ _ => .ok ()) (fun _ => .ok ()) () with
    ⟨hmessages, -⟩ | ⟨-, ⟨_, _, ⟨⟩⟩ | ⟨_, ⟨⟩⟩⟩
  have hreceived := received_of_messages hstream htimeouts hlines rfl hmessages
  have hbroken : parseReply brokenReply.received = .error "expected value at line 1 column 1" :=
    if_neg (by decide)
  rw [List.map_singleton, hbroken] at hreceived
  cases hreceived

end Replies

end XusMiner.Stratum

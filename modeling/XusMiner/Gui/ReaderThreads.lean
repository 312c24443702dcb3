import XusMiner.Gui.ChildLines
import XusMiner.Library.BoundedQueue
import XusMiner.Library.Runs

namespace XusMiner.Gui

def childOutputQueueCapacity : ℕ := 256

/-- The pipes of an engine that the window reads. -/
inductive Stream
  | stdout
  | stderr
  deriving DecidableEq

instance : Fintype Stream := ⟨{.stdout, .stderr}, fun stream => by cases stream <;> decide⟩

/-- One round of the engine-log thread. -/
def engineLogStep (reader : BufReader) : Option ProcessMessage × Option BufReader :=
  match readBoundedChildLine reader with
  | (.ok (some line), reader) => (some (.log line), some reader)
  | (.ok none, _) => (none, none)
  | (.error error, _) => (some (.log ("Engine log channel failed: " ++ error.message)), none)

def readerStep (parse : String → Except String Value) :
    Stream → BufReader → Option ProcessMessage × Option BufReader
  | .stdout => telemetryStep parse
  | .stderr => engineLogStep

/-- All that a reader thread makes of its pipe. -/
def output (parse : String → Except String Value) (stream : Stream) (reader : BufReader) :
    List ProcessMessage :=
  Producer.made (readerStep parse stream) (reader.items.length + 1) reader

/-- What the telemetry thread makes of a line of text. -/
def lineMessage (parse : String → Except String Value) : Stream → String → ProcessMessage
  | .stdout, line =>
    match parse line with
    | .ok value => .telemetry value
    | .error _ => .log line
  | .stderr, line => .log line

abbrev OutputQueue := BoundedQueue Stream BufReader ProcessMessage

/-- The window with the output queue of every engine it ever starts: engine `n` is the process
with this serial number, and its queue is idle until it is spawned. -/
structure Window where
  app : MinerApp
  queues : ℕ → OutputQueue

/-- A reader thread proceeds, the operator acts, or a frame polls the engine. The frame's receives
are interleaved with the readers' turns of the schedule; `clock` are the instants at which the
messages are applied. -/
inductive Action
  | read (serial : ℕ) (stream : Stream)
  | operate (operation : Operation)
  | poll (env : PollEnv) (clock : ℕ → ℕ) (schedule : List (List Stream))

def Window.launched (app : MinerApp) (pipes : ℕ → Stream → BufReader) : Window :=
  ⟨app, fun serial => { producers := fun stream => .working (pipes serial stream) }⟩

namespace Window

variable (platform : Platform) (parse : String → Except String Value)

/-- Only the queue of the engine spawned last may still be received from. -/
def receives (w : Window) (serial : ℕ) : Bool := w.app.receiver && w.app.spawned == serial + 1

def turn (received : Bool) (stream : Stream) (queue : OutputQueue) : OutputQueue :=
  queue.turn (readerStep parse) childOutputQueueCapacity received stream

def read (w : Window) (serial : ℕ) (stream : Stream) : Window :=
  let queue := turn parse (w.receives serial) stream (w.queues serial)
  { w with queues := Function.update w.queues serial queue }

/-- `poll_process` with the receives of `drain_process_messages`. -/
def poll (w : Window) (env : PollEnv) (clock : ℕ → ℕ) (schedule : List (List Stream)) : Window :=
  if w.app.receiver then
    let serial := w.app.spawned - 1
    let (messages, disconnected, queue) := BoundedQueue.drain (turn parse true)
      maxProcessMessagesPerFrame schedule (w.queues serial)
    ⟨w.app.pollProcess platform { env with
        messages := messages.mapIdx fun k message => (clock k, message)
        disconnected },
      Function.update w.queues serial queue⟩
  else { w with app := w.app.pollProcess platform env }

/-- The window applies telemetry and starts a failed engine again in its polls only. -/
def step (w : Window) : Action → Option Window
  | .read serial stream =>
    if serial < w.app.spawned then some (w.read parse serial stream) else none
  | .operate (.pollProcess _) | .operate (.applyTelemetry ..) | .operate (.automaticRestart _) =>
    none
  | .operate operation => some { w with app := w.app.step platform operation }
  | .poll env clock schedule => some (w.poll platform parse env clock schedule)

end Window

/-- What a line is read from, the loop uses up. -/
theorem readChildLineFrom_shrinks (line : ChildLine) (buffer : ByteCodec.Bytes)
    (events : List ReadEvent) :
    (readChildLineFrom line buffer events).2.items.length ≤
        (BufReader.items ⟨buffer, events⟩).length ∧
      ∀ line', (readChildLineFrom line buffer events).1 = .ok line' → line'.sawBytes = true →
        line.sawBytes = true ∨ (readChildLineFrom line buffer events).2.items.length <
          (BufReader.items ⟨buffer, events⟩).length := by
  have hitems (buffer : ByteCodec.Bytes) (events : List ReadEvent) :
      (BufReader.items ⟨buffer, events⟩).length =
        buffer.length + (events.flatMap ReadEvent.items).length := by
    rw [BufReader.items, List.length_append, List.length_map]
  induction events generalizing line buffer with
  | nil =>
    by_cases hfound : newline ∈ buffer
    · have hpos := List.length_pos_of_mem hfound
      rw [readChildLineFrom, if_pos hfound, hitems, hitems, List.length_drop]
      exact ⟨by omega, fun _ _ _ => .inr (by omega)⟩
    · rw [readChildLineFrom, if_neg hfound, hitems, hitems]
      refine ⟨by simp, ?_⟩
      by_cases hempty : buffer = []
      · rw [if_pos hempty]
        exact fun line' hline hsaw => .inl (Except.ok.inj hline ▸ hsaw)
      · have hpos := List.length_pos_of_ne_nil hempty
        exact fun _ _ _ => .inr (by simpa using hpos)
  | cons event events ih =>
    by_cases hfound : newline ∈ buffer
    · have hpos := List.length_pos_of_mem hfound
      rw [readChildLineFrom, if_pos hfound, hitems, hitems, List.length_drop]
      exact ⟨by omega, fun _ _ _ => .inr (by omega)⟩
    · rw [readChildLineFrom, if_neg hfound]
      cases event with
      | error error =>
        rw [hitems, hitems, List.flatMap_cons, List.length_append]
        exact ⟨by rw [List.length_nil]; omega, fun line' hline => by cases hline⟩
      | ok bytes =>
        have hrest := ih (if buffer = [] then line else line.retain buffer) bytes.val
        have hsplit : (BufReader.items ⟨buffer, .ok bytes :: events⟩).length =
            buffer.length + (BufReader.items ⟨bytes.val, events⟩).length := by
          rw [hitems, hitems]
          simp [ReadEvent.items]
        rw [hsplit]
        dsimp only
        refine ⟨by omega, fun line' hline hsaw => ?_⟩
        by_cases hempty : buffer = []
        · rcases hrest.2 line' hline hsaw with hsaw | hless
          · rw [if_pos hempty] at hsaw
            exact .inl hsaw
          · exact .inr (by omega)
        · have hpos := List.length_pos_of_ne_nil hempty
          exact .inr (by omega)

theorem readBoundedChildLine_shrinks {reader reader' : BufReader} {line : String}
    (h : readBoundedChildLine reader = (.ok (some line), reader')) :
    reader'.items.length < reader.items.length := by
  have hshrinks := (readChildLineFrom_shrinks {} reader.buffer reader.events).2
  rw [readBoundedChildLine] at h
  simp only [Prod.mk.injEq] at h
  obtain ⟨hline, rfl⟩ := h
  cases hread : (readChildLineFrom {} reader.buffer reader.events).1 with
  | error error =>
    rw [hread] at hline
    cases hline
  | ok line' =>
    rw [hread] at hline
    have hfinish : line'.finish = some line := Except.ok.inj hline
    have hsaw : line'.sawBytes = true := by
      by_contra hnot
      simp [ChildLine.finish, hnot] at hfinish
    exact (hshrinks line' hread hsaw).resolve_left (by simp)

theorem readerStep_shrinks {parse : String → Except String Value} (stream : Stream)
    (reader : BufReader) (item : Option ProcessMessage) (next : BufReader)
    (h : readerStep parse stream reader = (item, some next)) :
    next.items.length < reader.items.length := by
  cases stream with
  | stdout =>
    rw [readerStep, telemetryStep] at h
    split at h
    · next line reader' hread =>
      have hnext : reader' = next := by
        split at h <;> simpa using (Prod.mk.inj h).2
      exact hnext ▸ readBoundedChildLine_shrinks hread
    · cases h
    · cases h
  | stderr =>
    rw [readerStep, engineLogStep] at h
    split at h
    · next line reader' hread =>
      have hnext : reader' = next := by simpa using (Prod.mk.inj h).2
      exact hnext ▸ readBoundedChildLine_shrinks hread
    · cases h
    · cases h

/-- Every reader thread comes to the end of its pipe. -/
theorem makes_output (parse : String → Except String Value) (stream : Stream) (reader : BufReader) :
    Producer.Makes (readerStep parse stream) reader (output parse stream reader) :=
  Producer.makes_made (readerStep_shrinks stream) (Nat.lt_succ_self _)

theorem readerStep_line {parse : String → Except String Value} (stream : Stream)
    {reader reader' : BufReader} {line : String}
    (h : readBoundedChildLine reader = (.ok (some line), reader')) :
    readerStep parse stream reader = (some (lineMessage parse stream line), some reader') := by
  cases stream with
  | stdout =>
    rw [readerStep, telemetryStep, h, lineMessage]
    dsimp only
    cases parse line <;> rfl
  | stderr => rw [readerStep, engineLogStep, h, lineMessage]

theorem readerStep_end {parse : String → Except String Value} (stream : Stream)
    {reader reader' : BufReader} (h : readBoundedChildLine reader = (.ok none, reader')) :
    readerStep parse stream reader = (none, none) := by
  cases stream with
  | stdout => rw [readerStep, telemetryStep, h]
  | stderr => rw [readerStep, engineLogStep, h]

/-- The lines of a pipe, one after the other, and then its end. -/
theorem makes_lines {parse : String → Except String Value} (stream : Stream) {lines : List String}
    {reader : BufReader} (h : ∀ calls, readChildLines calls reader = results calls lines) :
    Producer.Makes (readerStep parse stream) reader (lines.map (lineMessage parse stream)) := by
  induction lines generalizing reader with
  | nil =>
    have hfirst := h 1
    rw [results_nil, readChildLines] at hfirst
    have hread : readBoundedChildLine reader = (.ok none, (readBoundedChildLine reader).2) :=
      Prod.ext (List.cons.inj hfirst).1 rfl
    exact .last (readerStep_end stream hread)
  | cons line lines ih =>
    have hlater (calls : ℕ) : (readBoundedChildLine reader).1 = .ok (some line) ∧
        readChildLines calls (readBoundedChildLine reader).2 = results calls lines := by
      have hnext := h (calls + 1)
      rw [results_cons, readChildLines] at hnext
      exact List.cons.inj hnext
    have hread : readBoundedChildLine reader =
        (.ok (some line), (readBoundedChildLine reader).2) := Prod.ext (hlater 0).1 rfl
    exact .more (readerStep_line stream hread) (ih fun calls => (hlater calls).2)

/-- An unbroken pipe is read line by line. -/
theorem output_lines {parse : String → Except String Value} (stream : Stream) {reader : BufReader}
    {segments : List ByteCodec.Bytes} {tail : ByteCodec.Bytes}
    (hsegments : ∀ s ∈ segments, newline ∉ s) (htail : newline ∉ tail)
    (h : reader.items = (segments.flatMap (· ++ [newline]) ++ tail).map .ok) :
    output parse stream reader = (childLines segments tail).map (lineMessage parse stream) :=
  (makes_output parse stream reader).unique
    (makes_lines stream fun calls => readChildLines_eq calls hsegments htail h)

end XusMiner.Gui

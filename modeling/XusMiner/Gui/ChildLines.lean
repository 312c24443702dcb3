import XusMiner.Gui.ChildOutput
import XusMiner.Library.Lossy

namespace XusMiner.Gui
open ByteCodec

/-- The results of a number of calls, one after the other. -/
def readChildLines : Nat → BufReader → List (Except IoError (Option String))
  | 0, _ => []
  | calls + 1, reader =>
    let (result, reader) := readBoundedChildLine reader
    result :: readChildLines calls reader

/-- A pipe whose bytes come in these pieces, and then end. -/
def pipe (chunks : List {bytes : Bytes // bytes ≠ []}) : BufReader := ⟨[], chunks.map .ok⟩

/-- What a line is read as: its content alone decides it. -/
def childLine (content : Bytes) (terminated : Bool) : String :=
  (ChildLine.finish {
    captured := content.take maxChildLineBytes
    sawBytes := true
    truncated := decide (maxChildLineBytes < content.length)
    reachedLineEnd := terminated }).getD ""

/-- The results for a stream with these lines, of which the last has no newline. -/
def childLines (segments : List Bytes) (tail : Bytes) : List String :=
  segments.map (childLine · true) ++ if tail = [] then [] else [childLine tail false]

/-- The results of a number of calls: a line each, and nothing once there are no more. -/
def results (calls : Nat) (lines : List String) : List (Except IoError (Option String)) :=
  (lines.map (fun line => Except.ok (some line)) ++
    List.replicate calls (Except.ok none)).take calls

def stripCarriageReturn (text : String) : String :=
  if text.toList.getLast? = some '\r' then String.ofList text.toList.dropLast else text

theorem items_pipe (chunks : List {bytes : Bytes // bytes ≠ []}) :
    (pipe chunks).items = (chunks.flatMap Subtype.val).map .ok := by
  rw [pipe, BufReader.items, List.map_nil, List.nil_append, List.flatMap_map, List.map_flatMap]
  rfl

theorem exists_segments (stream : Bytes) : ∃ (segments : List Bytes) (tail : Bytes),
    stream = segments.flatMap (· ++ [newline]) ++ tail ∧ (∀ s ∈ segments, newline ∉ s) ∧
      newline ∉ tail := by
  induction stream with
  | nil => exact ⟨[], [], rfl, by simp, by simp⟩
  | cons b stream ih =>
    obtain ⟨segments, tail, rfl, hsegments, htail⟩ := ih
    by_cases hb : b = newline
    · exact ⟨[] :: segments, tail, by simp [hb], by simpa using hsegments, htail⟩
    · cases segments with
      | nil => exact ⟨[], b :: tail, rfl, by simp, by simp [Ne.symm hb, htail]⟩
      | cons s segments =>
        obtain ⟨hs, hsegments⟩ := List.forall_mem_cons.1 hsegments
        refine ⟨(b :: s) :: segments, tail, by simp, List.forall_mem_cons.2 ⟨?_, hsegments⟩, htail⟩
        simp [Ne.symm hb, hs]

theorem ChildLine.Of.finish_eq {content : Bytes} {line : ChildLine} (h : line.Of content)
    (hsaw : line.sawBytes = true) :
    line.finish = some (childLine content line.reachedLineEnd) := by
  have hline : line = {
      captured := content.take maxChildLineBytes
      sawBytes := true
      truncated := decide (maxChildLineBytes < content.length)
      reachedLineEnd := line.reachedLineEnd } := by
    rw [← h.captured, ← h.truncated, ← hsaw]
  rw [hline]
  rfl

/-- The buffer holds the beginning of what is left. -/
theorem tail_buffer {buffer tail : Bytes} {events : List ReadEvent} (htail : newline ∉ tail)
    (h : BufReader.items ⟨buffer, events⟩ = tail.map .ok) :
    newline ∉ buffer ∧ ∃ tail', tail = buffer ++ tail' ∧
      events.flatMap ReadEvent.items = tail'.map .ok := by
  obtain ⟨front, tail', rfl, hfront, hrest⟩ := List.append_eq_map_iff.1 h
  obtain rfl := List.map_injective_iff.2 (fun _ _ => Except.ok.inj) hfront
  exact ⟨fun hmem => htail (List.mem_append_left _ hmem), tail', rfl, hrest.symm⟩

theorem retain_buffer {read : Bytes} {line : ChildLine} (hline : line.Of read)
    (hsaw : line.sawBytes = decide (read ≠ [])) (hend : line.reachedLineEnd = false)
    (buffer : Bytes) :
    (if buffer = [] then line else line.retain buffer).Of (read ++ buffer) ∧
      (if buffer = [] then line else line.retain buffer).sawBytes = decide (read ++ buffer ≠ []) ∧
      (if buffer = [] then line else line.retain buffer).reachedLineEnd = false := by
  by_cases hempty : buffer = []
  · rw [if_pos hempty, hempty, List.append_nil]
    exact ⟨hline, hsaw, hend⟩
  · rw [if_neg hempty]
    exact ⟨hline.retain buffer, by simp [ChildLine.retain, hempty], hend⟩

/-- At the end of input the loop has read all there was. -/
theorem readChildLineFrom_tail {read : Bytes} {line : ChildLine} (hline : line.Of read)
    (hsaw : line.sawBytes = decide (read ≠ [])) (hend : line.reachedLineEnd = false)
    {buffer : Bytes} {events : List ReadEvent} {tail : Bytes} (htail : newline ∉ tail)
    (h : BufReader.items ⟨buffer, events⟩ = tail.map .ok) :
    ∃ line', readChildLineFrom line buffer events = (.ok line', ⟨[], []⟩) ∧
      line'.Of (read ++ tail) ∧ line'.sawBytes = decide (read ++ tail ≠ []) ∧
      line'.reachedLineEnd = false := by
  induction events generalizing read line buffer tail with
  | nil =>
    obtain ⟨hnotMem, tail', rfl, hrest⟩ := tail_buffer htail h
    obtain ⟨hof, hsaw', hend'⟩ := retain_buffer hline hsaw hend buffer
    obtain rfl : tail' = [] := by simpa using hrest
    rw [readChildLineFrom, if_neg hnotMem, List.append_nil]
    exact ⟨_, rfl, hof, hsaw', hend'⟩
  | cons event events ih =>
    obtain ⟨hnotMem, tail', rfl, hrest⟩ := tail_buffer htail h
    obtain ⟨hof, hsaw', hend'⟩ := retain_buffer hline hsaw hend buffer
    rw [readChildLineFrom, if_neg hnotMem, ← List.append_assoc]
    cases event with
    | error error =>
      exfalso
      cases tail' <;> cases hrest
    | ok bytes =>
      exact ih hof hsaw' hend' (fun hmem => htail (List.mem_append_right _ hmem)) hrest

theorem take_replicate_succ {α : Type} (xs : List α) (a : α) (n : Nat) :
    (xs ++ List.replicate (n + 1) a).take n = (xs ++ List.replicate n a).take n := by
  rw [List.replicate_succ', ← List.append_assoc, List.take_append_of_le_length]
  rw [List.length_append, List.length_replicate]
  exact Nat.le_add_left _ _

theorem results_cons (calls : Nat) (line : String) (lines : List String) :
    results (calls + 1) (line :: lines) = .ok (some line) :: results calls lines := by
  rw [results, results, List.map_cons, List.cons_append, List.take_succ_cons, take_replicate_succ]

theorem results_nil (calls : Nat) : results (calls + 1) [] = .ok none :: results calls [] := by
  rw [results, results, List.map_nil, List.nil_append, List.replicate_succ, List.take_succ_cons,
    List.nil_append]

theorem readChildLines_eq (calls : Nat) {reader : BufReader} {segments : List Bytes} {tail : Bytes}
    (hsegments : ∀ s ∈ segments, newline ∉ s) (htail : newline ∉ tail)
    (h : reader.items = (segments.flatMap (· ++ [newline]) ++ tail).map .ok) :
    readChildLines calls reader = results calls (childLines segments tail) := by
  have hof : ChildLine.Of [] {} := ⟨rfl, rfl⟩
  induction calls generalizing reader segments tail with
  | zero => rfl
  | succ calls ih =>
    rw [readChildLines, readBoundedChildLine]
    cases segments with
    | cons s segments =>
      obtain ⟨hs, hsegments⟩ := List.forall_mem_cons.1 hsegments
      have hitems : reader.items = (s ++ [newline]).map .ok ++
          (segments.flatMap (· ++ [newline]) ++ tail).map .ok := by
        rw [h, ← List.map_append, List.flatMap_cons, List.append_assoc]
      obtain ⟨line', reader', hread, hof', hsaw, hend, hrest⟩ :=
        readChildLineFrom_line hs _ hof hitems
      have hfinish := hof'.finish_eq hsaw
      rw [hend] at hfinish
      simp only [hread, Except.map, hfinish, List.nil_append]
      rw [ih hsegments htail hrest]
      exact (results_cons calls _ _).symm
    | nil =>
      rw [List.flatMap_nil, List.nil_append] at h
      obtain ⟨line', hread, hof', hsaw, hend⟩ := readChildLineFrom_tail hof rfl rfl htail h
      rw [List.nil_append] at hof' hsaw
      have hrest : readChildLines calls ⟨[], []⟩ = results calls [] :=
        @ih ⟨[], []⟩ [] [] (by simp) (by simp) rfl
      by_cases hempty : tail = []
      · have hfinish : line'.finish = none := by simp [ChildLine.finish, hsaw, hempty]
        simp only [hread, Except.map, hfinish, hrest]
        rw [childLines, if_pos hempty]
        exact (results_nil calls).symm
      · have hfinish := hof'.finish_eq (by rw [hsaw, decide_eq_true hempty])
        rw [hend] at hfinish
        simp only [hread, Except.map, hfinish, hrest]
        rw [childLines, if_neg hempty]
        exact (results_cons calls _ _).symm

theorem utf8ByteSize_ofList (cs : List Char) :
    (String.ofList cs).utf8ByteSize = Utf8.byteSize cs := by
  rw [← Utf8.length_utf8, Utf8.length_utf8_ofList]

theorem boundedText_le (raw suffix : String) (maxBytes : Nat) (force : Bool) :
    (boundedText raw maxBytes suffix force).utf8ByteSize ≤ maxBytes := by
  unfold boundedText
  split_ifs with hfits hzero hsuffix
  · simp only [Bool.and_eq_true, decide_eq_true_eq] at hfits
    exact hfits.2
  · exact Nat.zero_le _
  · rw [utf8ByteSize_ofList]
    exact Utf8.byteSize_takeBytes _ _
  · have hfront := Utf8.byteSize_takeBytes (maxBytes - suffix.utf8ByteSize) raw.toList
    rw [String.utf8ByteSize_append, utf8ByteSize_ofList]
    omega

theorem childLine_le (content : Bytes) (terminated : Bool) :
    (childLine content terminated).utf8ByteSize ≤ maxChildLineBytes := boundedText_le _ _ _ _

theorem utf8_stripCarriageReturn (text : String) :
    (if (utf8 text).getLast? == some carriageReturn then (utf8 text).dropLast else utf8 text) =
      utf8 (stripCarriageReturn text) := by
  have hencode : String.utf8EncodeChar '\r' = [carriageReturn] := rfl
  rcases List.eq_nil_or_concat' text.toList with hempty | ⟨front, c, hlast⟩
  · obtain rfl := String.toList_eq_nil_iff.1 hempty
    rfl
  · have hutf8 : utf8 text = utf8 (String.ofList front) ++ String.utf8EncodeChar c := by
      rw [Utf8.utf8_eq_flatMap, hlast, List.flatMap_append, List.flatMap_singleton, utf8_ofList]
    by_cases hc : c = '\r'
    · subst hc
      rw [stripCarriageReturn, hutf8, hlast, hencode]
      simp
    · have hne : ((utf8 text).getLast? == some carriageReturn) = false := by
        apply beq_false_of_ne
        intro hreturn
        have hmem : carriageReturn ∈ String.utf8EncodeChar c := by
          rw [hutf8, List.getLast?_append_of_ne_nil _ String.utf8EncodeChar_ne_nil] at hreturn
          exact List.mem_of_getLast? hreturn
        exact hc (Utf8.eq_of_mem_encodeChar hencode hmem)
      rw [stripCarriageReturn, hne, hlast]
      simp [hc]

/-- A line that fits is shown as it was written. -/
theorem childLine_fits {text : String} (h : (utf8 text).length ≤ maxChildLineBytes)
    (terminated : Bool) : childLine (utf8 text) terminated =
      if terminated then stripCarriageReturn text else text := by
  have hshown : ∀ shown : String, (utf8 shown).length ≤ maxChildLineBytes →
      boundedText (Utf8.fromUtf8Lossy (utf8 shown)) maxChildLineBytes truncatedLineSuffix
        (false || decide (maxChildLineBytes < (Utf8.fromUtf8Lossy (utf8 shown)).utf8ByteSize)) =
          shown := by
    intro shown hlength
    rw [Utf8.length_utf8] at hlength
    rw [Utf8.fromUtf8Lossy_utf8, Bool.false_or, decide_eq_false (not_lt.2 hlength)]
    exact boundedText_fits hlength
  have htruncated := decide_eq_false (not_lt.2 h)
  cases terminated with
  | false =>
    simp only [childLine, ChildLine.finish, List.take_of_length_le h, htruncated]
    exact hshown text h
  | true =>
    simp only [childLine, ChildLine.finish, List.take_of_length_le h, htruncated, Bool.not_false,
      Bool.true_and, utf8_stripCarriageReturn, Bool.not_true, Bool.false_eq_true, if_false, if_true,
      Option.getD_some]
    refine hshown (stripCarriageReturn text) (le_trans ?_ h)
    rw [← utf8_stripCarriageReturn]
    split_ifs
    · rw [List.length_dropLast]
      exact Nat.sub_le _ _
    · exact le_rfl

/-- A line that does not fit is shown as far as it was kept. -/
theorem childLine_long {content : Bytes} (h : maxChildLineBytes < content.length)
    (terminated : Bool) : ∃ front, front <+: (Utf8.fromUtf8Lossy content).toList ∧
      childLine content terminated = String.ofList front ++ truncatedLineSuffix := by
  have hforced := boundedText_forced (Utf8.fromUtf8Lossy (content.take maxChildLineBytes))
  have hbudget : maxChildLineBytes - truncatedLineSuffix.utf8ByteSize + 3 ≤
      (content.take maxChildLineBytes).length := by
    rw [List.length_take_of_le h.le]
    decide
  have hline : childLine content terminated =
      boundedText (Utf8.fromUtf8Lossy (content.take maxChildLineBytes)) maxChildLineBytes
        truncatedLineSuffix true := by
    simp [childLine, ChildLine.finish, h]
  have hprefix := Utf8.takeBytes_lossyChars hbudget (content.drop maxChildLineBytes)
  rw [List.take_append_drop] at hprefix
  refine ⟨_, ?_, hline.trans hforced⟩
  rwa [Utf8.fromUtf8Lossy, Utf8.fromUtf8Lossy, String.toList_ofList, String.toList_ofList]

/-- What the lines of a child process are read as depends on its output alone, and a long line does
not reach into the next one. -/
theorem child_lines_of_stream (stream : Bytes) : ∃ (segments : List Bytes) (tail : Bytes),
    stream = segments.flatMap (· ++ [newline]) ++ tail ∧ (∀ s ∈ segments, newline ∉ s) ∧
    newline ∉ tail ∧
    (∀ chunks, chunks.flatMap Subtype.val = stream → ∀ calls,
      readChildLines calls (pipe chunks) = results calls (childLines segments tail)) ∧
    ∀ content terminated,
      (childLine content terminated).utf8ByteSize ≤ maxChildLineBytes ∧
      (∀ text, content = utf8 text → content.length ≤ maxChildLineBytes →
        childLine content terminated = if terminated then stripCarriageReturn text else text) ∧
      (maxChildLineBytes < content.length →
        ∃ front, front <+: (Utf8.fromUtf8Lossy content).toList ∧
          childLine content terminated = String.ofList front ++ truncatedLineSuffix) := by
  obtain ⟨segments, tail, rfl, hsegments, htail⟩ := exists_segments stream
  refine ⟨segments, tail, rfl, hsegments, htail, fun chunks hchunks calls => ?_,
    fun content terminated => ⟨childLine_le content terminated, ?_, fun h => childLine_long h _⟩⟩
  · exact readChildLines_eq calls hsegments htail (by rw [items_pipe, hchunks])
  · rintro text rfl hlength
    exact childLine_fits hlength terminated

end XusMiner.Gui

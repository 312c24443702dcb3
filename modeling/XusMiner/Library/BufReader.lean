import XusMiner.Library.ByteCodec
import XusMiner.Library.Interrupted

open ByteCodec

inductive ErrorKind
  | wouldBlock
  | timedOut
  | unexpectedEof
  | invalidData
  | invalidInput
  | permissionDenied
  | outOfMemory
  | other
  deriving DecidableEq

structure IoError where
  kind : ErrorKind
  message : String
  deriving DecidableEq

/-- One read of the underlying stream: some bytes, at least one, or an error. When the events
have run out every further read meets the end of the stream. -/
abbrev ReadEvent := Except IoError {bytes : Bytes // bytes ≠ []}

def ReadEvent.items : ReadEvent → List (Except IoError UInt8)
  | .ok bytes => bytes.val.map .ok
  | .error error => [.error error]

structure BufReader where
  buffer : Bytes
  events : List ReadEvent

namespace BufReader

/-- The bytes and errors still to come, however they are cut into reads. -/
def items (reader : BufReader) : List (Except IoError UInt8) :=
  reader.buffer.map .ok ++ reader.events.flatMap ReadEvent.items

theorem items_buffered (bytes : Bytes) : items ⟨bytes, []⟩ = bytes.map .ok ++ [] := rfl

def readUntilFrom (delim : UInt8) (limit : Nat) (buffer out : Bytes) (events : List ReadEvent) :
    Except IoError Bytes × BufReader :=
  if delim ∈ buffer.take limit then
    let line := buffer.takeWhile (· ≠ delim) ++ [delim]
    (.ok (out ++ line), ⟨buffer.drop line.length, events⟩)
  else if limit ≤ buffer.length then (.ok (out ++ buffer.take limit), ⟨buffer.drop limit, events⟩)
  else match events with
    | [] => (.ok (out ++ buffer), ⟨[], []⟩)
    | .error error :: events => (.error error, ⟨[], events⟩)
    | .ok bytes :: events =>
      readUntilFrom delim (limit - buffer.length) bytes.val (out ++ buffer) events

/-- `reader.by_ref().take(limit).read_until(delim, &mut out)`: the stream is only read when the
buffer is used up, and an error leaves in `out` what was moved there before it. -/
def readUntil (delim : UInt8) (limit : Nat) (reader : BufReader) (out : Bytes) :
    Except IoError Bytes × BufReader :=
  readUntilFrom delim limit reader.buffer out reader.events

theorem eq_takeWhile_append {delim : UInt8} {buffer : Bytes} (h : delim ∈ buffer) :
    buffer = buffer.takeWhile (· ≠ delim) ++ delim ::
      buffer.drop (buffer.takeWhile (· ≠ delim) ++ [delim]).length := by
  induction buffer with
  | nil => cases h
  | cons b buffer ih =>
    by_cases hb : b = delim
    · subst hb
      simp
    · have hmem : delim ∈ buffer := (List.mem_cons.1 h).resolve_left (Ne.symm hb)
      rw [List.takeWhile_cons_of_pos (by simpa using hb)]
      simpa using ih hmem

theorem notMem_takeWhile (delim : UInt8) (buffer : Bytes) :
    delim ∉ buffer.takeWhile (· ≠ delim) := by
  intro h
  have hall := List.all_takeWhile (p := (· ≠ delim)) (l := buffer)
  simpa using List.all_eq_true.1 hall delim h

theorem readUntil_found {delim : UInt8} {limit : Nat} {buffer out : Bytes}
    (h : delim ∈ buffer.take limit) (rest : List (Except IoError UInt8)) :
    Interrupted.readUntil delim limit (buffer.map .ok ++ rest) out =
      (.ok (out ++ (buffer.takeWhile (· ≠ delim) ++ [delim])),
        (buffer.drop (buffer.takeWhile (· ≠ delim) ++ [delim]).length).map .ok ++ rest) := by
  have hbuffer := eq_takeWhile_append (List.mem_of_mem_take h)
  have hlimit : (buffer.takeWhile (· ≠ delim)).length < limit := by
    by_contra hle
    apply notMem_takeWhile delim buffer
    rw [hbuffer, List.take_append_of_le_length (by omega)] at h
    exact List.mem_of_mem_take h
  conv_lhs => rw [hbuffer, List.map_append, List.map_cons, List.append_assoc, List.cons_append]
  rw [Interrupted.readUntil_line (notMem_takeWhile delim buffer) hlimit, List.append_assoc]

theorem readUntil_capped {delim : UInt8} {limit : Nat} {buffer out : Bytes}
    (h : delim ∉ buffer.take limit) (hlimit : limit ≤ buffer.length)
    (rest : List (Except IoError UInt8)) :
    Interrupted.readUntil delim limit (buffer.map .ok ++ rest) out =
      (.ok (out ++ buffer.take limit), (buffer.drop limit).map .ok ++ rest) := by
  have hfull : Interrupted.readUntil delim _ _ out = _ :=
    Interrupted.readUntil_full h ((buffer.drop limit).map .ok ++ rest)
  rwa [List.length_take_of_le hlimit, ← List.append_assoc, ← List.map_append,
    List.take_append_drop] at hfull

/-- How the stream is cut into reads does not show: the loop reads the items one by one. -/
theorem readUntilFrom_items (delim : UInt8) (limit : Nat) (buffer out : Bytes)
    (events : List ReadEvent) :
    Interrupted.readUntil delim limit (items ⟨buffer, events⟩) out =
      ((readUntilFrom delim limit buffer out events).1,
        (readUntilFrom delim limit buffer out events).2.items) := by
  induction events generalizing limit buffer out with
  | nil =>
    unfold readUntilFrom
    split_ifs with hmem hcap
    · exact readUntil_found hmem _
    · exact readUntil_capped hmem hcap _
    · rw [not_le] at hcap
      rw [List.take_of_length_le hcap.le] at hmem
      obtain ⟨k, rfl⟩ := Nat.exists_eq_add_of_le' hcap.le
      rw [items, Interrupted.readUntil_body hmem]
      exact Interrupted.readUntil_nil
  | cons event events ih =>
    unfold readUntilFrom
    split_ifs with hmem hcap
    · exact readUntil_found hmem _
    · exact readUntil_capped hmem hcap _
    · rw [not_le] at hcap
      rw [List.take_of_length_le hcap.le] at hmem
      cases event with
      | error error => exact Interrupted.readUntil_error hmem hcap error _
      | ok bytes =>
        obtain ⟨k, rfl⟩ := Nat.exists_eq_add_of_le' hcap.le
        rw [items, Interrupted.readUntil_body hmem, Nat.add_sub_cancel, ← ih k]
        simp [items, ReadEvent.items]

theorem readUntil_items (delim : UInt8) (limit : Nat) (reader : BufReader) (out : Bytes) :
    Interrupted.readUntil delim limit reader.items out =
      ((reader.readUntil delim limit out).1, (reader.readUntil delim limit out).2.items) :=
  readUntilFrom_items delim limit reader.buffer out reader.events

/-- Where the rest of a line is found in the buffer. -/
theorem line_in_buffer {delim : UInt8} {buffer content : Bytes}
    {tail rest : List (Except IoError UInt8)} (hfound : delim ∈ buffer) (hcontent : delim ∉ content)
    (h : buffer.map .ok ++ tail = (content ++ [delim]).map .ok ++ rest) :
    buffer.takeWhile (· ≠ delim) = content ∧
      (buffer.drop (content.length + 1)).map .ok ++ tail = rest := by
  induction buffer generalizing content with
  | nil => cases hfound
  | cons b buffer ih =>
    cases content with
    | nil =>
      obtain ⟨hb, hrest⟩ := List.cons.inj h
      obtain rfl := Except.ok.inj hb
      exact ⟨List.takeWhile_cons_of_neg (by simp), hrest⟩
    | cons c content =>
      obtain ⟨hb, hrest⟩ := List.cons.inj h
      obtain rfl := Except.ok.inj hb
      have hne := List.ne_of_not_mem_cons hcontent
      have hnotMem := List.not_mem_of_not_mem_cons hcontent
      obtain ⟨htake, hdrop⟩ := ih ((List.mem_cons.1 hfound).resolve_left hne) hnotMem hrest
      rw [List.takeWhile_cons_of_pos (by simpa using Ne.symm hne), htake]
      exact ⟨rfl, hdrop⟩

/-- A buffer without the delimiter holds the beginning of the line. -/
theorem line_past_buffer {delim : UInt8} {buffer content : Bytes}
    {tail rest : List (Except IoError UInt8)} (hfound : delim ∉ buffer)
    (h : buffer.map .ok ++ tail = (content ++ [delim]).map .ok ++ rest) :
    ∃ content', content = buffer ++ content' ∧ tail = (content' ++ [delim]).map .ok ++ rest := by
  induction buffer generalizing content with
  | nil => exact ⟨content, rfl, h⟩
  | cons b buffer ih =>
    have hne := List.ne_of_not_mem_cons hfound
    have hnotMem := List.not_mem_of_not_mem_cons hfound
    cases content with
    | nil => exact absurd (Except.ok.inj (List.cons.inj h).1).symm hne
    | cons c content =>
      obtain ⟨hb, hrest⟩ := List.cons.inj h
      obtain rfl := Except.ok.inj hb
      obtain ⟨content', rfl, htail⟩ := ih hnotMem hrest
      exact ⟨content', rfl, htail⟩

end BufReader

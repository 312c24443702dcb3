import Mathlib.Tactic

namespace Interrupted

variable {ε β : Type*}

/-- The bytes of a stream, without the errors that come between them. -/
def bytes (items : List (Except ε β)) : List β := items.filterMap Except.toOption

/-- What is left of a stream for a reader that forgets what it has read at every error. -/
def sinceError (items : List (Except ε β)) : List β :=
  items.foldl (fun kept item => match item with | .ok b => kept ++ [b] | .error _ => []) []

theorem bytes_append (xs ys : List (Except ε β)) : bytes (xs ++ ys) = bytes xs ++ bytes ys :=
  List.filterMap_append

@[simp] theorem bytes_ok (body : List β) :
    bytes (body.map (Except.ok : β → Except ε β)) = body := by
  induction body with
  | nil => rfl
  | cons b body ih => simpa [bytes, Except.toOption] using ih

private theorem foldl_ok (body kept : List β) :
    (body.map (Except.ok : β → Except ε β)).foldl
      (fun kept item => match item with | .ok b => kept ++ [b] | .error _ => []) kept =
        kept ++ body := by
  induction body generalizing kept with
  | nil => simp
  | cons b body ih => simp [ih]

@[simp] theorem sinceError_ok (body : List β) :
    sinceError (body.map (Except.ok : β → Except ε β)) = body := foldl_ok body []

@[simp] theorem sinceError_error (xs ys : List (Except ε β)) (e : ε) :
    sinceError (xs ++ .error e :: ys) = sinceError ys := by
  simp [sinceError]

/-- With no error among them a reader keeps everything. -/
theorem sinceError_eq_bytes {items : List (Except ε β)} (h : ∀ e, .error e ∉ items) :
    sinceError items = bytes items := by
  have hok : items = (bytes items).map Except.ok := by
    induction items with
    | nil => rfl
    | cons x xs ih =>
      have hxs := ih fun e he => h e (List.mem_cons_of_mem _ he)
      cases x with
      | error e => exact absurd (List.mem_cons_self ..) (h e)
      | ok b =>
        change _ = Except.ok b :: (bytes xs).map Except.ok
        rw [← hxs]
  rw [hok, sinceError_ok, bytes_ok]

/-- A stream is free of errors, or it begins with a stretch of bytes and an error. -/
theorem items_induction {motive : List (Except ε β) → Prop}
    (clean : ∀ body : List β, motive (body.map .ok))
    (interrupted : ∀ (body : List β) e xs, motive xs → motive (body.map .ok ++ .error e :: xs))
    (items : List (Except ε β)) : motive items := by
  have hgen : ∀ (body : List β) (items : List (Except ε β)), motive (body.map .ok ++ items) := by
    intro body items
    induction items generalizing body with
    | nil => simpa using clean body
    | cons x xs ih =>
      cases x with
      | error e => exact interrupted body e xs (by simpa using ih [])
      | ok b => simpa using ih (body ++ [b])
  simpa using hgen [] items

variable [DecidableEq β]

/-- Reads up to and including the delimiter, at most `limit` bytes, into `out`; an error comes
back at once, and so does the end of the stream. -/
def readUntil (delim : β) : Nat → List (Except ε β) → List β →
    Except ε (List β) × List (Except ε β)
  | 0, items, out => (.ok out, items)
  | _ + 1, [], out => (.ok out, [])
  | _ + 1, .error e :: items, _ => (.error e, items)
  | limit + 1, .ok b :: items, out =>
    if b = delim then (.ok (out ++ [b]), items) else readUntil delim limit items (out ++ [b])

variable {delim : β} {limit : Nat} {body out : List β}

theorem readUntil_nil : readUntil delim limit ([] : List (Except ε β)) out = (.ok out, []) := by
  cases limit <;> rfl

/-- A stretch without the delimiter is moved to `out`. -/
theorem readUntil_body (hdelim : delim ∉ body) (rest : List (Except ε β)) :
    readUntil delim (limit + body.length) (body.map .ok ++ rest) out =
      readUntil delim limit rest (out ++ body) := by
  induction body generalizing out with
  | nil => simp
  | cons b body ih =>
    have hb : b ≠ delim := by
      rintro rfl
      exact hdelim (List.mem_cons_self ..)
    have hbody : delim ∉ body := fun h => hdelim (List.mem_cons_of_mem _ h)
    change readUntil delim (limit + body.length + 1) (.ok b :: (body.map .ok ++ rest)) out = _
    rw [readUntil, if_neg hb, ih hbody, List.append_assoc, List.singleton_append]

theorem readUntil_error (hdelim : delim ∉ body) (hlimit : body.length < limit) (e : ε)
    (rest : List (Except ε β)) :
    readUntil delim limit (body.map .ok ++ .error e :: rest) out = (.error e, rest) := by
  rcases Nat.exists_eq_add_of_lt hlimit with ⟨k, rfl⟩
  rw [show body.length + k + 1 = k + 1 + body.length by omega, readUntil_body hdelim]
  rfl

theorem readUntil_line (hdelim : delim ∉ body) (hlimit : body.length < limit)
    (rest : List (Except ε β)) :
    readUntil delim limit (body.map .ok ++ .ok delim :: rest) out =
      (.ok (out ++ body ++ [delim]), rest) := by
  rcases Nat.exists_eq_add_of_lt hlimit with ⟨k, rfl⟩
  rw [show body.length + k + 1 = k + 1 + body.length by omega, readUntil_body hdelim, readUntil,
    if_pos rfl]

theorem readUntil_full (hdelim : delim ∉ body) (rest : List (Except ε β)) :
    readUntil delim body.length (body.map .ok ++ rest) out = (.ok (out ++ body), rest) := by
  conv_lhs => rw [← Nat.zero_add body.length]
  rw [readUntil_body hdelim]
  rfl

/-- A call that does not come back empty-handed has used up part of the stream. -/
theorem readUntil_length (items : List (Except ε β)) :
    (readUntil delim limit items out).2.length < items.length ∨
      readUntil delim limit items out = (.ok out, items) := by
  induction items generalizing limit out with
  | nil => exact .inr readUntil_nil
  | cons x xs ih =>
    cases limit with
    | zero => exact .inr rfl
    | succ limit =>
      cases x with
      | error e => exact .inl (by simp [readUntil])
      | ok b =>
        apply Or.inl
        rw [readUntil]
        split_ifs
        · simp
        · rcases @ih limit (out ++ [b]) with h | h
          · simp only [List.length_cons]
            omega
          · simp [h]

end Interrupted

import XusMiner.Library.ByteCodec

/-! Programs that read a stream which may fail and may never end. -/

namespace EStateM
variable {ε ε' σ α β : Type}

/-- What holds of the outcome and the state a program leaves, whether it succeeds or fails. -/
def Ensures (x : EStateM ε σ α) (s : σ) (post : α → σ → Prop) (failed : ε → σ → Prop) : Prop :=
  match x s with
  | .ok a s' => post a s'
  | .error e s' => failed e s'

theorem Ensures.mono {x : EStateM ε σ α} {s : σ} {post post' : α → σ → Prop}
    {failed failed' : ε → σ → Prop} (h : x.Ensures s post failed)
    (hpost : ∀ a s', post a s' → post' a s') (hfailed : ∀ e s', failed e s' → failed' e s') :
    x.Ensures s post' failed' := by
  unfold Ensures at *
  cases hx : x s with
  | ok a s' => exact hpost a s' (by simpa [hx] using h)
  | error e s' => exact hfailed e s' (by simpa [hx] using h)

theorem Ensures.bind {x : EStateM ε σ α} {f : α → EStateM ε σ β} {s : σ} {mid : α → σ → Prop}
    {post : β → σ → Prop} {failed : ε → σ → Prop} (h : x.Ensures s mid failed)
    (hf : ∀ a s', mid a s' → (f a).Ensures s' post failed) : (x >>= f).Ensures s post failed := by
  unfold Ensures at h
  cases hx : x s with
  | ok a s' =>
    rw [hx] at h
    have hbind : (x >>= f) s = f a s' := by
      change EStateM.bind x f s = _
      rw [EStateM.bind, hx]
    unfold Ensures
    rw [hbind]
    exact hf a s' h
  | error e s' =>
    rw [hx] at h
    have hbind : (x >>= f) s = .error e s' := by
      change EStateM.bind x f s = _
      rw [EStateM.bind, hx]
    unfold Ensures
    rw [hbind]
    exact h

theorem Ensures.adaptExcept {x : EStateM ε σ α} {f : ε → ε'} {s : σ} {post : α → σ → Prop}
    {failed : ε' → σ → Prop} (h : x.Ensures s post fun e s' => failed (f e) s') :
    (x.adaptExcept f).Ensures s post failed := by
  unfold Ensures EStateM.adaptExcept at *
  cases hx : x s with
  | ok a s' => simpa [hx] using h
  | error e s' => simpa [hx] using h

theorem Ensures.ofExcept {x : Except ε α} {s : σ} {post : α → σ → Prop} {failed : ε → σ → Prop}
    (hok : ∀ a, x = .ok a → post a s) (herror : ∀ e, x = .error e → failed e s) :
    (MonadExcept.ofExcept x : EStateM ε σ α).Ensures s post failed := by
  cases x with
  | ok a => exact hok a rfl
  | error e => exact herror e rfl

theorem bind_eq_ok {x : EStateM ε σ α} {f : α → EStateM ε σ β} {s s'' : σ} {b : β} :
    (x >>= f) s = .ok b s'' ↔ ∃ a s', x s = .ok a s' ∧ f a s' = .ok b s'' := by
  change EStateM.bind x f s = _ ↔ _
  rw [EStateM.bind]
  cases x s with
  | ok a s' =>
    constructor
    · exact fun h => ⟨a, s', rfl, h⟩
    · rintro ⟨a', s'', hx, hf⟩
      cases hx
      exact hf
  | error e s' =>
    constructor
    · exact fun h => nomatch h
    · rintro ⟨a', s'', hx, -⟩
      cases hx

theorem ofExcept_eq_ok {x : Except ε α} {s s' : σ} {a : α} :
    (MonadExcept.ofExcept x : EStateM ε σ α) s = .ok a s' ↔ x = .ok a ∧ s' = s := by
  cases x with
  | ok b =>
    change EStateM.Result.ok b s = .ok a s' ↔ _
    rw [EStateM.Result.ok.injEq, Except.ok.injEq, eq_comm (a := s)]
  | error e => exact iff_of_false (fun h => nomatch h) fun h => nomatch h.1

theorem adaptExcept_eq_ok {x : EStateM ε σ α} {f : ε → ε'} {s s' : σ} {a : α} :
    x.adaptExcept f s = .ok a s' ↔ x s = .ok a s' := by
  rw [EStateM.adaptExcept]
  cases x s <;> simp

/-- The same program under another view of the state. -/
def Simulates {τ : Type} (view : σ → τ) (x : EStateM ε σ α) (y : EStateM ε τ α) : Prop :=
  ∀ s, y (view s) = match x s with
    | .ok a s' => .ok a (view s')
    | .error e s' => .error e (view s')

namespace Simulates
variable {τ : Type} {view : σ → τ}

protected theorem pure (a : α) :
    Simulates view (pure a : EStateM ε σ α) (pure a : EStateM ε τ α) := fun _ => rfl

protected theorem throw (e : ε) :
    Simulates view (throw e : EStateM ε σ α) (throw e : EStateM ε τ α) := fun _ => rfl

protected theorem ofExcept (x : Except ε α) :
    Simulates view (MonadExcept.ofExcept x : EStateM ε σ α)
      (MonadExcept.ofExcept x : EStateM ε τ α) := by
  cases x with
  | ok a => exact .pure a
  | error e => exact .throw e

protected theorem bind {x : EStateM ε σ α} {y : EStateM ε τ α} {f : α → EStateM ε σ β}
    {g : α → EStateM ε τ β} (h : Simulates view x y) (hf : ∀ a, Simulates view (f a) (g a)) :
    Simulates view (x >>= f) (y >>= g) := by
  intro s
  change EStateM.bind y g (view s) = match EStateM.bind x f s with
    | .ok a s' => .ok a (view s')
    | .error e s' => .error e (view s')
  rw [EStateM.bind, EStateM.bind, h s]
  cases x s with
  | ok a s' => exact hf a s'
  | error e s' => rfl

protected theorem ite {p : Prop} [Decidable p] {x x' : EStateM ε σ α} {y y' : EStateM ε τ α}
    (h : Simulates view x y) (h' : Simulates view x' y') :
    Simulates view (if p then x else x') (if p then y else y') := by
  by_cases hp : p
  · rwa [if_pos hp, if_pos hp]
  · rwa [if_neg hp, if_neg hp]

protected theorem adaptExcept {x : EStateM ε σ α} {y : EStateM ε τ α} (h : Simulates view x y)
    (f : ε → ε') : Simulates view (x.adaptExcept f) (y.adaptExcept f) := by
  intro s
  rw [EStateM.adaptExcept, EStateM.adaptExcept, h s]
  cases x s <;> rfl

end Simulates

end EStateM

open ByteCodec

/-- `fill_buf`, which shows nothing at the end of the stream only, and `consume`. A read that is
interrupted is retried by every loop and does not show. -/
structure BufRead (ε σ : Type) where
  fillBuf : σ → Except ε Bytes × σ
  consume : ℕ → σ → σ

namespace BufRead
variable {ε σ : Type} (reader : BufRead ε σ)

/-- The loop that moves what is shown, up to a byte where it stops and never more than `limit`. -/
def collect (stop : UInt8 → Bool) (limit : ℕ) (out : Bytes) (s : σ) : EStateM.Result ε σ Bytes :=
  if limit = 0 then .ok out s
  else match reader.fillBuf s with
    | (.error e, s) => .error e s
    | (.ok buffer, s) =>
      let available := buffer.take limit
      if available.any stop then
        let used := available.findIdx stop + 1
        .ok (out ++ available.take used) (reader.consume used s)
      else if available = [] then .ok out (reader.consume 0 s)
      else
        collect stop (limit - available.length) (out ++ available)
          (reader.consume available.length s)
termination_by limit
decreasing_by
  have hpos : 0 < (buffer.take limit).length := List.length_pos_iff.2 ‹_›
  omega

/-- `take(limit).read_until(delim, ..)` -/
def readUntil (delim : UInt8) (limit : ℕ) : EStateM ε σ Bytes :=
  reader.collect (· == delim) limit []

/-- `take(limit).read_to_end(..)` -/
def readToEnd (limit : ℕ) : EStateM ε σ Bytes := reader.collect (fun _ => false) limit []

/-- `read_exact(..)`, with the error of a stream that ends too early. -/
def readExact (eof : ε) (length : ℕ) : EStateM ε σ Bytes := do
  let out ← reader.readToEnd length
  if out.length < length then throw eof else return out

/-- The same reader, with the number of bytes consumed. -/
def metered : BufRead ε (σ × ℕ) where
  fillBuf s := ((reader.fillBuf s.1).1, (reader.fillBuf s.1).2, s.2)
  consume n s := (reader.consume n s.1, s.2 + n)

/-- The bytes up to the first one to stop at. -/
def upTo (stop : UInt8 → Bool) (bs : Bytes) : Bytes := bs.take (bs.findIdx stop + 1)

/-- A stream that has these bytes left, however they are shown, and that does not fail. -/
def Delivers (content : σ → Bytes) : Prop :=
  ∀ s, ∃ buffer s', reader.fillBuf s = (.ok buffer, s') ∧ buffer <+: content s ∧
    (buffer = [] → content s = []) ∧
    ∀ n ≤ buffer.length, content (reader.consume n s') = (content s).drop n

/-- `Cursor<&[u8]>` -/
def cursor : BufRead ε Bytes := ⟨fun bs => (.ok bs, bs), fun n bs => bs.drop n⟩

theorem cursor_delivers : (cursor : BufRead ε Bytes).Delivers id := fun bs =>
  ⟨bs, bs, rfl, List.prefix_refl bs, id, fun _ _ => rfl⟩

theorem upTo_of_forall {stop : UInt8 → Bool} {bs : Bytes} (h : ∀ b ∈ bs, stop b = false) :
    upTo stop bs = bs := by
  rw [upTo, List.findIdx_eq_length_of_false h, List.take_of_length_le (Nat.le_succ _)]

theorem upTo_append {stop : UInt8 → Bool} {bs : Bytes} (h : ∀ b ∈ bs, stop b = false)
    (rest : Bytes) : upTo stop (bs ++ rest) = bs ++ upTo stop rest := by
  have hlength : ¬bs.findIdx stop < bs.length := by
    rw [List.findIdx_eq_length_of_false h]
    exact lt_irrefl _
  rw [upTo, List.findIdx_append, if_neg hlength, List.take_append, upTo,
    List.take_of_length_le (by omega)]
  congr 2
  omega

theorem upTo_stop {stop : UInt8 → Bool} {bs : Bytes} (h : ∀ b ∈ bs, stop b = false) {b : UInt8}
    (hb : stop b = true) (rest : Bytes) : upTo stop (bs ++ b :: rest) = bs ++ [b] := by
  rw [upTo_append h, upTo, List.findIdx_cons, hb, cond_true]
  rfl

theorem upTo_prefix {stop : UInt8 → Bool} {bs : Bytes} (h : bs.any stop = true) (rest : Bytes) :
    upTo stop (bs ++ rest) = bs.take (bs.findIdx stop + 1) := by
  have hlt : bs.findIdx stop < bs.length :=
    List.findIdx_lt_length.2 (List.any_eq_true.1 h)
  rw [upTo, List.findIdx_append, if_pos hlt, List.take_append_of_le_length hlt]

theorem upTo_cons (stop : UInt8 → Bool) (b : UInt8) (bs : Bytes) :
    upTo stop (b :: bs) = if stop b then [b] else b :: upTo stop bs := by
  rw [upTo, List.findIdx_cons]
  cases stop b <;> rfl

/-- Only the last of these bytes can be one to stop at. -/
theorem upTo_dropLast {stop : UInt8 → Bool} {bs : Bytes} :
    ∀ b ∈ (upTo stop bs).dropLast, stop b = false := by
  induction bs with
  | nil => simp [upTo]
  | cons b bs ih =>
    rw [upTo_cons]
    by_cases hb : stop b = true
    · simp [hb]
    · intro c hc
      rw [if_neg hb] at hc
      cases hupTo : upTo stop bs with
      | nil => simp [hupTo] at hc
      | cons d rest =>
        rw [hupTo, List.dropLast_cons_cons, ← hupTo] at hc
        rcases List.mem_cons.1 hc with rfl | hc
        · exact Bool.eq_false_of_not_eq_true hb
        · exact ih c hc

theorem take_of_prefix {shown bs : Bytes} {limit : ℕ} (h : shown <+: bs)
    (hle : shown.length ≤ limit) :
    bs.take limit = shown ++ (bs.drop shown.length).take (limit - shown.length) := by
  obtain ⟨rest, rfl⟩ := h
  rw [List.take_append, List.take_of_length_le hle, List.drop_left]

variable {reader}

/-- How the bytes are shown does not matter: the loop moves the same ones. -/
theorem collect_delivers {content : σ → Bytes} (h : reader.Delivers content)
    (stop : UInt8 → Bool) (limit : ℕ) (out : Bytes) (s : σ) :
    ∃ s', reader.collect stop limit out s =
        .ok (out ++ upTo stop ((content s).take limit)) s' ∧
      content s' = (content s).drop (upTo stop ((content s).take limit)).length := by
  induction limit using Nat.strong_induction_on generalizing out s with
  | _ limit ih =>
    rw [collect]
    by_cases hlimit : limit = 0
    · refine ⟨s, ?_, ?_⟩
      · simp [hlimit, upTo]
      · simp [hlimit, upTo]
    · obtain ⟨buffer, s', hfill, hprefix, hend, hconsume⟩ := h s
      have hle : (buffer.take limit).length ≤ buffer.length := by simp
      have htake := take_of_prefix ((List.take_prefix limit buffer).trans hprefix)
        (List.length_take_le _ _)
      simp only [if_neg hlimit, hfill]
      by_cases hstop : (buffer.take limit).any stop = true
      · have hused : (buffer.take limit).findIdx stop + 1 ≤ (buffer.take limit).length :=
          List.findIdx_lt_length.2 (List.any_eq_true.1 hstop)
        rw [if_pos hstop, htake, upTo_prefix hstop]
        refine ⟨_, rfl, ?_⟩
        rw [hconsume _ (hused.trans hle), List.length_take_of_le hused]
      · rw [if_neg hstop]
        by_cases hempty : buffer.take limit = []
        · have hcontent : content s = [] := by
            apply hend
            simpa [hlimit] using hempty
          rw [if_pos hempty]
          refine ⟨reader.consume 0 s', ?_, ?_⟩
          · simp [hcontent, upTo]
          · simp [hconsume 0 (Nat.zero_le _), hcontent, upTo]
        · have hpos := List.length_pos_iff.2 hempty
          have hnone : ∀ b ∈ buffer.take limit, stop b = false := by
            simpa using hstop
          rw [if_neg hempty, htake, upTo_append hnone]
          obtain ⟨s'', hcollect, hcontent⟩ := ih (limit - (buffer.take limit).length) (by omega)
            (out ++ buffer.take limit) (reader.consume (buffer.take limit).length s')
          rw [hconsume _ hle] at hcollect hcontent
          refine ⟨s'', ?_, ?_⟩
          · rw [hcollect, List.append_assoc]
          · rw [hcontent, List.drop_drop, List.length_append]

/-- Never more than the limit is moved, whatever the stream does, and all of it is consumed. -/
theorem collect_metered (stop : UInt8 → Bool) (limit : ℕ) (out : Bytes) (s : σ) (count : ℕ) :
    EStateM.Ensures (reader.metered.collect stop limit out) (s, count)
      (fun out' s' => ∃ moved, out' = out ++ moved ∧ moved.length ≤ limit ∧
        s'.2 = count + moved.length)
      fun _ s' => s'.2 ≤ count + limit := by
  induction limit using Nat.strong_induction_on generalizing out s count with
  | _ limit ih =>
    unfold EStateM.Ensures
    rw [collect]
    by_cases hlimit : limit = 0
    · rw [if_pos hlimit]
      exact ⟨[], by simp, by simp, rfl⟩
    · rw [if_neg hlimit]
      have hmetered : reader.metered.fillBuf (s, count) =
          ((reader.fillBuf s).1, (reader.fillBuf s).2, count) := rfl
      rcases hfill : reader.fillBuf s with ⟨error | buffer, s'⟩
      · simp only [hmetered, hfill]
        exact Nat.le_add_right _ _
      · have hle : (buffer.take limit).length ≤ limit := List.length_take_le _ _
        simp only [hmetered, hfill]
        by_cases hstop : (buffer.take limit).any stop = true
        · have hused : (buffer.take limit).findIdx stop + 1 ≤ (buffer.take limit).length :=
            List.findIdx_lt_length.2 (List.any_eq_true.1 hstop)
          rw [if_pos hstop]
          refine ⟨_, rfl, ?_, ?_⟩
          · rw [List.length_take_of_le hused]
            exact hused.trans hle
          · rw [List.length_take_of_le hused]
            rfl
        · rw [if_neg hstop]
          by_cases hempty : buffer.take limit = []
          · rw [if_pos hempty]
            exact ⟨[], by simp, by simp, rfl⟩
          · have hpos := List.length_pos_iff.2 hempty
            rw [if_neg hempty]
            refine (ih (limit - (buffer.take limit).length) (by omega) (out ++ buffer.take limit)
              (reader.consume (buffer.take limit).length s')
              (count + (buffer.take limit).length)).mono ?_ ?_
            · rintro out' s'' ⟨moved, rfl, hmoved, hcount⟩
              refine ⟨buffer.take limit ++ moved, List.append_assoc _ _ _, ?_, ?_⟩
              · rw [List.length_append]
                omega
              · rw [List.length_append, hcount, Nat.add_assoc]
            · intro e s'' hcount
              omega

theorem readExact_metered (eof : ε) (length : ℕ) (s : σ) (count : ℕ) :
    EStateM.Ensures (reader.metered.readExact eof length) (s, count)
      (fun out s' => out.length = length ∧ s'.2 = count + length)
      fun _ s' => s'.2 ≤ count + length := by
  refine EStateM.Ensures.bind ((collect_metered _ length [] s count).mono (fun _ _ h => h) ?_) ?_
  · exact fun _ _ h => h
  · rintro out s' ⟨_, rfl, hmoved, hcount⟩
    by_cases hshort : out.length < length
    · rw [if_pos hshort]
      show s'.2 ≤ count + length
      omega
    · rw [if_neg hshort]
      show out.length = length ∧ s'.2 = count + length
      omega

theorem cursor_collect (stop : UInt8 → Bool) (limit : ℕ) (out bs : Bytes) :
    (cursor : BufRead ε Bytes).collect stop limit out bs =
      .ok (out ++ upTo stop (bs.take limit)) (bs.drop (upTo stop (bs.take limit)).length) := by
  obtain ⟨bs', hcollect, hbs⟩ := collect_delivers (cursor_delivers (ε := ε)) stop limit out bs
  rw [hcollect]
  exact congrArg _ hbs

theorem cursor_readUntil (delim : UInt8) (limit : ℕ) (bs : Bytes) :
    (cursor : BufRead ε Bytes).readUntil delim limit bs =
      .ok (upTo (· == delim) (bs.take limit))
        (bs.drop (upTo (· == delim) (bs.take limit)).length) :=
  cursor_collect (· == delim) limit [] bs

theorem cursor_readToEnd (limit : ℕ) (bs : Bytes) :
    (cursor : BufRead ε Bytes).readToEnd limit bs = .ok (bs.take limit) (bs.drop limit) := by
  have hread := cursor_collect (ε := ε) (fun _ => false) limit [] bs
  rw [upTo_of_forall fun _ _ => rfl, List.nil_append, List.length_take] at hread
  rw [readToEnd, hread]
  congr 1
  rcases le_total limit bs.length with h | h
  · rw [min_eq_left h]
  · rw [min_eq_right h, List.drop_length, List.drop_eq_nil_of_le h]

theorem cursor_readExact (eof : ε) (length : ℕ) (bs : Bytes) :
    (cursor : BufRead ε Bytes).readExact eof length bs =
      if length ≤ bs.length then .ok (bs.take length) (bs.drop length)
      else .error eof (bs.drop length) := by
  have hread := cursor_readToEnd (ε := ε) length bs
  by_cases h : length ≤ bs.length
  · have hfull : ¬(bs.take length).length < length := by
      rw [List.length_take_of_le h]
      exact lt_irrefl _
    rw [if_pos h]
    change EStateM.bind _ _ _ = _
    rw [EStateM.bind, hread]
    dsimp only
    rw [if_neg hfull]
    rfl
  · have hshort : (bs.take length).length < length := by
      rw [List.length_take]
      omega
    rw [if_neg h]
    change EStateM.bind _ _ _ = _
    rw [EStateM.bind, hread]
    dsimp only
    rw [if_pos hshort]
    rfl

theorem upTo_isPrefix (stop : UInt8 → Bool) (bs : Bytes) : upTo stop bs <+: bs :=
  List.take_prefix _ _

/-- Reading a stream in pieces is reading its bytes. -/
theorem Delivers.simulates {content : σ → Bytes} (h : reader.Delivers content)
    (stop : UInt8 → Bool) (limit : ℕ) (out : Bytes) :
    EStateM.Simulates content (reader.collect stop limit out) (cursor.collect stop limit out) := by
  intro s
  obtain ⟨s', hcollect, hcontent⟩ := collect_delivers h stop limit out s
  rw [cursor_collect, hcollect]
  exact congrArg _ hcontent.symm

/-- The count is only kept beside the stream. -/
theorem metered_simulates (stop : UInt8 → Bool) (limit : ℕ) (out : Bytes) :
    EStateM.Simulates Prod.fst (reader.metered.collect stop limit out)
      (reader.collect stop limit out) := by
  induction limit using Nat.strong_induction_on generalizing out with
  | _ limit ih =>
    intro s
    rw [collect, collect]
    by_cases hlimit : limit = 0
    · rw [if_pos hlimit, if_pos hlimit]
    · have hmetered : reader.metered.fillBuf s =
          ((reader.fillBuf s.1).1, (reader.fillBuf s.1).2, s.2) := rfl
      rw [if_neg hlimit, if_neg hlimit, hmetered]
      rcases reader.fillBuf s.1 with ⟨error | buffer, s'⟩
      · rfl
      · dsimp only
        by_cases hstop : (buffer.take limit).any stop = true
        · rw [if_pos hstop, if_pos hstop]
          rfl
        · rw [if_neg hstop, if_neg hstop]
          by_cases hempty : buffer.take limit = []
          · rw [if_pos hempty, if_pos hempty]
            rfl
          · have hpos := List.length_pos_iff.2 hempty
            rw [if_neg hempty, if_neg hempty]
            exact ih (limit - (buffer.take limit).length) (by omega) (out ++ buffer.take limit)
              (reader.consume (buffer.take limit).length s', s.2 + (buffer.take limit).length)

theorem readExact_simulates {ε σ τ : Type} {view : σ → τ} {reader : BufRead ε σ}
    {reader' : BufRead ε τ} (h : ∀ stop limit out, EStateM.Simulates view
      (reader.collect stop limit out) (reader'.collect stop limit out)) (eof : ε) (length : ℕ) :
    EStateM.Simulates view (reader.readExact eof length) (reader'.readExact eof length) :=
  (h _ length []).bind fun _ => .ite (.throw eof) (.pure _)

end BufRead

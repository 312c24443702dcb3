import XusMiner.Rpc.Response

namespace XusMiner.Rpc
open ByteCodec EStateM

section Budget
variable {σ : Type} (reader : BufRead IoError σ)

/-- Reading stopped with an error that the caller sees, within a number of bytes. -/
def FailsWithin (limit : ℕ) (failure : Failure) (s : σ × ℕ) : Prop :=
  s.2 ≤ limit ∧ ∃ error, failure = .io error

/-- A line that is accepted is two bytes long at least, and within the limit. -/
theorem checkLine_ok {used : ℕ} {bytes : Bytes} {line : String × ℕ}
    (h : checkLine used bytes = .ok line) :
    line.2 = used ∧ used ≤ maxHeaderBytes ∧ 2 ≤ bytes.length := by
  unfold checkLine at h
  split_ifs at h with hlimit hend
  split at h
  · obtain rfl := Except.ok.inj h
    exact ⟨rfl, not_lt.1 hlimit, hend.length_le⟩
  · cases h

theorem check_metered {α : Type} {x : Except IoError α} {s : σ × ℕ} {post : α → σ × ℕ → Prop}
    {limit : ℕ} (hcount : s.2 ≤ limit) (hok : ∀ a, x = .ok a → post a s) :
    Ensures (check x) s post (FailsWithin limit) :=
  (Ensures.ofExcept hok fun error _ => ⟨hcount, error, rfl⟩).adaptExcept

/-- The length a header line gives is within the limit of the body. -/
theorem header_ok {line : String} {contentLength contentLength' : Option ℕ}
    (h : header line contentLength = .ok contentLength')
    (hlimit : ∀ n ∈ contentLength, n ≤ maxBodyBytes) : ∀ n ∈ contentLength', n ≤ maxBodyBytes := by
  unfold header at h
  split at h
  · cases h
  · dsimp only at h
    split_ifs at h
    · split at h
      · cases h
      · next n _ =>
        split_ifs at h with hn
        obtain rfl := Except.ok.inj h
        simpa using hn
    · obtain rfl := Except.ok.inj h
      exact hlimit

theorem headerLine_metered (s : σ) {used : ℕ} (hused : used ≤ maxHeaderBytes) :
    Ensures (headerLine reader.metered used) (s, used)
      (fun line s' => s'.2 = line.2 ∧ used + 2 ≤ line.2 ∧ line.2 ≤ maxHeaderBytes)
      (FailsWithin (maxHeaderBytes + 1)) := by
  have hroom : room used = .ok (maxHeaderBytes - used + 1) := if_pos hused
  have hofRoom : Ensures (ofExcept (room used) : EStateM Failure (σ × ℕ) ℕ) (s, used)
      (fun limit s' => limit = maxHeaderBytes - used + 1 ∧ s' = (s, used))
      (FailsWithin (maxHeaderBytes + 1)) := by
    rw [hroom]
    exact ⟨rfl, rfl⟩
  refine hofRoom.bind ?_
  rintro _ _ ⟨rfl, rfl⟩
  refine (Ensures.adaptExcept
    (BufRead.collect_metered _ _ [] s used |>.mono (fun _ _ h => h) ?_)).bind ?_
  · intro error s' hcount
    exact ⟨by omega, error, rfl⟩
  · rintro _ s' ⟨_, rfl, hlength, hcount⟩
    apply check_metered (by omega)
    intro line hline
    obtain ⟨hline, hle, htwo⟩ := checkLine_ok hline
    omega

theorem headers_metered {rounds used : ℕ} (hused : used ≤ maxHeaderBytes)
    (hrounds : maxHeaderBytes < used + 2 * rounds) (s : σ) {contentLength : Option ℕ}
    (hlimit : ∀ n ∈ contentLength, n ≤ maxBodyBytes) :
    Ensures (headers reader.metered rounds used contentLength) (s, used)
      (fun contentLength s' => s'.2 ≤ maxHeaderBytes ∧ ∀ n ∈ contentLength, n ≤ maxBodyBytes)
      (FailsWithin (maxHeaderBytes + 1)) := by
  induction rounds generalizing used s contentLength with
  | zero => omega
  | succ rounds ih =>
    refine (headerLine_metered reader s hused).bind ?_
    rintro ⟨line, used'⟩ ⟨s', count⟩ ⟨hcount, htwo, hle⟩
    dsimp only at hcount htwo hle
    subst hcount
    dsimp only
    by_cases hempty : line = ""
    · rw [if_pos hempty]
      exact ⟨hle, hlimit⟩
    · rw [if_neg hempty]
      have hcheck : Ensures (check (header line contentLength)) (s', count)
          (fun contentLength s'' => s'' = (s', count) ∧ ∀ n ∈ contentLength, n ≤ maxBodyBytes)
          (FailsWithin (maxHeaderBytes + 1)) :=
        check_metered (Nat.le_succ_of_le hle) fun contentLength' h => ⟨rfl, header_ok h hlimit⟩
      refine hcheck.bind ?_
      rintro contentLength' _ ⟨rfl, hlimit'⟩
      exact ih hle (by omega) s' hlimit'

theorem readHead_metered (s : σ) :
    Ensures (readHead reader.metered) (s, 0)
      (fun contentLength s' => s'.2 ≤ maxHeaderBytes ∧ ∀ n ∈ contentLength, n ≤ maxBodyBytes)
      (FailsWithin (maxHeaderBytes + 1)) := by
  refine (headerLine_metered reader s (Nat.zero_le _)).bind ?_
  rintro ⟨statusLine, used⟩ ⟨s', count⟩ ⟨hcount, htwo, hle⟩
  dsimp only at hcount htwo hle
  subst hcount
  have hcheck : Ensures (check (checkStatus statusLine)) (s', count)
      (fun _ s'' => s'' = (s', count)) (FailsWithin (maxHeaderBytes + 1)) :=
    check_metered (Nat.le_succ_of_le hle) fun _ _ => rfl
  refine hcheck.bind ?_
  rintro _ _ rfl
  refine headers_metered reader hle ?_ s' (by simp)
  unfold maxRounds maxHeaderBytes
  omega

theorem readBody_metered {contentLength : Option ℕ} (hlimit : ∀ n ∈ contentLength, n ≤ maxBodyBytes)
    (s : σ) (count : ℕ) :
    Ensures (readBody reader.metered contentLength) (s, count)
      (fun body s' => s'.2 = count + body.length ∧ body.length ≤ maxBodyBytes)
      (FailsWithin (count + (maxBodyBytes + 1))) := by
  cases contentLength with
  | some length =>
    have hlength : length ≤ maxBodyBytes := hlimit length rfl
    refine Ensures.adaptExcept ((BufRead.readExact_metered unexpectedEof length s count).mono ?_ ?_)
    · rintro body s' ⟨rfl, hcount⟩
      exact ⟨hcount, hlength⟩
    · exact fun error s' hcount => ⟨by omega, error, rfl⟩
  | none =>
    refine (Ensures.adaptExcept
      (BufRead.collect_metered _ (maxBodyBytes + 1) [] s count |>.mono (fun _ _ h => h) ?_)).bind ?_
    · exact fun error s' hcount => ⟨hcount, error, rfl⟩
    · rintro body s' ⟨_, rfl, hlength, hcount⟩
      by_cases hlong : maxBodyBytes < body.length
      · rw [if_pos hlong]
        exact ⟨by omega, _, rfl⟩
      · rw [if_neg hlong]
        exact ⟨hcount, not_lt.1 hlong⟩

theorem readResponse_metered (s : σ) :
    Ensures (readResponse reader.metered) (s, 0)
      (fun body s' => body.length ≤ maxBodyBytes ∧ s'.2 ≤ maxHeaderBytes + maxBodyBytes)
      (FailsWithin (maxHeaderBytes + (maxBodyBytes + 1))) := by
  refine Ensures.bind ((readHead_metered reader s).mono (fun _ _ h => h) ?_) ?_
  · exact fun failure s' ⟨hcount, hio⟩ => ⟨by omega, hio⟩
  · rintro contentLength ⟨s', count⟩ ⟨hcount, hlimit⟩
    dsimp only at hcount
    refine (readBody_metered reader hlimit s' count).mono ?_ ?_
    · exact fun body s'' ⟨hcount', hlength⟩ => ⟨hlength, by omega⟩
    · exact fun failure s'' ⟨hcount', hio⟩ => ⟨by omega, hio⟩

/-- A reply that is refused is refused with an error. -/
theorem readResponse_error {s s' : σ} {failure : Failure}
    (h : readResponse reader s = .error failure s') : ∃ error, failure = .io error := by
  have hmetered := readResponse_metered reader s
  have hsimulates : Simulates Prod.fst (readResponse reader.metered) (readResponse reader) :=
    readResponse_simulates BufRead.metered_simulates
  have hsame := hsimulates (s, 0)
  unfold Ensures at hmetered
  cases hrun : readResponse reader.metered (s, 0) with
  | ok body s'' =>
    rw [hrun, h] at hsame
    cases hsame
  | error failure' s'' =>
    rw [hrun, h] at hsame
    rw [hrun] at hmetered
    cases hsame
    exact hmetered.2

/-- Reading stays within its limits on every stream: no line is asked for past the limit of the
head, the lines come to an end, and neither part takes more than one byte over its limit. -/
theorem reading_within_budget (s : σ) :
    (∀ used ≤ maxHeaderBytes, Ensures (headerLine reader.metered used) (s, used)
      (fun line s' => s'.2 = line.2 ∧ used + 2 ≤ line.2 ∧ line.2 ≤ maxHeaderBytes)
      fun failure s' => s'.2 ≤ maxHeaderBytes + 1 ∧ ∃ error, failure = .io error) ∧
    Ensures (readHead reader.metered) (s, 0)
      (fun contentLength s' => s'.2 ≤ maxHeaderBytes ∧ ∀ n ∈ contentLength, n ≤ maxBodyBytes)
      (fun failure s' => s'.2 ≤ maxHeaderBytes + 1 ∧ ∃ error, failure = .io error) ∧
    (∀ contentLength : Option ℕ, (∀ n ∈ contentLength, n ≤ maxBodyBytes) → ∀ count,
      Ensures (readBody reader.metered contentLength) (s, count)
        (fun body s' => s'.2 = count + body.length ∧ body.length ≤ maxBodyBytes)
        fun failure s' => s'.2 ≤ count + (maxBodyBytes + 1) ∧ ∃ error, failure = .io error) ∧
    -- the count is kept beside the stream, and changes nothing
    Simulates Prod.fst (readResponse reader.metered) (readResponse reader) :=
  ⟨fun _ hused => headerLine_metered reader s hused, readHead_metered reader s,
    fun _ hlimit count => readBody_metered reader hlimit s count,
    readResponse_simulates BufRead.metered_simulates⟩

end Budget

end XusMiner.Rpc

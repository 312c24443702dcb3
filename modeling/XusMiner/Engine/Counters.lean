import XusMiner.Engine.Connections

namespace XusMiner.Engine
open ByteCodec

/-- The share figures of an event, where it has any, add up. -/
def Consistent (event : Value) : Prop :=
  ∀ submitted accepted rejected : UInt64, event.get "submitted" = some (.nat submitted) →
    event.get "accepted" = some (.nat accepted) → event.get "rejected" = some (.nat rejected) →
    accepted.toNat + rejected.toNat ≤ submitted.toNat

theorem consistent_shareEvent {submitted accepted rejected : UInt64}
    (h : accepted.toNat + rejected.toNat ≤ submitted.toNat) :
    Consistent (shareEvent submitted accepted rejected) := by
  intro submitted' accepted' rejected' hsubmitted haccepted hrejected
  simp only [shareEvent, Value.get_json] at hsubmitted haccepted hrejected
  simp [List.lookup_cons] at hsubmitted haccepted hrejected
  rwa [← hsubmitted, ← haccepted, ← hrejected]

theorem Metrics.consistent_event {m : Metrics}
    (h : m.accepted.toNat + m.rejected.toNat ≤ m.submitted.toNat) : Consistent m.event := by
  intro submitted accepted rejected hsubmitted haccepted hrejected
  simp only [Metrics.event, Value.get_json] at hsubmitted haccepted hrejected
  simp [List.lookup_cons] at hsubmitted haccepted hrejected
  rwa [← hsubmitted, ← haccepted, ← hrejected]

theorem Quiet.consistent {stdout stdout' : List Value} (h : Quiet stdout stdout')
    (hconsistent : ∀ event ∈ stdout, Consistent event) : ∀ event ∈ stdout', Consistent event := by
  obtain ⟨events, rfl, hevents⟩ := h
  intro event hevent
  rcases List.mem_append.1 hevent with hold | hnew
  · exact hconsistent event hold
  · intro submitted accepted rejected _ haccepted
    exact nomatch (hevents event hnew).symm.trans haccepted

/-- Between a submit that was written and its count. -/
def Pc.counts : Pc → Bool
  | .countSubmitted .. => true
  | _ => false

/-- The reply that is read but not counted yet. -/
def Session.answering : Session → List (ℕ × UInt64)
  | .finishShare c id _ | .countShare c id _ => [(c, id)]
  | _ => []

/-- The reply that is counted next. -/
def Session.counting : Session → Option (ℕ × UInt64)
  | .countShare c id _ => some (c, id)
  | _ => none

/-- The figures the session thread has loaded for an event. -/
def Session.Fair (s : State) : Session → Prop
  | .loadAccepted _ submitted => s.accepted.toNat + s.rejected.toNat ≤ submitted.toNat
  | .loadRejected _ submitted accepted => accepted.toNat + s.rejected.toNat ≤ submitted.toNat
  | .emitShare _ submitted accepted rejected =>
    accepted.toNat + rejected.toNat ≤ submitted.toNat
  | _ => True

namespace Reporter

/-- The submits that a reply may answer: those counted so far, or by the time the reporter loaded
`submitted`, while it has the replies still to load. -/
def answerable (r : Reporter) (counted : List (ℕ × UInt64)) : List (ℕ × UInt64) :=
  match r.reporting with
  | .accepted | .rejected => counted.take r.metrics.submitted.toNat
  | _ => counted

/-- The figures the reporter has loaded. -/
def Fair (s : State) (r : Reporter) : Prop :=
  match r.reporting with
  | .rejected => r.metrics.accepted.toNat ≤ s.accepted.toNat
  | .mempool | .peers | .emit =>
    r.metrics.accepted.toNat + r.metrics.rejected.toNat ≤ r.metrics.submitted.toNat
  | _ => True

theorem answerable_sublist (r : Reporter) (counted : List (ℕ × UInt64)) :
    (r.answerable counted).Sublist counted := by
  unfold answerable
  split
  · exact List.take_sublist _ _
  · exact List.take_sublist _ _
  · exact List.Sublist.refl _

theorem answerable_append (r : Reporter) (counted replies : List (ℕ × UInt64)) :
    (r.answerable counted).Sublist (r.answerable (counted ++ replies)) := by
  unfold answerable
  split
  · rw [List.take_append]
    exact List.sublist_append_left _ _
  · rw [List.take_append]
    exact List.sublist_append_left _ _
  · exact List.sublist_append_left _ _

end Reporter

/-- The counters, the figures in flight and the events agree with the submits and the replies. -/
structure Balanced (s : State) (session : Session) (reporter : Reporter) : Prop where
  submitted : s.submitted.toNat = s.history.counted.length
  settled : s.accepted.toNat + s.rejected.toNat = s.history.settled.length
  replies : s.history.replies = s.history.settled ++ session.answering
  answered : s.history.settled.Subperm (reporter.answerable s.history.counted)
  session : session.Fair s
  reporter : reporter.Fair s
  stdout : ∀ event ∈ s.stdout, Consistent event

/-- Two states agree on the share counters and on what was counted. -/
structure State.SameShares (s s' : State) : Prop where
  submitted : s'.submitted = s.submitted
  accepted : s'.accepted = s.accepted
  rejected : s'.rejected = s.rejected
  counted : s'.history.counted = s.history.counted
  replies : s'.history.replies = s.history.replies
  settled : s'.history.settled = s.history.settled

namespace Session.Fair

theorem congr {s s' : State} {session : Session} (h : session.Fair s)
    (haccepted : s'.accepted = s.accepted) (hrejected : s'.rejected = s.rejected) :
    session.Fair s' := by
  cases session with
  | loadAccepted c submitted => simpa only [Session.Fair, haccepted, hrejected] using h
  | loadRejected c submitted accepted => simpa only [Session.Fair, hrejected] using h
  | emitShare => exact h
  | _ => trivial

end Session.Fair

theorem Reporter.Fair.mono {s s' : State} {r : Reporter} (h : r.Fair s)
    (haccepted : s.accepted.toNat ≤ s'.accepted.toNat) : r.Fair s' := by
  obtain ⟨reporting, metrics⟩ := r
  cases reporting with
  | rejected => exact (show metrics.accepted.toNat ≤ s.accepted.toNat from h).trans haccepted
  | _ => exact h

namespace Balanced
variable {s s' : State} {session session' : Session} {reporter reporter' : Reporter} {c : ℕ}
  {id : UInt64}

theorem counted (h : Balanced s session reporter) :
    s.history.settled.Subperm s.history.counted :=
  h.answered.trans (reporter.answerable_sublist _).subperm

/-- Each settled reply answers a submit of its own. -/
theorem le (h : Balanced s session reporter) :
    s.accepted.toNat + s.rejected.toNat ≤ s.submitted.toNat := by
  rw [h.settled, h.submitted]
  exact h.counted.length_le

/-- A step that counts nothing. -/
theorem quiet (h : Balanced s session reporter) (hsame : s.SameShares s')
    (hquiet : Quiet s.stdout s'.stdout) (hanswering : session'.answering = session.answering)
    (hsession : session'.Fair s') : Balanced s' session' reporter where
  submitted := by rw [hsame.submitted, hsame.counted, h.submitted]
  settled := by rw [hsame.accepted, hsame.rejected, hsame.settled, h.settled]
  replies := by rw [hsame.replies, hsame.settled, hanswering, h.replies]
  answered := by
    rw [hsame.settled, hsame.counted]
    exact h.answered
  session := hsession
  reporter := h.reporter.mono (by rw [hsame.accepted])
  stdout := hquiet.consistent h.stdout

theorem emit (h : Balanced s session reporter) {event : Value} (hevent : Consistent event)
    (hanswering : session'.answering = session.answering) (hsession : session'.Fair s) :
    Balanced (s.emit event) session' reporter := by
  have hstdout : ∀ event' ∈ (s.emit event).stdout, Consistent event' := by
    rw [State.emit_eq]
    intro event' hmem
    by_cases hjson : s.jsonEvents
    · rw [if_pos hjson] at hmem
      rcases List.mem_append.1 hmem with hold | hnew
      · exact h.stdout event' hold
      · cases List.mem_singleton.1 hnew
        exact hevent
    · rw [if_neg hjson] at hmem
      exact h.stdout event' hmem
  rw [State.emit_eq] at hstdout ⊢
  exact ⟨h.submitted, h.settled, h.replies.trans (hanswering ▸ rfl), h.answered,
    hsession.congr rfl rfl, h.reporter.mono le_rfl, hstdout⟩

/-- A worker counts its submit. -/
theorem countSubmitted (h : Balanced s session reporter) (wk : Worker) (c : ℕ) (id : UInt64)
    (hroom : s.history.counted.length + 1 < 2 ^ 64) :
    Balanced (wk.countSubmitted s c id).1 session reporter where
  submitted := by
    have hone : (1 : UInt64).toNat = 1 := rfl
    have hsubmitted := h.submitted
    simp only [Worker.countSubmitted, UInt64.toNat_add, List.length_append, List.length_singleton]
    omega
  settled := h.settled
  replies := h.replies
  answered := h.answered.trans (reporter.answerable_append _ _).subperm
  session := h.session.congr rfl rfl
  reporter := h.reporter.mono le_rfl
  stdout := h.stdout

/-- A reply is read. -/
theorem reply (h : Balanced s (.working (.pool c)) reporter) (accepted : Bool) :
    Balanced { s with history := { s.history with replies := s.history.replies ++ [(c, id)] } }
      (.finishShare c id accepted) reporter where
  submitted := h.submitted
  settled := h.settled
  replies := by
    have hreplies : s.history.replies = s.history.settled := by
      simpa [Session.answering] using h.replies
    change s.history.replies ++ _ = _
    rw [hreplies]
    rfl
  answered := h.answered
  session := trivial
  reporter := h.reporter.mono le_rfl
  stdout := h.stdout

/-- It is counted, after the submit that it answers. -/
theorem countShare {accepted : Bool} (h : Balanced s (.countShare c id accepted) reporter)
    (hanswers : s.history.replies.count (c, id) ≤
      (reporter.answerable s.history.counted).count (c, id)) :
    Balanced (s.countShare c id accepted) (.loadSubmitted c) reporter := by
  have hreplies : s.history.replies = s.history.settled ++ [(c, id)] := h.replies
  have hanswered : (s.history.settled ++ [(c, id)]).Subperm
      (reporter.answerable s.history.counted) := by
    apply Counting.subperm_append_singleton h.answered
    rw [hreplies, List.count_append, List.count_singleton_self] at hanswers
    exact hanswers
  -- there is a counted submit for this reply that no other reply has used up
  have hlength : s.history.settled.length + 1 ≤ s.submitted.toNat := by
    have hle := (hanswered.trans (reporter.answerable_sublist _).subperm).length_le
    rw [h.submitted]
    simpa using hle
  have hbound := s.submitted.toNat_lt
  have hsettled := h.settled
  have hone : (1 : UInt64).toNat = 1 := rfl
  have haccepted : (s.accepted + 1).toNat = s.accepted.toNat + 1 := by
    rw [UInt64.toNat_add]
    omega
  have hrejected : (s.rejected + 1).toNat = s.rejected.toNat + 1 := by
    rw [UInt64.toNat_add]
    omega
  have hsum : (s.countShare c id accepted).accepted.toNat +
      (s.countShare c id accepted).rejected.toNat = s.accepted.toNat + s.rejected.toNat + 1 := by
    cases accepted with
    | true =>
      change (s.accepted + 1).toNat + s.rejected.toNat = _
      omega
    | false =>
      change s.accepted.toNat + (s.rejected + 1).toNat = _
      omega
  refine ⟨h.submitted, ?_, ?_, hanswered, trivial, h.reporter.mono ?_, h.stdout⟩
  · rw [hsum, hsettled]
    simp [State.countShare]
  · simpa [State.countShare, Session.answering] using hreplies
  · cases accepted with
    | true => exact haccepted ▸ Nat.le_succ _
    | false => exact le_rfl

/-- The steps of the session thread; the reply that is counted may be counted. -/
theorem runner {params : Params} {config : Config} {workers : ℕ} {guards : Guards} {r r' : Runner}
    {e : SessionEvent} (hmove : Runner.Move params config workers guards s r e s' r')
    (h : Balanced s r.session reporter)
    (hanswers : ∀ c id accepted, r.session = .countShare c id accepted →
      s.history.replies.count (c, id) ≤ (reporter.answerable s.history.counted).count (c, id)) :
    Balanced s' r'.session reporter := by
  have hat : ∀ {session}, r.session = session → Balanced s session reporter := fun hpc => hpc ▸ h
  have hsame : s.SameShares s := ⟨rfl, rfl, rfl, rfl, rfl, rfl⟩
  cases hmove with
  | share hpc => exact (hat hpc).reply _
  | countShare hpc => exact (hat hpc).countShare (hanswers _ _ _ hpc)
  | loadSubmitted hpc => exact (hat hpc).quiet hsame (.refl _) rfl h.le
  | loadAccepted hpc => exact (hat hpc).quiet hsame (.refl _) rfl (hat hpc).session
  | loadRejected hpc => exact (hat hpc).quiet hsame (.refl _) rfl (hat hpc).session
  | emitShare hpc =>
    exact (hat hpc).emit (consistent_shareEvent (hat hpc).session) rfl trivial
  | ignore => exact h
  | wake hpc hquiet =>
    split_ifs
    · exact (hat hpc).quiet ⟨rfl, rfl, rfl, rfl, rfl, rfl⟩ hquiet rfl trivial
    · exact (hat hpc).quiet ⟨rfl, rfl, rfl, rfl, rfl, rfl⟩ hquiet rfl trivial
  | connected hpc hquiet | health hpc hquiet | installSlot hpc _ hquiet | enrich hpc hquiet
  | ended hpc hquiet =>
    exact (hat hpc).quiet ⟨rfl, rfl, rfl, rfl, rfl, rfl⟩ hquiet rfl trivial
  | installRound hpc =>
    rw [State.installRound_eq]
    exact (hat hpc).quiet ⟨rfl, rfl, rfl, rfl, rfl, rfl⟩ (.refl _) rfl trivial
  | installCoinbase hpc =>
    rw [State.installCoinbase_eq]
    exact (hat hpc).quiet ⟨rfl, rfl, rfl, rfl, rfl, rfl⟩ (.refl _) rfl trivial
  | @installGeneration role _ hpc =>
    cases role with
    | pool c => exact (hat hpc).quiet ⟨rfl, rfl, rfl, rfl, rfl, rfl⟩ (.refl _) rfl trivial
    | direct d => exact (hat hpc).quiet ⟨rfl, rfl, rfl, rfl, rfl, rfl⟩ (.refl _) rfl trivial
  | noConnection hpc | poolError hpc =>
    rcases hpc with hpc | hpc
    · exact (hat hpc).quiet hsame (.refl _) rfl trivial
    · exact (hat hpc).quiet hsame (.refl _) rfl trivial
  | directError hpc =>
    rcases hpc with hpc | ⟨height, hpc⟩
    · exact (hat hpc).quiet hsame (.refl _) rfl trivial
    · exact (hat hpc).quiet hsame (.refl _) rfl trivial
  | configured hpc | openConnection hpc | login hpc | loginError hpc | writeEndpoint hpc
  | timeout hpc | keepalive hpc | poolJob hpc | keepTemplate hpc | directJob hpc | finishShare hpc
  | closePool hpc | closeOther hpc | closeDirect hpc | clearJob hpc | clearCoinbase hpc
  | clearGeneration hpc | forgetCoinbase hpc | forgetMempool hpc | forgetPeers hpc | dropJob hpc
  | dropGeneration hpc =>
    exact (hat hpc).quiet ⟨rfl, rfl, rfl, rfl, rfl, rfl⟩ (.refl _) rfl trivial

/-- The steps of a worker that does not submit blocks. -/
theorem worker {params : Params} {w : ℕ} {locks : Locks} {wk wk' : Worker}
    (hmove : Worker.Move params w locks s wk s' wk') (h : Balanced s session reporter)
    (hendpoint : s.rpcEndpoint = none) (hidle : wk.pc.holdsEndpoint = false)
    (hroom : wk.pc.counts → s.history.counted.length + 1 < 2 ^ 64) :
    Balanced s' session reporter ∧ wk'.pc.holdsEndpoint = false := by
  have hquiet : ∀ {s' : State}, s.SameShares s' → Quiet s.stdout s'.stdout →
      Balanced s' session reporter := fun hsame hquiet =>
    h.quiet hsame hquiet rfl (h.session.congr hsame.accepted hsame.rejected)
  have hsame : s.SameShares s := ⟨rfl, rfl, rfl, rfl, rfl, rfl⟩
  cases hmove with
  -- without an endpoint no worker gets to submit blocks
  | direct hpc hsome => exact nomatch hendpoint.symm.trans hsome
  | countSubmission hpc | submitBlock _ hpc | countAccepted hpc | recordSealed hpc
  | loadSubmitted hpc | loadAccepted hpc | loadRejected hpc | emitShare hpc | clearJob hpc
  | keepJob hpc | clearGeneration hpc | emitCleared hpc | countRejected hpc =>
    rw [hpc] at hidle
    cases hidle
  | powReady _ _ hstdout | powError _ hstdout | panic _ hstdout =>
    exact ⟨hquiet ⟨rfl, rfl, rfl, rfl, rfl, rfl⟩ hstdout, rfl⟩
  | countSubmitted hpc =>
    exact ⟨h.countSubmitted wk _ _ (hroom (by rw [hpc]; rfl)), rfl⟩
  | current =>
    refine ⟨h, ?_⟩
    rcases Worker.pc_enterBatch wk with hpc | hpc <;> rw [hpc] <;> rfl
  | readJob =>
    refine ⟨h, ?_⟩
    rcases Worker.pc_readJob wk w s _ with hpc | hpc <;> rw [hpc] <;> rfl
  | recordRound =>
    rw [State.recordRoundHashes_eq]
    exact ⟨hquiet ⟨rfl, rfl, rfl, rfl, rfl, rfl⟩ (.refl _), rfl⟩
  | _ => exact ⟨hquiet ⟨rfl, rfl, rfl, rfl, rfl, rfl⟩ (.refl _), rfl⟩

theorem report (h : Balanced s session reporter)
    (hanswered : s.history.settled.Subperm (reporter'.answerable s.history.counted))
    (hfair : reporter'.Fair s) : Balanced s session reporter' :=
  ⟨h.submitted, h.settled, h.replies, hanswered, h.session, hfair, h.stdout⟩

/-- The reporter loads `submitted` before the replies. -/
theorem reporter_step {locked : Bool} {bits : UInt64} {x : State × Reporter}
    (h : Balanced s session reporter) (hstep : reporter.step s locked bits = some x) :
    Balanced x.1 session x.2 := by
  have hcounted := h.counted
  obtain ⟨reporting, metrics⟩ := reporter
  unfold Reporter.step at hstep
  cases reporting with
  | interval =>
    cases hstep
    have hreset : Balanced { s with intervalHashes := 0 } session ⟨.interval, metrics⟩ := h.quiet
      ⟨rfl, rfl, rfl, rfl, rfl, rfl⟩ (.refl _) rfl (h.session.congr rfl rfl)
    apply hreset.report
    · exact hcounted
    · trivial
  | height =>
    simp only at hstep
    split_ifs at hstep
    cases hstep
    apply h.report
    · exact hcounted
    · trivial
  | submitted =>
    cases hstep
    apply h.report
    · rw [Reporter.answerable, h.submitted, List.take_length]
      exact hcounted
    · trivial
  | accepted =>
    cases hstep
    apply h.report
    · exact h.answered
    · exact le_rfl
  | rejected =>
    cases hstep
    apply h.report
    · exact hcounted
    -- the replies counted since are answers to what was loaded before them
    · calc metrics.accepted.toNat + s.rejected.toNat
          ≤ s.accepted.toNat + s.rejected.toNat := Nat.add_le_add_right h.reporter _
        _ = s.history.settled.length := h.settled
        _ ≤ (s.history.counted.take metrics.submitted.toNat).length := h.answered.length_le
        _ ≤ metrics.submitted.toNat := List.length_take_le _ _
  | mempool | peers =>
    cases hstep
    apply h.report
    · exact hcounted
    · exact h.reporter
  | emit =>
    cases hstep
    have hemit := h.emit (Metrics.consistent_event h.reporter) rfl h.session
    rw [State.emit_eq] at hemit ⊢
    apply hemit.report
    · exact hcounted
    · trivial
  | _ =>
    cases hstep
    apply h.report
    · exact hcounted
    · trivial

theorem init (jsonEvents : Bool) : Balanced { jsonEvents } .sleeping {} where
  submitted := rfl
  settled := rfl
  replies := rfl
  answered := List.Subperm.refl _
  session := trivial
  reporter := trivial
  stdout _ h := nomatch h

end Balanced

namespace System
variable {n : ℕ} {params : Params} {config : Config} {s s' : System n}

/-- A reply is counted after the submit written under its id, and after it was counted for the
reporter too, where that has yet to load the replies; and the counters have room. -/
def InOrder (s : System n) : Action n → Prop
  | .worker w _ => (s.workers w).pc.counts → s.state.history.counted.length + 1 < 2 ^ 64
  | .session _ => ∀ reply ∈ s.runner.session.counting,
      s.state.history.submits.count reply ≤
        (s.reporter.answerable s.state.history.counted).count reply
  | .reporter _ => True

instance (s : System n) (a : Action n) : Decidable (s.InOrder a) :=
  match a with
  | .worker _ _ => inferInstanceAs (Decidable (_ → _))
  | .session _ => inferInstanceAs (Decidable (∀ reply ∈ s.runner.session.counting, _))
  | .reporter _ => isTrue trivial

structure Tallied (params : Params) (config : Config) (s : System n) : Prop where
  reachable : s.Reachable params config
  answered : s.state.history.replies.Subperm s.state.history.submits
  balanced : Balanced s.state s.runner.session s.reporter
  workers : ∀ w, (s.workers w).pc.holdsEndpoint = false

theorem Tallied.init : (System.init n config).Tallied params config where
  reachable := .refl _
  answered := List.Subperm.refl _
  balanced := .init _
  workers _ := rfl

theorem Tallied.step (hmode : isDirectRpc config.pool = false) {a : Action n}
    (h : s.Tallied params config) (hpool : s.Answers params a) (horder : s.InOrder a)
    (hstep : s.step params config a = some s') : s'.Tallied params config := by
  have hreach : s'.Reachable params config := h.reachable.tail hstep
  have hanswered := answered_step h.answered hpool hstep
  cases a with
  | worker w e =>
    obtain ⟨x, hx, rfl⟩ := Option.map_eq_some_iff.1 hstep
    obtain ⟨hbalanced, hidle⟩ := h.balanced.worker (Worker.step_moves hx)
      ((attached h.reachable).endpoint hmode) (h.workers w) horder
    refine ⟨hreach, hanswered, hbalanced, fun v => ?_⟩
    by_cases hv : v = w
    · subst hv
      simpa [setWorker] using hidle
    · simpa [setWorker, hv] using h.workers v
  | session e =>
    obtain ⟨x, hx, rfl⟩ := Option.map_eq_some_iff.1 hstep
    refine ⟨hreach, hanswered, Balanced.runner (Runner.step_moves hx) h.balanced ?_, h.workers⟩
    intro c id accepted hpc
    exact (h.answered.count_le _).trans (horder (c, id) (by rw [hpc]; rfl))
  | reporter bits =>
    obtain ⟨x, hx, rfl⟩ := Option.map_eq_some_iff.1 hstep
    exact ⟨hreach, hanswered, h.balanced.reporter_step hx, h.workers⟩

/-- The share counters add up, and so do those of every event. -/
structure SharesAddUp (s : System n) : Prop where
  counters : s.state.accepted.toNat + s.state.rejected.toNat ≤ s.state.submitted.toNat
  events : ∀ event ∈ s.state.stdout, Consistent event

theorem shares_add_up (hmode : isDirectRpc config.pool = false) {as : List (Action n)}
    (hpool : Runs.StepsSatisfy (step params config) (Answers params) (System.init n config) as)
    (horder : Runs.StepsSatisfy (step params config) InOrder (System.init n config) as)
    (hrun : run params config (System.init n config) as = some s) : s.SharesAddUp := by
  have htallied : s.Tallied params config := (hpool.and horder).run
    (fun _ _ _ h hboth => Tallied.step hmode h hboth.1 hboth.2) Tallied.init hrun
  exact ⟨htallied.balanced.le, htallied.balanced.stdout⟩

/-- The pool accepts the first submit; the session thread counts the reply and emits an event. -/
def acceptShare : List (Action n) :=
  arrives (.json [("id", .nat firstSubmitId), ("result", .string "OK")]) ::
    List.replicate 6 (.session .tick)

theorem shares_add_up_oneShare : ∃ s : System 1,
    System.run plainParams poolConfig (System.init 1 poolConfig)
      (openPool "a" ++ solveShare 0 ++ writeShare 0 ++ .worker 0 .tick :: acceptShare) = some s ∧
    s.state.accepted = 1 ∧ s.SharesAddUp := by
  -- the run and the conditions on its steps are evaluated together
  have hevaluated : ((System.run plainParams poolConfig (System.init 1 poolConfig)
      (openPool "a" ++ solveShare 0 ++ writeShare 0 ++ .worker 0 .tick :: acceptShare)).map
        fun s => s.state.accepted) = some 1 ∧
      Runs.StepsSatisfy (step plainParams poolConfig) (Answers plainParams)
        (System.init 1 poolConfig)
        (openPool "a" ++ solveShare 0 ++ writeShare 0 ++ .worker 0 .tick :: acceptShare) ∧
      Runs.StepsSatisfy (step plainParams poolConfig) InOrder (System.init 1 poolConfig)
        (openPool "a" ++ solveShare 0 ++ writeShare 0 ++ .worker 0 .tick :: acceptShare) := by
    decide +kernel
  obtain ⟨hsome, hanswers, horder⟩ := hevaluated
  obtain ⟨s, hrun, haccepted⟩ := Option.map_eq_some_iff.1 hsome
  have hmode : isDirectRpc poolConfig.pool = false := by decide
  exact ⟨s, hrun, haccepted, shares_add_up hmode hanswers horder hrun⟩

/-- The reply overtakes the count of its submit. -/
theorem reply_counted_first : ∃ s : System 1,
    System.run plainParams poolConfig (System.init 1 poolConfig)
      (openPool "a" ++ solveShare 0 ++ writeShare 0 ++ acceptShare) = some s ∧
    Runs.StepsSatisfy (step plainParams poolConfig) (Answers plainParams)
      (System.init 1 poolConfig) (openPool "a" ++ solveShare 0 ++ writeShare 0 ++ acceptShare) ∧
    ¬ s.SharesAddUp := by
  have hevaluated : ((System.run plainParams poolConfig (System.init 1 poolConfig)
      (openPool "a" ++ solveShare 0 ++ writeShare 0 ++ acceptShare)).map
        fun s => (s.state.accepted.toNat, s.state.submitted.toNat)) = some (1, 0) ∧
      Runs.StepsSatisfy (step plainParams poolConfig) (Answers plainParams)
        (System.init 1 poolConfig) (openPool "a" ++ solveShare 0 ++ writeShare 0 ++ acceptShare) :=
    by decide +kernel
  obtain ⟨hsome, hanswers⟩ := hevaluated
  obtain ⟨s, hrun, hs⟩ := Option.map_eq_some_iff.1 hsome
  obtain ⟨haccepted, hsubmitted⟩ := Prod.mk.inj hs
  refine ⟨s, hrun, hanswers, fun hsound => ?_⟩
  have hcounters := hsound.counters
  omega

end System
end XusMiner.Engine

import XusMiner.Engine.Submissions
import XusMiner.Library.Counting

namespace XusMiner.Engine
open ByteCodec

/-- How far a session is, by what it is attached to. -/
inductive Stage
  | idle
  | dialing
  | opening (c : ℕ)
  | pool (c : ℕ)
  | direct

def Role.stage : Role → Stage
  | .pool c => .pool c
  | .direct _ => .direct

def Session.stage : Session → Stage
  | .connect | .configure => .dialing
  | .openConnection c => .opening c
  | .login c | .keepalive c | .finishShare c .. | .countShare c .. | .loadSubmitted c
  | .loadAccepted c _ | .loadRejected c .. | .emitShare c .. => .pool c
  | .writeEndpoint | .template .. | .enrich _ => .direct
  | .working role | .installRound role _ | .installCoinbase role _ | .installSlot role _
  | .installGeneration role _ | .closing role _ => role.stage
  | _ => .idle

theorem Runner.stage_resume (role : Role) : (Runner.resume role).stage = role.stage := by
  cases role <;> rfl

/-- A pool session runs on the connection that was opened last, and has it installed once it is
logged in. -/
def Stage.Fits (config : Config) (s : State) : Stage → Prop
  | .idle => True
  | .dialing => isDirectRpc config.pool = false
  | .opening c => isDirectRpc config.pool = false ∧ c + 1 = s.connections.length
  | .pool c => isDirectRpc config.pool = false ∧ s.connection = some c ∧
      c + 1 = s.connections.length
  | .direct => isDirectRpc config.pool = true

/-- Two states agree on the connections and on the jobs that came over them. -/
structure State.SameConnections (s s' : State) : Prop where
  connection : s'.connection = s.connection
  endpoint : s'.rpcEndpoint = s.rpcEndpoint
  length : s'.connections.length = s.connections.length
  received : s'.history.received = s.history.received

theorem Stage.Fits.congr {config : Config} {s s' : State} {stage : Stage}
    (h : stage.Fits config s) (hconnection : s'.connection = s.connection)
    (hlength : s'.connections.length = s.connections.length) : stage.Fits config s' := by
  cases stage with
  | idle => trivial
  | dialing => exact h
  | opening c => exact ⟨h.1, h.2.trans hlength.symm⟩
  | pool c => exact ⟨h.1, hconnection.trans h.2.1, h.2.2.trans hlength.symm⟩
  | direct => exact h

/-- What is known of the connections while the session thread is at `session`. -/
structure Attached (config : Config) (s : State) (session : Session) : Prop where
  stage : session.stage.Fits config s
  endpoint : isDirectRpc config.pool = false → s.rpcEndpoint = none
  connection : isDirectRpc config.pool = true → s.connection = none
  opened : ∀ arc ∈ s.history.received, arc.opened ≤ s.connections.length
  origin : isDirectRpc config.pool = false → ∀ arc ∈ s.history.received,
    ∃ c, arc.origin = some c ∧ arc.opened = c + 1
  latest : ∀ c, s.connection = some c → c + 1 = s.connections.length ∨
    ∀ arc ∈ s.history.received, arc.opened < s.connections.length

namespace Attached
variable {config : Config} {s s' : State} {session session' : Session}

theorem congr (h : Attached config s session) (hsame : s.SameConnections s')
    (hstage : session'.stage = .idle ∨ session'.stage = session.stage) :
    Attached config s' session' where
  stage := by
    rcases hstage with hidle | hstage
    · rw [hidle]
      trivial
    · rw [hstage]
      exact h.stage.congr hsame.connection hsame.length
  endpoint hmode := hsame.endpoint.trans (h.endpoint hmode)
  connection hmode := hsame.connection.trans (h.connection hmode)
  opened := by
    rw [hsame.received, hsame.length]
    exact h.opened
  origin := by
    rw [hsame.received]
    exact h.origin
  latest := by
    rw [hsame.received, hsame.length, hsame.connection]
    exact h.latest

theorem init : Attached config { jsonEvents := config.jsonEvents } .sleeping where
  stage := trivial
  endpoint _ := rfl
  connection _ := rfl
  opened _ h := nomatch h
  origin _ _ h := nomatch h
  latest _ h := nomatch h

theorem stageAt (h : Attached config s session) {stage : Stage} (hpc : session = session')
    (hstage : session'.stage = stage) : stage.Fits config s := by
  rw [← hstage, ← hpc]
  exact h.stage

/-- A step of the session thread that touches no connection. -/
theorem quiet {r r' : Runner} (h : Attached config s r.session) (hsame : s.SameConnections s')
    (hpc : r.session = session)
    (hstage : r'.session.stage = .idle ∨ r'.session.stage = session.stage) :
    Attached config s' r'.session :=
  h.congr hsame (hpc ▸ hstage)

theorem received (h : Attached config s session) (job : Job) (origin : Option ℕ)
    (hstage : session'.stage = session.stage)
    (horigin : isDirectRpc config.pool = false →
      ∃ c, origin = some c ∧ s.connection = some c ∧ c + 1 = s.connections.length) :
    Attached config (s.receive job origin).2 session' where
  stage := by
    rw [hstage]
    exact h.stage.congr rfl rfl
  endpoint := h.endpoint
  connection := h.connection
  opened arc harc := by
    rcases List.mem_append.1 harc with hold | hnew
    · exact h.opened arc hold
    · cases List.mem_singleton.1 hnew
      exact le_rfl
  origin hmode arc harc := by
    rcases List.mem_append.1 harc with hold | hnew
    · exact h.origin hmode arc hold
    · cases List.mem_singleton.1 hnew
      obtain ⟨c, hc, -, hlength⟩ := horigin hmode
      exact ⟨c, hc, hlength.symm⟩
  latest c hc := by
    cases hmode : isDirectRpc config.pool with
    | true => exact nomatch (h.connection hmode).symm.trans hc
    | false =>
      obtain ⟨c', -, hc', hlength⟩ := horigin hmode
      cases hc'.symm.trans hc
      exact .inl hlength

theorem runner {params : Params} {workers : ℕ} {guards : Guards} {r r' : Runner}
    {e : SessionEvent} (hmove : Runner.Move params config workers guards s r e s' r')
    (h : Attached config s r.session) : Attached config s' r'.session := by
  cases hmove with
  | wake hpc =>
    -- the URL decides which of the two sessions begins
    refine ⟨?_, h.endpoint, h.connection, h.opened, h.origin, h.latest⟩
    split_ifs with hmode
    · exact hmode
    · exact Bool.eq_false_iff.2 hmode
  | configured hpc =>
    have hmode : isDirectRpc config.pool = false := h.stageAt hpc rfl
    -- every job at hand is of an older connection than the one that is opened now
    have hlength := @List.length_append _ s.connections [{ maxPending := UInt64.ofNat workers }]
    refine ⟨⟨hmode, hlength.symm⟩, h.endpoint, h.connection, ?_, h.origin, fun c hc => .inr ?_⟩
    · intro arc harc
      exact (h.opened arc harc).trans (hlength ▸ Nat.le_succ _)
    · intro arc harc
      exact (h.opened arc harc).trans_lt (hlength ▸ Nat.lt_succ_self _)
  | noConnection hpc => exact h.congr ⟨rfl, rfl, rfl, rfl⟩ (.inl rfl)
  | poolError hpc =>
    rcases hpc with hpc | hpc
    · exact h.quiet ⟨rfl, rfl, rfl, rfl⟩ hpc (.inr rfl)
    · exact h.quiet ⟨rfl, rfl, rfl, rfl⟩ hpc (.inr rfl)
  | directError hpc =>
    rcases hpc with hpc | ⟨height, hpc⟩
    · exact h.quiet ⟨rfl, rfl, rfl, rfl⟩ hpc (.inr rfl)
    · exact h.quiet ⟨rfl, rfl, rfl, rfl⟩ hpc (.inr rfl)
  | openConnection hpc =>
    obtain ⟨hmode, hlength⟩ := h.stageAt hpc rfl
    refine ⟨⟨hmode, rfl, hlength⟩, h.endpoint, fun hdirect => ?_, h.opened, h.origin, ?_⟩
    · exact nomatch hmode.symm.trans hdirect
    · rintro c' ⟨⟩
      exact .inl hlength
  | writeEndpoint hpc =>
    have hmode : isDirectRpc config.pool = true := h.stageAt hpc rfl
    refine ⟨hmode, fun hpool => ?_, h.connection, h.opened, h.origin, h.latest⟩
    exact nomatch hmode.symm.trans hpool
  | ignore => exact h
  | @poolJob c _ _ _ _ hpc =>
    obtain ⟨_, hconnection, hlength⟩ := h.stageAt hpc rfl
    exact h.received _ _ (hpc ▸ rfl) fun _ => ⟨c, rfl, hconnection, hlength⟩
  | directJob hpc =>
    have hmode : isDirectRpc config.pool = true := h.stageAt hpc rfl
    exact h.received _ _ (hpc ▸ rfl) fun hpool => nomatch hmode.symm.trans hpool
  | installRound hpc =>
    rw [State.installRound_eq]
    exact h.quiet ⟨rfl, rfl, rfl, rfl⟩ hpc (.inr rfl)
  | installCoinbase hpc =>
    rw [State.installCoinbase_eq]
    exact h.quiet ⟨rfl, rfl, rfl, rfl⟩ hpc (.inr rfl)
  | installGeneration hpc =>
    exact h.quiet ⟨rfl, rfl, rfl, rfl⟩ hpc (.inr (Runner.stage_resume _))
  | finishShare hpc => exact h.quiet ⟨rfl, rfl, List.length_modify .., rfl⟩ hpc (.inr rfl)
  | emitShare hpc =>
    rw [State.emit_eq]
    exact h.quiet ⟨rfl, rfl, rfl, rfl⟩ hpc (.inr rfl)
  | closePool hpc =>
    exact ⟨trivial, h.endpoint, fun _ => rfl, h.opened, h.origin, fun _ hc => nomatch hc⟩
  | closeDirect hpc => exact ⟨trivial, fun _ => rfl, h.connection, h.opened, h.origin, h.latest⟩
  | loginError hpc | closeOther hpc | clearJob hpc | clearCoinbase hpc | clearGeneration hpc
  | forgetCoinbase hpc | forgetMempool hpc | forgetPeers hpc | dropJob hpc | dropGeneration hpc
  | ended hpc => exact h.quiet ⟨rfl, rfl, rfl, rfl⟩ hpc (.inl rfl)
  | connected hpc | login hpc | timeout hpc | keepalive hpc | share hpc | health hpc
  | keepTemplate hpc | installSlot hpc | enrich hpc | countShare hpc
  | loadSubmitted hpc | loadAccepted hpc | loadRejected hpc =>
    exact h.quiet ⟨rfl, rfl, rfl, rfl⟩ hpc (.inr rfl)

/-- The connection of the job at hand, or none, is what a worker finds installed. -/
theorem origin_eq (h : Attached config s session) {arc : ArcJob} (harc : arc ∈ s.history.received)
    (hopened : arc.opened = s.connections.length) {c : ℕ} (hc : s.connection = some c) :
    arc.origin = some c := by
  cases hmode : isDirectRpc config.pool with
  | true => exact nomatch (h.connection hmode).symm.trans hc
  | false =>
    obtain ⟨c', horigin, hc'⟩ := h.origin hmode arc harc
    rcases h.latest c hc with hlatest | hbefore
    · rw [horigin]
      congr 1
      omega
    · exact absurd (hbefore arc harc) (by omega)

end Attached

theorem Worker.Move.sameConnections {params : Params} {w : ℕ} {locks : Locks} {s s' : State}
    {wk wk' : Worker} (h : Move params w locks s wk s' wk') : s.SameConnections s' := by
  cases h with
  | emitShare =>
    rw [State.emit_eq]
    exact ⟨rfl, rfl, rfl, rfl⟩
  | recordRound =>
    rw [State.recordRoundHashes_eq]
    exact ⟨rfl, rfl, rfl, rfl⟩
  | reserve | writeFailed => exact ⟨rfl, rfl, List.length_modify .., rfl⟩
  | _ => exact ⟨rfl, rfl, rfl, rfl⟩

theorem Worker.Move.submits {params : Params} {w : ℕ} {locks : Locks} {s s' : State}
    {wk wk' : Worker} (h : Move params w locks s wk s' wk') :
    s'.history.replies = s.history.replies ∧ s.history.submits.Sublist s'.history.submits := by
  cases h with
  | emitShare =>
    rw [State.emit_eq]
    exact ⟨rfl, List.Sublist.refl _⟩
  | recordRound =>
    rw [State.recordRoundHashes_eq]
    exact ⟨rfl, List.Sublist.refl _⟩
  | write =>
    refine ⟨rfl, ?_⟩
    simp only [History.submits, List.map_append]
    exact List.sublist_append_left _ _
  | _ => exact ⟨rfl, List.Sublist.refl _⟩

theorem Runner.Move.replies {params : Params} {config : Config} {workers : ℕ} {guards : Guards}
    {s s' : State} {r r' : Runner} {e : SessionEvent}
    (h : Move params config workers guards s r e s' r') :
    s'.history.replies = s.history.replies ∨ ∃ c id accepted message scan,
      r.session = .working (.pool c) ∧ e = .message (.ok (some message)) scan ∧
      readMessage params.float message = .ok (.share id accepted) ∧
      s'.history.replies = s.history.replies ++ [(c, id)] := by
  cases h with
  | share hpc hevent hmessage => exact .inr ⟨_, _, _, _, _, hpc, hevent, hmessage, rfl⟩
  | installRound =>
    rw [State.installRound_eq]
    exact .inl rfl
  | installCoinbase =>
    rw [State.installCoinbase_eq]
    exact .inl rfl
  | emitShare =>
    rw [State.emit_eq]
    exact .inl rfl
  | _ => exact .inl rfl

namespace System
variable {n : ℕ} {params : Params} {config : Config} {s s' : System n}

theorem attached_step {a : Action n} (h : Attached config s.state s.runner.session)
    (hstep : s.step params config a = some s') : Attached config s'.state s'.runner.session := by
  cases a with
  | worker w e =>
    obtain ⟨x, hx, rfl⟩ := Option.map_eq_some_iff.1 hstep
    exact h.congr (Worker.step_moves hx).sameConnections (.inr rfl)
  | session e =>
    obtain ⟨x, hx, rfl⟩ := Option.map_eq_some_iff.1 hstep
    exact .runner (Runner.step_moves hx) h
  | reporter bits =>
    obtain ⟨x, hx, rfl⟩ := Option.map_eq_some_iff.1 hstep
    have hsame : s.state.SameConnections x.1 := by
      rw [Reporter.step_state hx]
      exact ⟨rfl, rfl, rfl, rfl⟩
    exact h.congr hsame (.inr rfl)

theorem attached (h : s.Reachable params config) : Attached config s.state s.runner.session :=
  Runs.Invariant.reachable (I := fun s : System n => Attached config s.state s.runner.session)
    (fun _ _ _ => attached_step) Attached.init h

/-- The share reply that a step of the session thread reads. -/
def reads (params : Params) (s : System n) : Action n → Option (ℕ × UInt64)
  | .session (.message (.ok (some message)) _) =>
    match s.runner.session, readMessage params.float message with
    | .working (.pool c), .ok (.share id _) => some (c, id)
    | _, _ => none
  | _ => none

/-- What the pool is relied on for: a share reply answers a submit it has received on the same
connection, each at most once. -/
def Answers (params : Params) (s : System n) (a : Action n) : Prop :=
  ∀ reply ∈ s.reads params a,
    s.state.history.replies.count reply < s.state.history.submits.count reply

instance (s : System n) (a : Action n) : Decidable (s.Answers params a) :=
  inferInstanceAs (Decidable (∀ reply ∈ s.reads params a, _))

theorem Answers.share {e : SessionEvent} {c : ℕ} {id : UInt64} {accepted : Bool} {message : Value}
    {scan : Except String (UInt64 × UInt64)} (h : s.Answers params (.session e))
    (hpc : s.runner.session = .working (.pool c)) (hevent : e = .message (.ok (some message)) scan)
    (hmessage : readMessage params.float message = .ok (.share id accepted)) :
    s.state.history.replies.count (c, id) < s.state.history.submits.count (c, id) := by
  apply h
  simp only [reads, hevent, hpc, hmessage]
  rfl

/-- So no more replies are read than submits were written. -/
theorem answered_step {a : Action n}
    (h : s.state.history.replies.Subperm s.state.history.submits) (hpool : s.Answers params a)
    (hstep : s.step params config a = some s') :
    s'.state.history.replies.Subperm s'.state.history.submits := by
  cases a with
  | worker w e =>
    obtain ⟨x, hx, rfl⟩ := Option.map_eq_some_iff.1 hstep
    obtain ⟨hreplies, hsubmits⟩ := (Worker.step_moves hx).submits
    exact (hreplies ▸ h).trans hsubmits.subperm
  | session e =>
    obtain ⟨x, hx, rfl⟩ := Option.map_eq_some_iff.1 hstep
    have hmove := Runner.step_moves hx
    have hsubmits : x.1.history.submits = s.state.history.submits :=
      congrArg (List.map _) hmove.logs_eq.2.1
    rw [hsubmits]
    rcases hmove.replies with hreplies |
      ⟨c, id, accepted, message, scan, hpc, hevent, hmessage, hreplies⟩
    · rwa [hreplies]
    · rw [hreplies]
      exact Counting.subperm_append_singleton h (hpool.share hpc hevent hmessage)
  | reporter bits =>
    obtain ⟨x, hx, rfl⟩ := Option.map_eq_some_iff.1 hstep
    rw [Reporter.step_state hx]
    exact h

end System
end XusMiner.Engine

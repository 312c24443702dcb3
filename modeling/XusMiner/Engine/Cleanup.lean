import XusMiner.Engine.StaleWork
import XusMiner.Engine.Connections

namespace XusMiner.Engine
open ByteCodec

/-- No work is left behind. The mempool and peer figures are those of direct sessions. -/
structure State.Cleared (config : Config) (s : State) : Prop where
  job : s.job = none
  connection : s.connection = none
  endpoint : s.rpcEndpoint = none
  coinbase : s.confirmedCoinbase = none
  mempool : isDirectRpc config.pool = true → s.mempoolKnown = false
  peers : isDirectRpc config.pool = true → s.peersKnown = false

/-- Nothing of an earlier session is left where the next one can return without a cleanup. -/
def Session.resting : Session → Bool
  | .sleeping | .connect | .configure | .openConnection _ | .writeEndpoint | .ended _ => true
  | _ => false

/-- How much of a session is cleared away; a pool session clears its connection first, a direct
one its endpoint. -/
def Session.Swept (config : Config) (s : State) : Session → Prop
  | .sleeping | .connect | .configure | .openConnection _ | .writeEndpoint | .ended _
  | .clearGeneration .. | .dropGeneration .. => s.Cleared config
  | .clearJob _ => isDirectRpc config.pool = false ∧ s.connection = none
  | .clearCoinbase .. => isDirectRpc config.pool = false ∧ s.connection = none ∧ s.job = none
  | .forgetCoinbase _ => isDirectRpc config.pool = true ∧ s.rpcEndpoint = none
  | .forgetMempool _ => isDirectRpc config.pool = true ∧ s.rpcEndpoint = none ∧
      s.confirmedCoinbase = none
  | .forgetPeers _ => isDirectRpc config.pool = true ∧ s.rpcEndpoint = none ∧
      s.confirmedCoinbase = none ∧ s.mempoolKnown = false
  | .dropJob _ => isDirectRpc config.pool = true ∧ s.rpcEndpoint = none ∧
      s.confirmedCoinbase = none ∧ s.mempoolKnown = false ∧ s.peersKnown = false
  | _ => True

theorem Session.Swept.cleared {config : Config} {s : State} {session : Session}
    (h : session.Swept config s) (hresting : session.resting = true) : s.Cleared config := by
  cases session with
  | sleeping | connect | configure | openConnection | writeEndpoint | ended => exact h
  | _ => cases hresting

/-- Between two states the session thread left alone, the job slot can only have been emptied. -/
structure State.SweptAlike (s s' : State) : Prop where
  job : s.job = none → s'.job = none
  connection : s'.connection = s.connection
  endpoint : s'.rpcEndpoint = s.rpcEndpoint
  coinbase : s'.confirmedCoinbase = s.confirmedCoinbase
  mempool : s'.mempoolKnown = s.mempoolKnown
  peers : s'.peersKnown = s.peersKnown

namespace State.SweptAlike
variable {config : Config} {s s' : State}

theorem cleared (h : s.SweptAlike s') (hs : s.Cleared config) : s'.Cleared config where
  job := h.job hs.job
  connection := h.connection.trans hs.connection
  endpoint := h.endpoint.trans hs.endpoint
  coinbase := h.coinbase.trans hs.coinbase
  mempool hmode := h.mempool.trans (hs.mempool hmode)
  peers hmode := h.peers.trans (hs.peers hmode)

theorem swept (h : s.SweptAlike s') {session : Session} (hs : session.Swept config s) :
    session.Swept config s' := by
  cases session with
  | sleeping | connect | configure | openConnection | writeEndpoint | ended | clearGeneration
  | dropGeneration => exact h.cleared hs
  | clearJob => exact ⟨hs.1, h.connection.trans hs.2⟩
  | clearCoinbase => exact ⟨hs.1, h.connection.trans hs.2.1, h.job hs.2.2⟩
  | forgetCoinbase => exact ⟨hs.1, h.endpoint.trans hs.2⟩
  | forgetMempool => exact ⟨hs.1, h.endpoint.trans hs.2.1, h.coinbase.trans hs.2.2⟩
  | forgetPeers =>
    obtain ⟨hmode, hendpoint, hcoinbase, hmempool⟩ := hs
    exact ⟨hmode, h.endpoint.trans hendpoint, h.coinbase.trans hcoinbase, h.mempool.trans hmempool⟩
  | dropJob =>
    obtain ⟨hmode, hendpoint, hcoinbase, hmempool, hpeers⟩ := hs
    exact ⟨hmode, h.endpoint.trans hendpoint, h.coinbase.trans hcoinbase,
      h.mempool.trans hmempool, h.peers.trans hpeers⟩
  | _ => trivial

end State.SweptAlike

theorem Worker.Move.sweptAlike {params : Params} {w : ℕ} {locks : Locks} {s s' : State}
    {wk wk' : Worker} (h : Move params w locks s wk s' wk') : s.SweptAlike s' := by
  cases h with
  | emitShare =>
    rw [State.emit_eq]
    exact ⟨id, rfl, rfl, rfl, rfl, rfl⟩
  | recordRound =>
    rw [State.recordRoundHashes_eq]
    exact ⟨id, rfl, rfl, rfl, rfl, rfl⟩
  | clearJob => exact ⟨fun _ => rfl, rfl, rfl, rfl, rfl, rfl⟩
  | _ => exact ⟨id, rfl, rfl, rfl, rfl, rfl⟩

theorem Worker.Move.increments {params : Params} {w : ℕ} {locks : Locks} {s s' : State}
    {wk wk' : Worker} (h : Move params w locks s wk s' wk') :
    s'.history.increments = s.history.increments ∨
      s'.history.increments = s.history.increments + 1 := by
  cases h with
  | clearGeneration => exact .inr rfl
  | emitShare =>
    rw [State.emit_eq]
    exact .inl rfl
  | recordRound =>
    rw [State.recordRoundHashes_eq]
    exact .inl rfl
  | _ => exact .inl rfl

namespace Runner.Move
variable {params : Params} {config : Config} {workers : ℕ} {guards : Guards} {s s' : State}
  {r r' : Runner} {e : SessionEvent}

theorem increments (h : Move params config workers guards s r e s' r') :
    s'.history.increments = s.history.increments ∨
      s'.history.increments = s.history.increments + 1 := by
  cases h with
  | installGeneration | clearGeneration | dropGeneration => exact .inr rfl
  | installRound =>
    rw [State.installRound_eq]
    exact .inl rfl
  | installCoinbase =>
    rw [State.installCoinbase_eq]
    exact .inl rfl
  | emitShare =>
    rw [State.emit_eq]
    exact .inl rfl
  | _ => exact .inl rfl

/-- The login of the session, once it gets that far, is written in full. -/
def LoginWritten (params : Params) (config : Config) (session : Session) (e : SessionEvent) :
    Prop :=
  ∀ c result, session = .login c → e = .socket result →
    (writeJson params (loginRequest config) result).isOk = true

variable (hmove : Move params config workers guards s r e s' r')
  (hattached : Attached config s r.session) (hlogin : LoginWritten params config r.session e)
include hmove hattached hlogin

theorem swept (h : r.session.Swept config s) : r'.session.Swept config s' := by
  have hread : ∀ {session : Session}, r.session = session → session.Swept config s := by
    rintro session rfl
    exact h
  cases hmove with
  | wake hpc =>
    have hcleared : s.Cleared config := hread hpc
    split_ifs
    · exact State.SweptAlike.cleared (s := s) ⟨id, rfl, rfl, rfl, rfl, rfl⟩ hcleared
    · exact State.SweptAlike.cleared (s := s) ⟨id, rfl, rfl, rfl, rfl, rfl⟩ hcleared
  | connected hpc | configured hpc | ended hpc =>
    exact State.SweptAlike.cleared (s := s) ⟨id, rfl, rfl, rfl, rfl, rfl⟩ (hread hpc)
  | clearGeneration hpc | dropGeneration hpc =>
    exact State.SweptAlike.cleared (s := s) ⟨id, rfl, rfl, rfl, rfl, rfl⟩ (hread hpc)
  | noConnection hpc =>
    rcases hpc with hpc | hpc
    · exact h.cleared (by rw [hpc]; rfl)
    · exact h.cleared (by rw [hpc]; rfl)
  -- the one way out that skips the cleanup is excluded by `hlogin`
  | loginError hpc hevent hwrite =>
    have hok := hlogin _ _ hpc hevent
    rw [hwrite] at hok
    cases hok
  | closePool hpc =>
    obtain ⟨hmode, -⟩ := hattached.stageAt hpc rfl
    exact ⟨hmode, rfl⟩
  -- one session thread: the connection is its own
  | closeOther hpc hconnection =>
    obtain ⟨-, hinstalled, -⟩ := hattached.stageAt hpc rfl
    exact absurd hinstalled hconnection
  | closeDirect hpc =>
    have hmode : isDirectRpc config.pool = true := hattached.stageAt hpc rfl
    exact ⟨hmode, rfl⟩
  | clearJob hpc =>
    obtain ⟨hmode, hconnection⟩ := hread hpc
    exact ⟨hmode, hconnection, rfl⟩
  | clearCoinbase hpc =>
    obtain ⟨hmode, hconnection, hjob⟩ := hread hpc
    refine ⟨hjob, hconnection, hattached.endpoint hmode, rfl, ?_, ?_⟩
    · exact fun hdirect => nomatch hmode.symm.trans hdirect
    · exact fun hdirect => nomatch hmode.symm.trans hdirect
  | forgetCoinbase hpc =>
    obtain ⟨hmode, hendpoint⟩ := hread hpc
    exact ⟨hmode, hendpoint, rfl⟩
  | forgetMempool hpc =>
    obtain ⟨hmode, hendpoint, hcoinbase⟩ := hread hpc
    exact ⟨hmode, hendpoint, hcoinbase, rfl⟩
  | forgetPeers hpc =>
    obtain ⟨hmode, hendpoint, hcoinbase, hmempool⟩ := hread hpc
    exact ⟨hmode, hendpoint, hcoinbase, hmempool, rfl⟩
  | dropJob hpc =>
    obtain ⟨hmode, hendpoint, hcoinbase, hmempool, hpeers⟩ := hread hpc
    exact ⟨rfl, hattached.connection hmode, hendpoint, hcoinbase, fun _ => hmempool,
      fun _ => hpeers⟩
  | installGeneration =>
    cases ‹Role› with
    | pool c => trivial
    | direct d => trivial
  | ignore => exact h
  | _ => trivial

/-- A session with work to leave behind returns with a cleanup, so with an increment. -/
theorem increments_of_resting (hworking : r.session.resting = false)
    (hresting : r'.session.resting = true) :
    s'.history.increments = s.history.increments + 1 := by
  have hread : ∀ {session : Session}, r.session = session → session.resting = false := by
    rintro session rfl
    exact hworking
  cases hmove with
  | clearGeneration | dropGeneration => rfl
  | loginError hpc hevent hwrite =>
    have hok := hlogin _ _ hpc hevent
    rw [hwrite] at hok
    cases hok
  | closeOther hpc hconnection =>
    obtain ⟨-, hinstalled, -⟩ := hattached.stageAt hpc rfl
    exact absurd hinstalled hconnection
  | wake hpc | connected hpc | configured hpc | ended hpc => exact nomatch hread hpc
  | noConnection hpc =>
    rcases hpc with hpc | hpc
    · exact nomatch hread hpc
    · exact nomatch hread hpc
  | ignore => exact nomatch hworking.symm.trans hresting
  | installGeneration =>
    cases ‹Role› with
    | pool c => cases hresting
    | direct d => cases hresting
  | _ => cases hresting

end Runner.Move

namespace System
variable {n : ℕ} {params : Params} {config : Config} {s s' t : System n}

/-- What the socket does with the login, at the step that sends it. -/
def loginWrite (s : System n) : Action n → Option (Except IoError Unit)
  | .session (.socket result) =>
    match s.runner.session with
    | .login _ => some result
    | _ => none
  | _ => none

/-- A login that is sent is written in full, and the generation has an increment left. -/
structure Orderly (params : Params) (config : Config) (s : System n) (a : Action n) : Prop where
  login : ∀ result ∈ s.loginWrite a,
    (writeJson params (loginRequest config) result).isOk = true
  generation : s.state.generation ≠ 0xffffffffffffffff

instance (s : System n) (a : Action n) : Decidable (s.Orderly params config a) :=
  decidable_of_iff ((∀ result ∈ s.loginWrite a,
      (writeJson params (loginRequest config) result).isOk = true) ∧
    s.state.generation ≠ 0xffffffffffffffff)
    ⟨fun h => ⟨h.1, h.2⟩, fun h => ⟨h.login, h.generation⟩⟩

/-- What holds all along a run in which no login fails. -/
structure Swept (params : Params) (config : Config) (s : System n) : Prop where
  reachable : s.Reachable params config
  session : s.runner.session.Swept config s.state
  increments : s.state.history.increments < 2 ^ 64

namespace Swept

theorem init : (System.init n config).Swept params config where
  reachable := .refl _
  session := ⟨rfl, rfl, rfl, rfl, fun _ => rfl, fun _ => rfl⟩
  increments := by norm_num [System.init]

theorem generation (h : s.Swept params config) :
    s.state.generation.toNat = s.state.history.increments := by
  rw [(Numbered.reachable h.reachable).state, UInt64.toNat_ofNat']
  exact Nat.mod_eq_of_lt h.increments

theorem attached (h : s.Swept params config) : Attached config s.state s.runner.session :=
  System.attached h.reachable

theorem loginWritten {e : SessionEvent} (h : s.Orderly params config (.session e)) :
    Runner.Move.LoginWritten params config s.runner.session e := by
  rintro c result hpc rfl
  apply h.login
  simp [loginWrite, hpc]

end Swept

/-- A step leaves the count of increments or adds one. -/
theorem increments_step {a : Action n} (hstep : s.step params config a = some s') :
    s'.state.history.increments = s.state.history.increments ∨
      s'.state.history.increments = s.state.history.increments + 1 := by
  cases a with
  | worker w e =>
    obtain ⟨x, hx, rfl⟩ := Option.map_eq_some_iff.1 hstep
    exact (Worker.step_moves hx).increments
  | session e =>
    obtain ⟨x, hx, rfl⟩ := Option.map_eq_some_iff.1 hstep
    exact (Runner.step_moves hx).increments
  | reporter bits =>
    obtain ⟨x, hx, rfl⟩ := Option.map_eq_some_iff.1 hstep
    rw [Reporter.step_state hx]
    exact .inl rfl

theorem Swept.step {a : Action n} (h : s.Swept params config) (horderly : s.Orderly params config a)
    (hstep : s.step params config a = some s') : s'.Swept params config where
  reachable := h.reachable.tail hstep
  session := by
    cases a with
    | worker w e =>
      obtain ⟨x, hx, rfl⟩ := Option.map_eq_some_iff.1 hstep
      exact (Worker.step_moves hx).sweptAlike.swept h.session
    | session e =>
      obtain ⟨x, hx, rfl⟩ := Option.map_eq_some_iff.1 hstep
      exact (Runner.step_moves hx).swept h.attached (loginWritten horderly) h.session
    | reporter bits =>
      obtain ⟨x, hx, rfl⟩ := Option.map_eq_some_iff.1 hstep
      have halike : s.state.SweptAlike x.1 := by
        rw [Reporter.step_state hx]
        exact ⟨id, rfl, rfl, rfl, rfl, rfl⟩
      exact halike.swept h.session
  increments := by
    have hmax : s.state.generation.toNat ≠ 2 ^ 64 - 1 := by
      intro hmax
      exact horderly.generation (UInt64.toNat_inj.1 hmax)
    have hgeneration := h.generation
    have hincrements := h.increments
    rcases increments_step hstep with hsame | hnext
    · omega
    · omega

/-- The increments since the state `t`: once the session thread rests, there has been one. -/
structure Outlives (t s : System n) : Prop where
  le : t.state.history.increments ≤ s.state.history.increments
  lt : s.runner.session.resting = true →
    t.state.history.increments < s.state.history.increments

theorem Outlives.step {a : Action n} (h : t.Outlives s) (hswept : s.Swept params config)
    (horderly : s.Orderly params config a) (hstep : s.step params config a = some s') :
    t.Outlives s' := by
  have hincrements := increments_step hstep
  have hle := h.le
  refine ⟨by omega, fun hresting => ?_⟩
  by_cases hrest : s.runner.session.resting = true
  · have hlt := h.lt hrest
    omega
  · cases a with
    | session e =>
      obtain ⟨x, hx, rfl⟩ := Option.map_eq_some_iff.1 hstep
      have hpublished := (Runner.step_moves hx).increments_of_resting hswept.attached
        (Swept.loginWritten horderly) (Bool.eq_false_iff.2 hrest) hresting
      change t.state.history.increments < x.1.history.increments
      omega
    | worker w e =>
      obtain ⟨x, hx, rfl⟩ := Option.map_eq_some_iff.1 hstep
      exact absurd hresting hrest
    | reporter bits =>
      obtain ⟨x, hx, rfl⟩ := Option.map_eq_some_iff.1 hstep
      exact absurd hresting hrest

/-- What a session that has returned leaves behind, after the run `as`. -/
structure LeavesNoWork (params : Params) (config : Config) (as : List (Action n)) (s : System n) :
    Prop where
  cleared : s.state.Cleared config
  generation : ∀ bs cs t, as = bs ++ cs → run params config (System.init n config) bs = some t →
    t.state.job ≠ none → t.state.generation < s.state.generation

theorem sessions_leave_no_work {as : List (Action n)} {error : IoError}
    (horderly : Runs.StepsSatisfy (step params config) (Orderly params config)
      (System.init n config) as)
    (hrun : run params config (System.init n config) as = some s)
    (hended : s.runner.session = .ended error) : s.LeavesNoWork params config as := by
  have hswept : s.Swept params config := horderly.run (fun _ _ _ => Swept.step) Swept.init hrun
  have hresting : s.runner.session.resting = true := by
    rw [hended]
    rfl
  refine ⟨hswept.session.cleared hresting, ?_⟩
  rintro bs cs t rfl hbefore hjob
  obtain ⟨hfirst, hrest⟩ := horderly.append hbefore
  have hthen : run params config t cs = some s := by
    obtain ⟨t', hbs, hcs⟩ := Runs.run_prefix hrun
    cases hbefore.symm.trans hbs
    exact hcs
  have hstart : t.Swept params config :=
    hfirst.run (fun _ _ _ => Swept.step) Swept.init hbefore
  -- a session at rest has left the slot empty
  have hworking : t.runner.session.resting ≠ true := by
    intro hrest
    exact hjob (hstart.session.cleared hrest).job
  have hstep : ∀ ⦃u a u'⦄, u.Swept params config ∧ t.Outlives u → u.Orderly params config a →
      step params config u a = some u' → u'.Swept params config ∧ t.Outlives u' := by
    rintro u a u' ⟨hu, houtlives⟩ hcond hmove
    exact ⟨hu.step hcond hmove, houtlives.step hu hcond hmove⟩
  have houtlives : t.Outlives s :=
    (hrest.run hstep ⟨hstart, le_rfl, fun hrest => absurd hrest hworking⟩ hthen).2
  apply UInt64.lt_iff_toNat_lt.2
  rw [hstart.generation, hswept.generation]
  exact houtlives.lt hresting

/-- The pool closes the connection. -/
def closePool {n : ℕ} : List (Action n) :=
  [.session (.message (.ok none) (.ok (0, 0))), .session .tick, .session .tick, .session .tick,
    .session .tick]

theorem sessions_leave_no_work_closePool : ∃ s : System 1,
    run plainParams poolConfig (System.init 1 poolConfig) (openPool "a" ++ closePool) = some s ∧
    s.state.generation = 2 ∧ s.LeavesNoWork plainParams poolConfig (openPool "a" ++ closePool) := by
  have hsome : ((run plainParams poolConfig (System.init 1 poolConfig)
      (openPool "a" ++ closePool)).map fun s => s.state.generation) = some 2 := by decide
  obtain ⟨s, hrun, hgeneration⟩ := Option.map_eq_some_iff.1 hsome
  have hended : ((run plainParams poolConfig (System.init 1 poolConfig)
      (openPool "a" ++ closePool)).map fun s => s.runner.session) = some
        (.ended connectionClosed) :=
    rfl
  rw [hrun] at hended
  exact ⟨s, hrun, hgeneration,
    sessions_leave_no_work (by decide) hrun (Option.some.inj hended)⟩

/-- The login is refused by the socket, and the connection stays installed. -/
theorem connection_left_by_login : ∃ s : System 1,
    run plainParams poolConfig (System.init 1 poolConfig) [.session .tick,
      .session (.socket (.ok ())), .session (.socket (.ok ())), .session .tick,
      .session (.socket (.error connectionClosed))] = some s ∧
    s.runner.session = .ended connectionClosed ∧ s.state.connection = some 0 ∧
    ¬ s.LeavesNoWork plainParams poolConfig [.session .tick, .session (.socket (.ok ())),
      .session (.socket (.ok ())), .session .tick, .session (.socket (.error connectionClosed))] :=
  ⟨_, rfl, rfl, rfl, fun h => nomatch h.cleared.connection⟩

end System
end XusMiner.Engine

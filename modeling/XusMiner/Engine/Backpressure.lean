import XusMiner.Engine.Connections

namespace XusMiner.Engine
open ByteCodec

/-- How many of some submits or replies are on connection `c`. -/
def onConnection (c : ℕ) (submits : List (ℕ × UInt64)) : ℕ := submits.countP fun x => x.1 = c

theorem onConnection_append (c : ℕ) (submits submits' : List (ℕ × UInt64)) :
    onConnection c (submits ++ submits') = onConnection c submits + onConnection c submits' :=
  List.countP_append

@[simp] theorem onConnection_singleton (c a : ℕ) (id : UInt64) :
    onConnection c [(a, id)] = if a = c then 1 else 0 := by
  simp [onConnection, List.countP_singleton]

/-- The connection on which a worker holds a slot: it has yet to write its submit, or to give the
slot back after a failed write. -/
def Pc.slot : Pc → Option ℕ
  | .write c .. | .writeFailed c => some c
  | _ => none

/-- The reply whose slot is about to be given back. -/
def Session.returning : Session → List (ℕ × UInt64)
  | .finishShare c id _ => [(c, id)]
  | _ => []

/-- The slots of each connection are those workers hold and those of submits without a reply. -/
structure Ledger (s : State) (session : Session) (holding : ℕ → ℕ) : Prop where
  balance : ∀ (c : ℕ) (connection : Connection), s.connections[c]? = some connection →
    connection.pending.toNat + onConnection c s.history.replies =
      holding c + onConnection c s.history.submits + onConnection c session.returning
  bounded : ∀ (c : ℕ) (connection : Connection), s.connections[c]? = some connection →
    connection.pending ≤ connection.maxPending
  holding : ∀ c, s.connections.length ≤ c → holding c = 0
  submits : ∀ x ∈ s.history.submits, x.1 < s.connections.length
  returning : ∀ x ∈ session.returning, x.1 < s.connections.length
  answered : s.history.replies.Subperm s.history.submits

theorem Connection.reserveShare_eq_some {connection connection' : Connection}
    (h : connection.reserveShare = some connection') :
    connection'.maxPending = connection.maxPending ∧
      connection'.pending ≤ connection'.maxPending ∧
      connection'.pending.toNat = connection.pending.toNat + 1 := by
  unfold reserveShare at h
  split_ifs at h with hroom
  cases h
  have hlt : connection.pending.toNat < connection.maxPending.toNat := hroom
  have hmax := connection.maxPending.toNat_lt
  have hone : (1 : UInt64).toNat = 1 := rfl
  have hnext : (connection.pending + 1).toNat = connection.pending.toNat + 1 := by
    rw [UInt64.toNat_add]
    omega
  refine ⟨rfl, UInt64.le_iff_toNat_le.2 ?_, hnext⟩
  simp only
  omega

theorem Connection.pending_finishShare {connection : Connection}
    (h : 0 < connection.pending.toNat) :
    connection.finishShare.pending.toNat + 1 = connection.pending.toNat := by
  have hle : (1 : UInt64) ≤ connection.pending := UInt64.le_iff_toNat_le.2 h
  rw [finishShare, saturatingSub, if_pos hle]
  have hone : (1 : UInt64).toNat = 1 := rfl
  rw [UInt64.toNat_sub_of_le _ _ hle]
  omega

namespace Ledger
variable {s s' : State} {session session' : Session} {holding holding' : ℕ → ℕ} {c : ℕ}
  {id : UInt64}

theorem init (jsonEvents : Bool) : Ledger { jsonEvents } .sleeping fun _ => 0 where
  balance _ _ h := nomatch h
  bounded _ _ h := nomatch h
  holding _ _ := rfl
  submits _ h := nomatch h
  returning _ h := nomatch h
  answered := List.Subperm.refl _

theorem quiet (h : Ledger s session holding) (hconnections : s'.connections = s.connections)
    (hreplies : s'.history.replies = s.history.replies)
    (hsubmits : s'.history.submits = s.history.submits)
    (hreturning : session'.returning = session.returning) : Ledger s' session' holding := by
  refine ⟨?_, ?_, ?_, ?_, ?_, ?_⟩
  · rw [hconnections, hreplies, hsubmits, hreturning]
    exact h.balance
  · rw [hconnections]
    exact h.bounded
  · rw [hconnections]
    exact h.holding
  · rw [hconnections, hsubmits]
    exact h.submits
  · rw [hconnections, hreturning]
    exact h.returning
  · rw [hreplies, hsubmits]
    exact h.answered

/-- A connection changes together with the slots on it. -/
theorem update (h : Ledger s session holding) {f : Connection → Connection}
    (hupdate : ∀ connection, s.connections[c]? = some connection →
      connection.pending.toNat + onConnection c s.history.replies =
        holding c + onConnection c s.history.submits + onConnection c session.returning →
      (f connection).pending.toNat + onConnection c s.history.replies =
        holding' c + onConnection c s.history.submits + onConnection c session'.returning ∧
      (f connection).pending ≤ (f connection).maxPending)
    (hothers : ∀ c', c' ≠ c → holding' c' + onConnection c' session'.returning =
      holding c' + onConnection c' session.returning)
    (hholding : ∀ c', s.connections.length ≤ c' → holding' c' = 0)
    (hreturning : ∀ x ∈ session'.returning, x.1 < s.connections.length) :
    Ledger (s.updateConnection c f) session' holding' := by
  have hlength : (s.updateConnection c f).connections.length = s.connections.length :=
    List.length_modify ..
  have hget : ∀ c' connection, (s.updateConnection c f).connections[c']? = some connection →
      (c' = c ∧ ∃ old, s.connections[c]? = some old ∧ f old = connection) ∨
        c' ≠ c ∧ s.connections[c']? = some connection := by
    intro c' connection hconnection
    simp only [State.updateConnection, List.getElem?_modify] at hconnection
    by_cases hc : c = c'
    · subst hc
      left
      simpa using hconnection
    · right
      exact ⟨Ne.symm hc, by simpa [hc] using hconnection⟩
  refine ⟨?_, ?_, ?_, ?_, ?_, h.answered⟩
  · intro c' connection hconnection
    rcases hget c' connection hconnection with ⟨rfl, old, hold, rfl⟩ | ⟨hc, hold⟩
    · exact (hupdate old hold (h.balance _ old hold)).1
    · have hbalance := h.balance c' connection hold
      have hother := hothers c' hc
      change connection.pending.toNat + onConnection c' s.history.replies =
        holding' c' + onConnection c' s.history.submits + onConnection c' session'.returning
      omega
  · intro c' connection hconnection
    rcases hget c' connection hconnection with ⟨rfl, old, hold, rfl⟩ | ⟨hc, hold⟩
    · exact (hupdate old hold (h.balance _ old hold)).2
    · exact h.bounded c' connection hold
  · rw [hlength]
    exact hholding
  · rw [hlength]
    exact h.submits
  · rw [hlength]
    exact hreturning

theorem replies_le (h : Ledger s session holding) (c : ℕ) :
    onConnection c s.history.replies ≤ onConnection c s.history.submits :=
  h.answered.countP_le _

theorem opened (h : Ledger s session holding) (hc : 0 < holding c) : c < s.connections.length := by
  by_contra hlength
  have hnone := h.holding c (not_lt.1 hlength)
  omega

/-- A slot that is held is counted, so that giving it back cannot saturate. -/
theorem pending_pos (h : Ledger s session holding) {connection : Connection}
    (hconnection : s.connections[c]? = some connection)
    (hheld : 0 < holding c + onConnection c session.returning) : 0 < connection.pending.toNat := by
  have hbalance := h.balance c connection hconnection
  have hle := h.replies_le c
  omega

theorem giveBack (h : Ledger s session holding)
    (hslots : ∀ c', holding' c' + onConnection c' session'.returning + (if c = c' then 1 else 0) =
      holding c' + onConnection c' session.returning)
    (hreturning : ∀ x ∈ session'.returning, x.1 < s.connections.length) :
    Ledger (s.updateConnection c Connection.finishShare) session' holding' := by
  have hc := hslots c
  rw [if_pos rfl] at hc
  apply h.update _ _ _ hreturning
  · intro connection hconnection hbalance
    -- `saturating_sub` takes one off: the slot that comes back is counted
    have hpos := h.pending_pos hconnection (by omega)
    have hpending := Connection.pending_finishShare hpos
    have hbounded := UInt64.le_iff_toNat_le.1 (h.bounded c connection hconnection)
    refine ⟨by omega, UInt64.le_iff_toNat_le.2 ?_⟩
    change connection.finishShare.pending.toNat ≤ connection.maxPending.toNat
    omega
  · intro c' hne
    have hother := hslots c'
    rwa [if_neg (Ne.symm hne)] at hother
  · intro c' hlength
    have hother := hslots c'
    have hnone := h.holding c' hlength
    have hreturning : onConnection c' session.returning = 0 := by
      apply List.countP_eq_zero.2
      intro x hx hxc
      have hopened := h.returning x hx
      have heq : x.1 = c' := by simpa using hxc
      omega
    omega

theorem reserve (h : Ledger s session holding) {connection : Connection}
    (hreserve : s.connections[c]?.bind Connection.reserveShare = some connection)
    (hholding : ∀ c', holding' c' = holding c' + if c = c' then 1 else 0) :
    Ledger (s.updateConnection c fun _ => connection) session holding' := by
  obtain ⟨old, hold, hreserved⟩ := Option.bind_eq_some_iff.1 hreserve
  obtain ⟨-, hbounded, hpending⟩ := Connection.reserveShare_eq_some hreserved
  have hc := hholding c
  rw [if_pos rfl] at hc
  apply h.update _ _ _ h.returning
  · intro connection' hconnection' hbalance
    cases hold.symm.trans hconnection'
    exact ⟨by omega, hbounded⟩
  · intro c' hne
    rw [hholding c', if_neg (Ne.symm hne)]
    rfl
  · intro c' hlength
    have hlt := (List.getElem?_eq_some_iff.1 hold).1
    rw [hholding c', h.holding c' hlength, if_neg (by omega)]

/-- The slot a worker held is now that of its submit. -/
theorem written (h : Ledger s session holding) {sent : Sent}
    (hholding : ∀ c', holding' c' + (if sent.connection = c' then 1 else 0) = holding c') :
    Ledger { s with history := { s.history with sent := s.history.sent ++ [sent] } } session
      holding' := by
  have hsubmits : ({ s.history with sent := s.history.sent ++ [sent] } : History).submits =
      s.history.submits ++ [(sent.connection, sent.id)] := by
    simp [History.submits]
  have hc := hholding sent.connection
  rw [if_pos rfl] at hc
  refine ⟨?_, h.bounded, ?_, ?_, h.returning, ?_⟩
  · intro c' connection hconnection
    have hbalance := h.balance c' connection hconnection
    have hother := hholding c'
    rw [hsubmits, onConnection_append, onConnection_singleton]
    change connection.pending.toNat + onConnection c' s.history.replies = _
    omega
  · intro c' hlength
    have hnone := h.holding c' hlength
    have hother := hholding c'
    omega
  · intro x hx
    rw [hsubmits] at hx
    rcases List.mem_append.1 hx with hold | hnew
    · exact h.submits x hold
    · cases List.mem_singleton.1 hnew
      exact h.opened (c := sent.connection) (by omega)
  · rw [hsubmits]
    exact h.answered.trans (List.sublist_append_left _ _).subperm

theorem reply (h : Ledger s session holding) (hreturning : session.returning = [])
    (hopened : c < s.connections.length) (accepted : Bool)
    (hanswered : (s.history.replies ++ [(c, id)]).Subperm s.history.submits) :
    Ledger { s with history := { s.history with replies := s.history.replies ++ [(c, id)] } }
      (.finishShare c id accepted) holding := by
  refine ⟨?_, h.bounded, h.holding, h.submits, ?_, hanswered⟩
  · intro c' connection hconnection
    have hbalance := h.balance c' connection hconnection
    rw [hreturning] at hbalance
    change connection.pending.toNat + onConnection c' (s.history.replies ++ [(c, id)]) =
      holding c' + onConnection c' s.history.submits + onConnection c' [(c, id)]
    rw [onConnection_append]
    have hnone : onConnection c' [] = 0 := rfl
    omega
  · intro x hx
    cases List.mem_singleton.1 hx
    exact hopened

/-- Nothing is on a connection that was not there. -/
theorem configured (h : Ledger s session holding) (maxPending : UInt64)
    (hreturning : session'.returning = session.returning) :
    Ledger { s with connections := s.connections ++ [{ maxPending }] } session' holding := by
  have hlength :
      ({ s with connections := s.connections ++ [{ maxPending }] } : State).connections.length
      = s.connections.length + 1 := List.length_append
  have hnone : ∀ {l : List (ℕ × UInt64)}, (∀ x ∈ l, x.1 < s.connections.length) →
      onConnection s.connections.length l = 0 := by
    intro l hl
    apply List.countP_eq_zero.2
    intro x hx hxc
    have heq : x.1 = s.connections.length := by simpa using hxc
    exact absurd (hl x hx) (by omega)
  have hget : ∀ c connection,
      (s.connections ++ [({ maxPending } : Connection)])[c]? = some connection →
      s.connections[c]? = some connection ∨
        c = s.connections.length ∧ connection = { maxPending } := by
    intro c connection hconnection
    by_cases hc : c < s.connections.length
    · rw [List.getElem?_append_left hc] at hconnection
      exact .inl hconnection
    · rw [List.getElem?_append_right (not_lt.1 hc), List.getElem?_singleton] at hconnection
      split_ifs at hconnection with hzero
      exact .inr ⟨by omega, (Option.some_inj.1 hconnection).symm⟩
  refine ⟨?_, ?_, ?_, ?_, ?_, h.answered⟩
  -- the new connection has no slot, no submit and no reply yet
  · intro c connection hconnection
    rw [hreturning]
    rcases hget c connection hconnection with hold | ⟨rfl, rfl⟩
    · exact h.balance c connection hold
    · have hreplies := h.replies_le s.connections.length
      have hsubmits := hnone h.submits
      have hholding := h.holding _ le_rfl
      have hreturning := hnone h.returning
      change 0 + onConnection s.connections.length s.history.replies =
        holding s.connections.length + onConnection s.connections.length s.history.submits + _
      omega
  · intro c connection hconnection
    rcases hget c connection hconnection with hold | ⟨rfl, rfl⟩
    · exact h.bounded c connection hold
    · exact UInt64.le_iff_toNat_le.2 (Nat.zero_le _)
  · intro c hc
    exact h.holding c (by omega)
  · intro x hx
    exact (h.submits x hx).trans_le (by omega)
  · rw [hreturning]
    intro x hx
    exact (h.returning x hx).trans_le (by omega)

theorem worker {params : Params} {w : ℕ} {locks : Locks} {wk wk' : Worker}
    (hmove : Worker.Move params w locks s wk s' wk') (h : Ledger s session holding)
    (hholding : ∀ c, holding' c + (if wk.pc.slot = some c then 1 else 0) =
      holding c + if wk'.pc.slot = some c then 1 else 0) : Ledger s' session holding' := by
  have hquiet : ∀ {s' : State}, wk'.pc.slot = wk.pc.slot → s'.connections = s.connections →
      s'.history.replies = s.history.replies → s'.history.submits = s.history.submits →
      Ledger s' session holding' := by
    intro s' hslot hconnections hreplies hsubmits
    -- no slot changes hands
    have hsame : holding' = holding := by
      funext c
      have hc := hholding c
      rw [hslot] at hc
      omega
    rw [hsame]
    exact h.quiet hconnections hreplies hsubmits rfl
  cases hmove with
  | @reserve c id message connection hpc hreserve =>
    apply h.reserve hreserve
    intro c'
    have hc := hholding c'
    simpa [hpc, Pc.slot] using hc
  | @write arc c id message hpc =>
    apply h.written
    intro c'
    have hc := hholding c'
    simpa [hpc, Pc.slot] using hc
  | writeError hpc => exact hquiet (by rw [hpc]; rfl) rfl rfl rfl
  | @writeFailed c hpc =>
    apply h.giveBack _ h.returning
    intro c'
    have hc := hholding c'
    rw [hpc] at hc
    simp only [Pc.slot, Option.some_inj, Worker.advance] at hc
    simp at hc
    omega
  | current hpc =>
    refine hquiet ?_ rfl rfl rfl
    rcases Worker.pc_enterBatch wk with hnext | hnext
    · rw [hpc, hnext]
    · rw [hpc, hnext]
      rfl
  | @readJob increments hpc =>
    refine hquiet ?_ rfl rfl rfl
    rcases Worker.pc_readJob wk w s increments with hnext | hnext <;> rw [hpc, hnext] <;> rfl
  | @submitBlock arc reply hpc =>
    refine hquiet ?_ rfl rfl rfl
    rcases Worker.pc_submitBlock params w s wk arc reply with hnext | hnext <;>
      rw [hpc, hnext] <;> rfl
  | emitShare hpc =>
    rw [State.emit_eq]
    exact hquiet (by rw [hpc]; rfl) rfl rfl rfl
  | recordRound hpc =>
    rw [State.recordRoundHashes_eq]
    exact hquiet (by rw [hpc]; rfl) rfl rfl rfl
  | loadGeneration hpc | splice hpc | leaveBatch hpc | powReady hpc | powError hpc | panic hpc
  | solved hpc | unsolved hpc | direct hpc | pool hpc | countSubmission hpc | countAccepted hpc
  | recordSealed hpc | loadSubmitted hpc | loadAccepted hpc | loadRejected hpc | clearJob hpc
  | keepJob hpc | clearGeneration hpc | emitCleared hpc | countRejected hpc | nextRequest hpc
  | readConnection hpc | noConnection hpc | full hpc | countSubmitted hpc | addIntervalHashes hpc
  | addTotalHashes hpc => exact hquiet (by rw [hpc]; rfl) rfl rfl rfl

theorem runner {params : Params} {config : Config} {workers : ℕ} {guards : Guards} {r r' : Runner}
    {e : SessionEvent} (hmove : Runner.Move params config workers guards s r e s' r')
    (h : Ledger s r.session holding)
    (hopened : ∀ c, r.session = .working (.pool c) → c < s.connections.length)
    (hanswered : s'.history.replies.Subperm s'.history.submits) : Ledger s' r'.session holding := by
  have hat : ∀ {session}, r.session = session → Ledger s session holding := fun hpc => hpc ▸ h
  cases hmove with
  | @share c id accepted _ _ hpc => exact (hat hpc).reply rfl (hopened c hpc) accepted hanswered
  | finishShare hpc =>
    apply (hat hpc).giveBack
    · intro c'
      rw [Session.returning, onConnection_singleton]
      rfl
    · exact fun _ hx => nomatch hx
  | configured hpc => exact (hat hpc).configured _ rfl
  | ignore => exact h
  | wake hpc =>
    split_ifs
    · exact (hat hpc).quiet rfl rfl rfl rfl
    · exact (hat hpc).quiet rfl rfl rfl rfl
  | installRound hpc =>
    rw [State.installRound_eq]
    exact (hat hpc).quiet rfl rfl rfl rfl
  | installCoinbase hpc =>
    rw [State.installCoinbase_eq]
    exact (hat hpc).quiet rfl rfl rfl rfl
  | @installGeneration role _ hpc =>
    cases role with
    | pool c => exact (hat hpc).quiet rfl rfl rfl rfl
    | direct d => exact (hat hpc).quiet rfl rfl rfl rfl
  | emitShare hpc =>
    rw [State.emit_eq]
    exact (hat hpc).quiet rfl rfl rfl rfl
  | noConnection hpc | poolError hpc =>
    rcases hpc with hpc | hpc
    · exact (hat hpc).quiet rfl rfl rfl rfl
    · exact (hat hpc).quiet rfl rfl rfl rfl
  | directError hpc =>
    rcases hpc with hpc | ⟨height, hpc⟩
    · exact (hat hpc).quiet rfl rfl rfl rfl
    · exact (hat hpc).quiet rfl rfl rfl rfl
  | connected hpc | openConnection hpc | login hpc | loginError hpc | writeEndpoint hpc
  | timeout hpc | keepalive hpc | poolJob hpc | health hpc | keepTemplate hpc | directJob hpc
  | installSlot hpc | enrich hpc | countShare hpc | loadSubmitted hpc | loadAccepted hpc
  | loadRejected hpc | closePool hpc | closeOther hpc | closeDirect hpc | clearJob hpc
  | clearCoinbase hpc | clearGeneration hpc | forgetCoinbase hpc | forgetMempool hpc
  | forgetPeers hpc | dropJob hpc | dropGeneration hpc | ended hpc =>
    exact (hat hpc).quiet rfl rfl rfl rfl

end Ledger

namespace System
variable {n : ℕ} {params : Params} {config : Config} {s s' : System n}

/-- How many workers hold a slot of connection `c`. -/
def holding (s : System n) (c : ℕ) : ℕ :=
  (Finset.univ.filter fun w => (s.workers w).pc.slot = some c).card

/-- The submits on connection `c` that were written in full and have no reply yet. -/
def unanswered (s : System n) (c : ℕ) : List (ℕ × UInt64) :=
  (s.state.history.submits.diff s.state.history.replies).filter fun x => x.1 = c

structure Metered (params : Params) (config : Config) (s : System n) : Prop where
  reachable : s.Reachable params config
  ledger : Ledger s.state s.runner.session s.holding

theorem Metered.init : (System.init n config).Metered params config where
  reachable := .refl _
  ledger := by
    have hnone : (System.init n config).holding = fun _ => 0 := by
      funext c
      simp [holding, System.init, Worker.start, Pc.slot]
    rw [hnone]
    exact .init _

theorem Metered.step {a : Action n} (h : s.Metered params config) (hpool : s.Answers params a)
    (hstep : s.step params config a = some s') : s'.Metered params config := by
  have hreach : s'.Reachable params config := h.reachable.tail hstep
  have hanswered := answered_step h.ledger.answered hpool hstep
  cases a with
  | worker w e =>
    obtain ⟨x, hx, rfl⟩ := Option.map_eq_some_iff.1 hstep
    refine ⟨hreach, h.ledger.worker (Worker.step_moves hx) fun c => ?_⟩
    exact Counting.card_filter_update s.workers w x.2 fun wk => wk.pc.slot = some c
  | session e =>
    obtain ⟨x, hx, rfl⟩ := Option.map_eq_some_iff.1 hstep
    refine ⟨hreach, h.ledger.runner (Runner.step_moves hx) ?_ hanswered⟩
    intro c hpc
    obtain ⟨-, -, hlength⟩ := (attached h.reachable).stageAt hpc rfl
    omega
  | reporter bits =>
    obtain ⟨x, hx, rfl⟩ := Option.map_eq_some_iff.1 hstep
    refine ⟨hreach, ?_⟩
    rw [Reporter.step_state hx]
    exact h.ledger.quiet rfl rfl rfl rfl

theorem length_unanswered (h : s.Metered params config) (c : ℕ) :
    (s.unanswered c).length = onConnection c s.state.history.submits -
      onConnection c s.state.history.replies := by
  rw [unanswered, ← List.countP_eq_length_filter, List.countP_diff h.ledger.answered]
  rfl

/-- The slots of a connection: those of workers that have yet to write or that give back the slot
of a failed write, those of submits without a reply, and that of the reply being handled. The
last two kinds to be given back are counted, so that giving back never saturates. -/
structure Backpressure (s : System n) : Prop where
  bounded : ∀ (c : ℕ) (connection : Connection), s.state.connections[c]? = some connection →
    (s.unanswered c).length ≤ connection.maxPending.toNat
  pending : ∀ (c : ℕ) (connection : Connection), s.state.connections[c]? = some connection →
    connection.pending.toNat = s.holding c + (s.unanswered c).length +
      onConnection c s.runner.session.returning
  failed : ∀ w c, (s.workers w).pc = .writeFailed c → ∃ connection,
    s.state.connections[c]? = some connection ∧ 0 < connection.pending
  answered : ∀ c id accepted, s.runner.session = .finishShare c id accepted → ∃ connection,
    s.state.connections[c]? = some connection ∧ 0 < connection.pending

theorem shares_are_bounded {as : List (Action n)}
    (hpool : Runs.StepsSatisfy (step params config) (Answers params) (System.init n config) as)
    (hrun : run params config (System.init n config) as = some s) : s.Backpressure := by
  have hmetered : s.Metered params config :=
    hpool.run (fun _ _ _ => Metered.step) Metered.init hrun
  have hledger := hmetered.ledger
  have hpending : ∀ (c : ℕ) (connection : Connection), s.state.connections[c]? = some connection →
      connection.pending.toNat = s.holding c + (s.unanswered c).length +
        onConnection c s.runner.session.returning := by
    intro c connection hconnection
    have hbalance := hledger.balance c connection hconnection
    have hle := hledger.replies_le c
    rw [length_unanswered hmetered c]
    omega
  refine ⟨?_, hpending, ?_, ?_⟩
  · intro c connection hconnection
    have hbounded := UInt64.le_iff_toNat_le.1 (hledger.bounded c connection hconnection)
    have hequal := hpending c connection hconnection
    omega
  · intro w c hpc
    have hheld : 0 < s.holding c := by
      apply Finset.card_pos.2
      exact ⟨w, Finset.mem_filter.2 ⟨Finset.mem_univ w, by rw [hpc]; rfl⟩⟩
    have hopened := hledger.opened hheld
    refine ⟨s.state.connections[c], List.getElem?_eq_getElem hopened, ?_⟩
    exact UInt64.lt_iff_toNat_lt.2 (hledger.pending_pos (List.getElem?_eq_getElem hopened)
      (by omega))
  · intro c id accepted hpc
    have hreturning : s.runner.session.returning = [(c, id)] := by rw [hpc]; rfl
    have hopened := hledger.returning (c, id) (by rw [hreturning]; exact List.mem_singleton_self _)
    refine ⟨s.state.connections[c], List.getElem?_eq_getElem hopened, ?_⟩
    exact UInt64.lt_iff_toNat_lt.2 (hledger.pending_pos (List.getElem?_eq_getElem hopened)
      (by rw [hreturning, onConnection_singleton, if_pos rfl]; omega))

/-- One share is written and waits for its reply. -/
theorem shares_are_bounded_oneShare : ∃ s : System 1,
    System.run plainParams poolConfig (System.init 1 poolConfig)
      (openPool "a" ++ solveShare 0 ++ writeShare 0) = some s ∧
    (s.unanswered 0).length = 1 ∧ s.Backpressure := by
  have hsome : ((System.run plainParams poolConfig (System.init 1 poolConfig)
      (openPool "a" ++ solveShare 0 ++ writeShare 0)).map
        fun s => (s.unanswered 0).length) = some 1 := by decide +kernel
  obtain ⟨s, hrun, hlength⟩ := Option.map_eq_some_iff.1 hsome
  exact ⟨s, hrun, hlength, shares_are_bounded (by decide) hrun⟩

end System
end XusMiner.Engine

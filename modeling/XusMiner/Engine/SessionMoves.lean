import XusMiner.Engine.WorkerMoves

namespace XusMiner.Engine
open ByteCodec

namespace Runner

/-- Everything a step of the session thread can do, branch by branch. -/
inductive Move (params : Params) (config : Config) (workers : ℕ) (guards : Guards) (s : State)
    (r : Runner) (e : SessionEvent) : State → Runner → Prop
  | wake {stdout : List Value} (hpc : r.session = .sleeping) (hquiet : Quiet s.stdout stdout) :
      Move params config workers guards s r e { s with stdout } { r with
        session := if isDirectRpc config.pool then .writeEndpoint else .connect }
  | connected {stdout : List Value} (hpc : r.session = .connect)
      (hquiet : Quiet s.stdout stdout) :
      Move params config workers guards s r e { s with stdout } { r with session := .configure }
  | configured (hpc : r.session = .configure) :
      Move params config workers guards s r e
        { s with connections := s.connections ++ [{ maxPending := UInt64.ofNat workers }] }
        { r with session := .openConnection s.connections.length }
  | noConnection {error : IoError} (hpc : r.session = .connect ∨ r.session = .configure) :
      Move params config workers guards s r e s { r with session := .ended error }
  | openConnection {c : ℕ} (hpc : r.session = .openConnection c)
      (hguard : guards.connection = false) :
      Move params config workers guards s r e { s with connection := some c }
        { r with session := .login c }
  | login {c : ℕ} (hpc : r.session = .login c) :
      Move params config workers guards s r e s { r with session := .working (.pool c) }
  | loginError {c : ℕ} {result : Except IoError Unit} {error : IoError}
      (hpc : r.session = .login c) (hevent : e = .socket result)
      (hwrite : writeJson params (loginRequest config) result = .error error) :
      Move params config workers guards s r e s { r with session := .ended error }
  | writeEndpoint (hpc : r.session = .writeEndpoint) (hguard : guards.endpoint = false) :
      Move params config workers guards s r e { s with rpcEndpoint := some config.pool }
        { r with session := .working (.direct {}) }
  | ignore {c : ℕ} (hpc : r.session = .working (.pool c)) :
      Move params config workers guards s r e s r
  | timeout {c : ℕ} (hpc : r.session = .working (.pool c)) :
      Move params config workers guards s r e s { r with session := .keepalive c }
  | keepalive {c : ℕ} (hpc : r.session = .keepalive c) :
      Move params config workers guards s r e s { r with session := .working (.pool c) }
  | poolError {c : ℕ} {error : IoError}
      (hpc : r.session = .working (.pool c) ∨ r.session = .keepalive c) :
      Move params config workers guards s r e s { r with session := .closing (.pool c) error }
  | poolJob {c : ℕ} {value : Value} {job : Job} {gate : RandomxMemoryGate}
      {scan : Except String (UInt64 × UInt64)} (hpc : r.session = .working (.pool c))
      (hjob : Job.fromStratum value = .ok job)
      (hgate : r.gate.ensureSafe params.gib job.algo scan = .ok gate) :
      Move params config workers guards s r e (s.receive job (some c)).2
        ⟨.installRound (.pool c) (s.receive job (some c)).1, gate⟩
  | share {c : ℕ} {id : UInt64} {accepted : Bool} {message : Value}
      {scan : Except String (UInt64 × UInt64)} (hpc : r.session = .working (.pool c))
      (hevent : e = .message (.ok (some message)) scan)
      (hmessage : readMessage params.float message = .ok (.share id accepted)) :
      Move params config workers guards s r e
        { s with history := { s.history with replies := s.history.replies ++ [(c, id)] } }
        { r with session := .finishShare c id accepted }
  | health {d : Direct} {height mempool : UInt64} {stdout : List Value}
      (hpc : r.session = .working (.direct d)) (hquiet : Quiet s.stdout stdout) :
      Move params config workers guards s r e
        { s with mempoolSize := mempool, mempoolKnown := true, stdout }
        { r with session := .template { d with announced := true } height }
  | directError {d : Direct} {error : IoError}
      (hpc : r.session = .working (.direct d) ∨ ∃ height, r.session = .template d height) :
      Move params config workers guards s r e s { r with session := .closing (.direct d) error }
  | keepTemplate {d : Direct} {height : UInt64} (hpc : r.session = .template d height) :
      Move params config workers guards s r e s { r with session := .working (.direct d) }
  | directJob {d : Direct} {height : UInt64} {value : Value} {job : Job}
      {gate : RandomxMemoryGate} {scan : Except String (UInt64 × UInt64)}
      (hpc : r.session = .template d height) (hjob : Job.fromRpc params.blake3 value = .ok job)
      (hcoinbase : validateRpcCoinbase (requestedCoinbase config.user) job = .ok ())
      (hgate : r.gate.ensureSafe params.gib job.algo scan = .ok gate) :
      Move params config workers guards s r e (s.receive job none).2
        ⟨.installRound (.direct { d with previousId := job.id, chainHeight := some height })
          (s.receive job none).1, gate⟩
  | installRound {role : Role} {arc : ArcJob} (hpc : r.session = .installRound role arc) :
      Move params config workers guards s r e (s.installRound arc.job)
        { r with session := .installCoinbase role arc }
  | installCoinbase {role : Role} {arc : ArcJob} (hpc : r.session = .installCoinbase role arc) :
      Move params config workers guards s r e (s.installCoinbase arc.job)
        { r with session := .installSlot role arc }
  | installSlot {role : Role} {arc : ArcJob} {stdout : List Value}
      (hpc : r.session = .installSlot role arc) (hguard : guards.job = false)
      (hquiet : Quiet s.stdout stdout) :
      Move params config workers guards s r e { s with job := some arc, stdout }
        { r with session := .installGeneration role s.job }
  | installGeneration {role : Role} {old : Option ArcJob}
      (hpc : r.session = .installGeneration role old) :
      Move params config workers guards s r e (s.publish old) { r with session := resume role }
  | enrich {d : Direct} {peerCount mempoolSize : UInt64} {peersKnown mempoolKnown : Bool}
      {stdout : List Value} (hpc : r.session = .enrich d) (hquiet : Quiet s.stdout stdout) :
      Move params config workers guards s r e
        { s with peerCount, peersKnown, mempoolSize, mempoolKnown, stdout }
        { r with session := .working (.direct d) }
  | finishShare {c : ℕ} {id : UInt64} {accepted : Bool}
      (hpc : r.session = .finishShare c id accepted) :
      Move params config workers guards s r e (s.updateConnection c Connection.finishShare)
        { r with session := .countShare c id accepted }
  | countShare {c : ℕ} {id : UInt64} {accepted : Bool}
    (hpc : r.session = .countShare c id accepted) :
      Move params config workers guards s r e (s.countShare c id accepted)
        { r with session := .loadSubmitted c }
  | loadSubmitted {c : ℕ} (hpc : r.session = .loadSubmitted c) :
      Move params config workers guards s r e s { r with session := .loadAccepted c s.submitted }
  | loadAccepted {c : ℕ} {submitted : UInt64} (hpc : r.session = .loadAccepted c submitted) :
      Move params config workers guards s r e s
        { r with session := .loadRejected c submitted s.accepted }
  | loadRejected {c : ℕ} {submitted accepted : UInt64}
      (hpc : r.session = .loadRejected c submitted accepted) :
      Move params config workers guards s r e s
        { r with session := .emitShare c submitted accepted s.rejected }
  | emitShare {c : ℕ} {submitted accepted rejected : UInt64}
      (hpc : r.session = .emitShare c submitted accepted rejected) :
      Move params config workers guards s r e (s.emit (shareEvent submitted accepted rejected))
        { r with session := .working (.pool c) }
  | closePool {c : ℕ} {error : IoError} (hpc : r.session = .closing (.pool c) error)
      (hguard : guards.connection = false) (hconnection : s.connection = some c) :
      Move params config workers guards s r e { s with connection := none }
        { r with session := .clearJob error }
  | closeOther {c : ℕ} {error : IoError} (hpc : r.session = .closing (.pool c) error)
      (hconnection : s.connection ≠ some c) :
      Move params config workers guards s r e s { r with session := .ended error }
  | closeDirect {d : Direct} {error : IoError} (hpc : r.session = .closing (.direct d) error)
      (hguard : guards.endpoint = false) :
      Move params config workers guards s r e { s with rpcEndpoint := none }
        { r with session := .forgetCoinbase error }
  | clearJob {error : IoError} (hpc : r.session = .clearJob error) (hguard : guards.job = false) :
      Move params config workers guards s r e { s with job := none }
        { r with session := .clearCoinbase error s.job }
  | clearCoinbase {error : IoError} {old : Option ArcJob}
      (hpc : r.session = .clearCoinbase error old) :
      Move params config workers guards s r e { s with confirmedCoinbase := none }
        { r with session := .clearGeneration error old }
  | clearGeneration {error : IoError} {old : Option ArcJob}
      (hpc : r.session = .clearGeneration error old) :
      Move params config workers guards s r e (s.publish old) { r with session := .ended error }
  | forgetCoinbase {error : IoError} (hpc : r.session = .forgetCoinbase error) :
      Move params config workers guards s r e { s with confirmedCoinbase := none }
        { r with session := .forgetMempool error }
  | forgetMempool {error : IoError} (hpc : r.session = .forgetMempool error) :
      Move params config workers guards s r e { s with mempoolKnown := false }
        { r with session := .forgetPeers error }
  | forgetPeers {error : IoError} (hpc : r.session = .forgetPeers error) :
      Move params config workers guards s r e { s with peersKnown := false }
        { r with session := .dropJob error }
  | dropJob {error : IoError} (hpc : r.session = .dropJob error) (hguard : guards.job = false) :
      Move params config workers guards s r e { s with job := none }
        { r with session := .dropGeneration error s.job }
  | dropGeneration {error : IoError} {old : Option ArcJob}
      (hpc : r.session = .dropGeneration error old) :
      Move params config workers guards s r e (s.publish old) { r with session := .ended error }
  | ended {error : IoError} {stdout : List Value} (hpc : r.session = .ended error)
      (hquiet : Quiet s.stdout stdout) :
      Move params config workers guards s r e { s with stdout } { r with session := .sleeping }

variable {params : Params} {config : Config} {workers : ℕ} {guards : Guards} {s : State}
  {r : Runner} {e : SessionEvent} {x : State × Runner}

theorem moves_message {c : ℕ} (hpc : r.session = .working (.pool c))
    (result : Except IoError (Option Value)) (scan : Except String (UInt64 × UInt64)) :
    Move params config workers guards s r (.message result scan)
      (r.message params s c result scan).1
      (r.message params s c result scan).2 := by
  unfold message
  split
  · exact .poolError (.inl hpc)
  · split_ifs
    · exact .timeout hpc
    · exact .poolError (.inl hpc)
  · split
    · exact .poolError (.inl hpc)
    · exact .ignore hpc
    · unfold admitJob
      split
      · exact .poolError (.inl hpc)
      · next job hjob =>
        split
        · exact .poolError (.inl hpc)
        · next gate hgate => exact .poolJob hpc hjob hgate
    · next id accepted hmessage => exact .share hpc rfl hmessage

theorem moves_health {d : Direct} (hpc : r.session = .working (.direct d))
    (reply : Except IoError Value) :
    Move params config workers guards s r e (r.health s d reply).1 (r.health s d reply).2 := by
  unfold health
  simp only
  split
  · next height mempool _ _ =>
    split_ifs
    · exact .health hpc (.refl _)
    · have hquiet := @Quiet.emit nodeConnected
        (by simp [nodeConnected, Value.get_json])
        { s with mempoolSize := mempool, mempoolKnown := true }
      rw [State.emit_eq] at hquiet ⊢
      exact .health hpc hquiet
  · exact .directError (.inl hpc)
  · exact .directError (.inl hpc)

theorem moves_template {d : Direct} {height : UInt64} (hpc : r.session = .template d height)
    (expired : Bool) (reply : Except IoError Value) (scan : Except String (UInt64 × UInt64)) :
    Move params config workers guards s r e
      (r.template params config s d height expired reply scan).1
      (r.template params config s d height expired reply scan).2 := by
  unfold template
  split_ifs
  · split
    · exact .directError (.inr ⟨height, hpc⟩)
    · next value =>
      unfold admitJob
      simp only
      split
      · exact .directError (.inr ⟨height, hpc⟩)
      · next job hjob =>
        obtain ⟨job', hparsed, hjob⟩ := Except.bind_eq_ok hjob
        obtain ⟨u, hcoinbase, hjob⟩ := Except.bind_eq_ok hjob
        cases hjob
        split
        · exact .directError (.inr ⟨height, hpc⟩)
        · next gate hgate => exact .directJob hpc hparsed hcoinbase hgate
  · exact .keepTemplate hpc

theorem emitNetwork_eq (s : State) (network : Option Value) :
    ∃ stdout, Quiet s.stdout stdout ∧ s.emitNetwork network = { s with stdout } := by
  cases network with
  | none => exact ⟨s.stdout, .refl _, rfl⟩
  | some network =>
    have hquiet := @Quiet.emit (networkEvent network)
      (by simp [networkEvent, Value.get_json]) s
    rw [State.emit_eq] at hquiet
    exact ⟨_, hquiet, State.emit_eq ..⟩

theorem moves_enrich {d : Direct} (hpc : r.session = .enrich d)
    (network peers mempool : Option Value) :
    Move params config workers guards s r e (r.enrich s d network peers mempool).1
      (r.enrich s d network peers mempool).2 := by
  obtain ⟨stdout, hquiet, heq⟩ := emitNetwork_eq s network
  have hpeers := fun count => @Quiet.emit (peersEvent count)
    (by simp [peersEvent, Value.get_json]) (State.storePeers { s with stdout } count)
  simp only [enrich, heq, State.emit_eq] at hpeers ⊢
  exact .enrich hpc (hquiet.trans (hpeers _))

theorem moves_close {role : Role} {error : IoError} (hpc : r.session = .closing role error)
    (h : r.close s guards role error = some x) :
    Move params config workers guards s r e x.1 x.2 := by
  unfold close at h
  cases role with
  | pool c =>
    simp only at h
    split_ifs at h with hguard hconnection
    · cases h
      exact .closePool hpc (Bool.not_eq_true _ ▸ hguard) hconnection
    · cases h
      exact .closeOther hpc hconnection
  | direct d =>
    simp only at h
    split_ifs at h with hguard
    cases h
    exact .closeDirect hpc (Bool.not_eq_true _ ▸ hguard)

/-- The branches are all there is. -/
theorem step_moves (h : r.step params config workers guards s e = some x) :
    Move params config workers guards s r e x.1 x.2 := by
  unfold step at h
  cases hpc : r.session with
  | sleeping =>
    simp only [hpc] at h
    cases h
    have hquiet := @Quiet.emit (connecting config.pool)
      (by simp [connecting, Value.get_json]) s
    rw [State.emit_eq] at hquiet ⊢
    exact .wake hpc hquiet
  | connect =>
    simp only [hpc] at h
    split at h
    · cases h
      have hquiet := (@Quiet.emit poolConnected
        (by simp [poolConnected, Value.get_json]) s).trans
        (@Quiet.emit chainFeedUnavailable (by simp [chainFeedUnavailable, Value.get_json]) _)
      simp only [State.emit_eq] at hquiet ⊢
      exact .connected hpc hquiet
    · cases h
      exact .noConnection (.inl hpc)
    · cases h
  | configure =>
    simp only [hpc] at h
    split at h
    · cases h
      exact .configured hpc
    · cases h
      exact .noConnection (.inr hpc)
    · cases h
  | openConnection c =>
    simp only [hpc] at h
    split_ifs at h with hguard
    cases h
    exact .openConnection hpc (Bool.not_eq_true _ ▸ hguard)
  | login c =>
    simp only [hpc] at h
    split at h
    · split at h
      · cases h
        exact .login hpc
      · next hwrite =>
        cases h
        exact .loginError hpc rfl hwrite
    · cases h
  | writeEndpoint =>
    simp only [hpc] at h
    split_ifs at h with hguard
    cases h
    exact .writeEndpoint hpc (Bool.not_eq_true _ ▸ hguard)
  | working role =>
    cases role with
    | pool c =>
      simp only [hpc] at h
      split at h
      · cases h
        exact moves_message hpc _ _
      · cases h
    | direct d =>
      simp only [hpc] at h
      split at h
      · cases h
        exact moves_health hpc _
      · cases h
  | keepalive c =>
    simp only [hpc] at h
    split at h
    · split at h
      · cases h
        exact .keepalive hpc
      · cases h
        exact .poolError (.inr hpc)
    · cases h
  | template d height =>
    simp only [hpc] at h
    split at h
    · cases h
      exact moves_template hpc _ _ _
    · cases h
  | installRound role arc => simp only [hpc] at h; cases h; exact .installRound hpc
  | installCoinbase role arc => simp only [hpc] at h; cases h; exact .installCoinbase hpc
  | installSlot role arc =>
    simp only [hpc] at h
    split_ifs at h with hguard
    cases h
    have hquiet := @Quiet.emit (jobEvent params.expectedHashesForTarget arc.job)
      (by simp [jobEvent, Value.get_json]) { s with job := some arc }
    simp only [State.installSlot, State.emit_eq] at hquiet ⊢
    exact .installSlot hpc (Bool.not_eq_true _ ▸ hguard) hquiet
  | installGeneration role old => simp only [hpc] at h; cases h; exact .installGeneration hpc
  | enrich d =>
    simp only [hpc] at h
    split at h
    · cases h
      exact moves_enrich hpc _ _ _
    · cases h
  | finishShare c id accepted => simp only [hpc] at h; cases h; exact .finishShare hpc
  | countShare c id accepted => simp only [hpc] at h; cases h; exact .countShare hpc
  | loadSubmitted c => simp only [hpc] at h; cases h; exact .loadSubmitted hpc
  | loadAccepted c submitted => simp only [hpc] at h; cases h; exact .loadAccepted hpc
  | loadRejected c submitted accepted => simp only [hpc] at h; cases h; exact .loadRejected hpc
  | emitShare c submitted accepted rejected => simp only [hpc] at h; cases h; exact .emitShare hpc
  | closing role error =>
    simp only [hpc] at h
    exact moves_close hpc h
  | clearJob error =>
    simp only [hpc] at h
    split_ifs at h with hguard
    cases h
    exact .clearJob hpc (Bool.not_eq_true _ ▸ hguard)
  | clearCoinbase error old => simp only [hpc] at h; cases h; exact .clearCoinbase hpc
  | clearGeneration error old => simp only [hpc] at h; cases h; exact .clearGeneration hpc
  | forgetCoinbase error => simp only [hpc] at h; cases h; exact .forgetCoinbase hpc
  | forgetMempool error => simp only [hpc] at h; cases h; exact .forgetMempool hpc
  | forgetPeers error => simp only [hpc] at h; cases h; exact .forgetPeers hpc
  | dropJob error =>
    simp only [hpc] at h
    split_ifs at h with hguard
    cases h
    exact .dropJob hpc (Bool.not_eq_true _ ▸ hguard)
  | dropGeneration error old => simp only [hpc] at h; cases h; exact .dropGeneration hpc
  | ended error =>
    simp only [hpc] at h
    cases h
    have hquiet := @Quiet.emit (sessionError error.message config.reconnectSecs)
      (by simp [sessionError, Value.get_json]) s
    rw [State.emit_eq] at hquiet ⊢
    exact .ended hpc hquiet

end Runner
end XusMiner.Engine

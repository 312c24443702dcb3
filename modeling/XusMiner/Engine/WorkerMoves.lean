import XusMiner.Engine.System

namespace XusMiner.Engine
open ByteCodec

/-- The events added between two contents of the standard output carry no share figures. -/
def Quiet (stdout stdout' : List Value) : Prop :=
  ∃ events, stdout' = stdout ++ events ∧ ∀ event ∈ events, event.get "accepted" = none

namespace Quiet

theorem refl (stdout : List Value) : Quiet stdout stdout := ⟨[], by simp⟩

theorem trans {a b c : List Value} (h : Quiet a b) (h' : Quiet b c) : Quiet a c := by
  obtain ⟨events, rfl, hevents⟩ := h
  obtain ⟨events', rfl, hevents'⟩ := h'
  refine ⟨events ++ events', List.append_assoc .., ?_⟩
  intro event hevent
  rcases List.mem_append.1 hevent with hold | hnew
  · exact hevents event hold
  · exact hevents' event hnew

theorem emit {event : Value} (h : event.get "accepted" = none) (s : State) :
    Quiet s.stdout (s.emit event).stdout := by
  rw [State.emit_eq]
  by_cases hjson : s.jsonEvents
  · exact ⟨[event], by simp [hjson], by simpa using h⟩
  · exact ⟨[], by simp [hjson], by simp⟩

end Quiet

namespace Worker

theorem pc_enterBatch (wk : Worker) :
    wk.enterBatch.pc = .loadGeneration ∨ wk.enterBatch.pc = .batch := by
  unfold enterBatch
  split
  · exact .inl rfl
  · exact .inr rfl

theorem pc_readJob (wk : Worker) (w : ℕ) (s : State) (increments : ℕ) :
    (wk.readJob w s increments).pc = .loadGeneration ∨
      (wk.readJob w s increments).pc = .batch := by
  unfold readJob
  split
  · exact pc_enterBatch _
  · exact pc_enterBatch _

theorem pc_submitBlock (params : Params) (w : ℕ) (s : State) (wk : Worker) (arc : ArcJob)
    (reply : Except String Value) : (wk.submitBlock params w s arc reply).2.pc = .countAccepted ∨
      (wk.submitBlock params w s arc reply).2.pc = .countRejected := by
  unfold submitBlock
  simp only
  split
  · exact .inl rfl
  · exact .inr rfl

/-- Everything a step of worker `w` can do, branch by branch. -/
inductive Move (params : Params) (w : ℕ) (locks : Locks) (s : State) (wk : Worker) :
    State → Worker → Prop
  | loadGeneration (hpc : wk.pc = .loadGeneration) (h : s.generation ≠ wk.generation) :
      Move params w locks s wk s { wk with
        generation := s.generation
        preparationAnnounced := false
        pc := .readJob s.history.increments }
  | current (hpc : wk.pc = .loadGeneration) (h : s.generation = wk.generation) :
      Move params w locks s wk s wk.enterBatch
  | readJob {increments : ℕ} (hpc : wk.pc = .readJob increments) (hlock : locks.job = false) :
      Move params w locks s wk s (wk.readJob w s increments)
  | splice {arc : ArcJob} (hpc : wk.pc = .batch) (harc : wk.job = some arc) :
      Move params w locks s wk s { wk with
        blob := ByteCodec.splice wk.blob arc.job.nonceOffset (leBytes 8 wk.nonce.toNat)
        pc := .sealBlob }
  | leaveBatch (hpc : wk.pc = .batch) :
      Move params w locks s wk s { wk with pc := .addIntervalHashes }
  | powReady {arc : ArcJob} {stdout : List Value} {ready : Option (PowAlgo × Bytes × MiningMode)}
      (hpc : wk.pc = .sealBlob) (harc : wk.job = some arc) (hquiet : Quiet s.stdout stdout) :
      Move params w locks s wk { s with stdout } { wk with
        lastPowError := none
        readyState := ready
        preparationAnnounced := false
        completed := wk.completed + 1
        pc := .test (params.pow arc.job.algo arc.job.powKey wk.blob) }
  | powError {stdout : List Value} {last : Option (String × ℕ)} (hpc : wk.pc = .sealBlob)
      (hquiet : Quiet s.stdout stdout) :
      Move params w locks s wk { s with stdout } { wk with
        lastPowError := last
        readyState := none
        preparationAnnounced := true
        nonce := wk.nonce + 1
        pc := .addIntervalHashes }
  | panic {stdout : List Value} {restarts : UInt64} (hpc : wk.pc = .sealBlob)
      (hquiet : Quiet s.stdout stdout) :
      Move params w locks s wk { s with stdout } (start w restarts)
  | solved {arc : ArcJob} {digest : Bytes32} (hpc : wk.pc = .test digest)
      (harc : wk.job = some arc) (hmeets : digest.val ≤ arc.job.target.val)
      (hgeneration : s.generation = wk.generation) :
      Move params w locks s wk s { wk with pc := .readEndpoint digest }
  | unsolved {digest : Bytes32} (hpc : wk.pc = .test digest) :
      Move params w locks s wk s wk.advance
  | direct {digest : Bytes32} {endpoint : String} (hpc : wk.pc = .readEndpoint digest)
      (h : s.rpcEndpoint = some endpoint) :
      Move params w locks s wk s { wk with pc := .countSubmission }
  | pool {digest : Bytes32} (hpc : wk.pc = .readEndpoint digest) (h : s.rpcEndpoint = none) :
      Move params w locks s wk s { wk with pc := .nextRequest digest }
  | countSubmission (hpc : wk.pc = .countSubmission) :
      Move params w locks s wk { s with submitted := s.submitted + 1 }
        { wk with pc := .submitBlock }
  | submitBlock {arc : ArcJob} (reply : Except String Value) (hpc : wk.pc = .submitBlock)
      (harc : wk.job = some arc) :
      Move params w locks s wk (wk.submitBlock params w s arc reply).1
        (wk.submitBlock params w s arc reply).2
  | countAccepted (hpc : wk.pc = .countAccepted) :
      Move params w locks s wk { s with accepted := s.accepted + 1 } { wk with pc := .recordSealed }
  | recordSealed {arc : ArcJob} (hpc : wk.pc = .recordSealed) (harc : wk.job = some arc) :
      Move params w locks s wk
        (s.recordSealedBlock arc.job.height (templateIdForBlob params.blake3 wk.blob))
        { wk with pc := .loadSubmitted }
  | loadSubmitted (hpc : wk.pc = .loadSubmitted) :
      Move params w locks s wk s { wk with pc := .loadAccepted s.submitted }
  | loadAccepted {submitted : UInt64} (hpc : wk.pc = .loadAccepted submitted) :
      Move params w locks s wk s { wk with pc := .loadRejected submitted s.accepted }
  | loadRejected {submitted accepted : UInt64} (hpc : wk.pc = .loadRejected submitted accepted) :
      Move params w locks s wk s { wk with pc := .emitShare submitted accepted s.rejected }
  | emitShare {submitted accepted rejected : UInt64}
      (hpc : wk.pc = .emitShare submitted accepted rejected) :
      Move params w locks s wk (s.emit (shareEvent submitted accepted rejected))
        { wk with pc := .clearJob }
  | clearJob {arc current : ArcJob} (hpc : wk.pc = .clearJob) (harc : wk.job = some arc)
      (hlock : locks.job = false) (hcurrent : s.job = some current)
      (hsame : current.serial = arc.serial) :
      Move params w locks s wk { s with job := none } { wk with pc := .clearGeneration current }
  | keepJob (hpc : wk.pc = .clearJob) : Move params w locks s wk s wk.advance
  | clearGeneration {cleared : ArcJob} (hpc : wk.pc = .clearGeneration cleared) :
      Move params w locks s wk (s.publish (some cleared)) { wk with pc := .emitCleared }
  | emitCleared {stdout : List Value} (hpc : wk.pc = .emitCleared)
      (hquiet : Quiet s.stdout stdout) :
      Move params w locks s wk { s with stdout } wk.advance
  | countRejected (hpc : wk.pc = .countRejected) :
      Move params w locks s wk { s with rejected := s.rejected + 1 } wk.advance
  | nextRequest {arc : ArcJob} {digest : Bytes32} (hpc : wk.pc = .nextRequest digest)
      (harc : wk.job = some arc) :
      Move params w locks s wk (wk.nextRequest s arc.job digest).1
        (wk.nextRequest s arc.job digest).2
  | readConnection {c : ℕ} {id : UInt64} {message : Value}
    (hpc : wk.pc = .readConnection id message)
      (hlock : locks.connection = false) (h : s.connection = some c) :
      Move params w locks s wk s { wk with pc := .reserve c id message }
  | noConnection {id : UInt64} {message : Value} (hpc : wk.pc = .readConnection id message) :
      Move params w locks s wk s wk.advance
  | reserve {c : ℕ} {id : UInt64} {message : Value} {connection : Connection}
      (hpc : wk.pc = .reserve c id message)
      (h : s.connections[c]?.bind Connection.reserveShare = some connection) :
      Move params w locks s wk (s.updateConnection c fun _ => connection)
        { wk with pc := .write c id message }
  | full {c : ℕ} {id : UInt64} {message : Value} (hpc : wk.pc = .reserve c id message) :
      Move params w locks s wk s wk.advance
  | write {arc : ArcJob} {c : ℕ} {id : UInt64} {message : Value}
      (hpc : wk.pc = .write c id message) (harc : wk.job = some arc) :
      Move params w locks s wk
        { s with
          history := { s.history with sent := s.history.sent ++ [⟨w, c, id, arc, message⟩] } }
        { wk with pc := .countSubmitted c id }
  | writeError {c : ℕ} {id : UInt64} {message : Value} (hpc : wk.pc = .write c id message) :
      Move params w locks s wk s { wk with pc := .writeFailed c }
  | countSubmitted {c : ℕ} {id : UInt64} (hpc : wk.pc = .countSubmitted c id) :
      Move params w locks s wk (wk.countSubmitted s c id).1 wk.advance
  | writeFailed {c : ℕ} (hpc : wk.pc = .writeFailed c) :
      Move params w locks s wk (s.updateConnection c Connection.finishShare) wk.advance
  | addIntervalHashes (hpc : wk.pc = .addIntervalHashes) :
      Move params w locks s wk { s with intervalHashes := s.intervalHashes + wk.completed }
        { wk with pc := .addTotalHashes }
  | addTotalHashes (hpc : wk.pc = .addTotalHashes) :
      Move params w locks s wk { s with totalHashes := s.totalHashes + wk.completed }
        { wk with pc := .recordRound }
  | recordRound {arc : ArcJob} (hpc : wk.pc = .recordRound) (harc : wk.job = some arc) :
      Move params w locks s wk (s.recordRoundHashes arc.job wk.completed)
        { wk with pc := .loadGeneration }

variable {params : Params} {w : ℕ} {locks : Locks} {s : State} {wk : Worker} {r : State × Worker}

theorem announce_eq (wk : Worker) (s : State) (builds : Bool) :
    ∃ stdout ready announced, Quiet s.stdout stdout ∧ wk.announce w s builds =
      ({ s with stdout }, { wk with readyState := ready, preparationAnnounced := announced }) := by
  unfold announce
  split_ifs
  · have hquiet := @Quiet.emit (workerInitializing (UInt64.ofNat w))
      (by simp [workerInitializing, Value.get_json]) s
    rw [State.emit_eq] at hquiet ⊢
    exact ⟨_, none, true, hquiet, rfl⟩
  · exact ⟨s.stdout, wk.readyState, wk.preparationAnnounced, .refl _, rfl⟩

theorem powError_eq (wk : Worker) (s : State) (error : String) (now : ℕ) :
    ∃ stdout last, Quiet s.stdout stdout ∧ wk.powError w s error now =
      ({ s with stdout }, { wk with
        lastPowError := last
        readyState := none
        preparationAnnounced := true
        nonce := wk.nonce + 1
        pc := .addIntervalHashes }) := by
  simp only [powError]
  split_ifs
  · have hquiet := @Quiet.emit (workerError (UInt64.ofNat w) error)
      (by simp [workerError, Value.get_json]) s
    rw [State.emit_eq] at hquiet ⊢
    exact ⟨_, _, hquiet, rfl⟩
  · exact ⟨s.stdout, _, .refl _, rfl⟩

theorem powReady_eq (wk : Worker) (s : State) (job : Job) (digest : Bytes32) (mode : MiningMode) :
    ∃ stdout ready, Quiet s.stdout stdout ∧ wk.powReady w s job digest mode =
      ({ s with stdout }, { wk with
        lastPowError := none
        readyState := ready
        preparationAnnounced := false
        completed := wk.completed + 1
        pc := .test digest }) := by
  have hrecovered : Quiet s.stdout
      (if wk.lastPowError.isSome then s.emit (workerRecovered (UInt64.ofNat w)) else s).stdout := by
    split_ifs
    · exact .emit (by simp [workerRecovered, Value.get_json]) s
    · exact .refl _
  refine ⟨(wk.powReady w s job digest mode).1.stdout, some (job.algo, job.powKey, mode), ?_, ?_⟩
  · simp only [powReady]
    by_cases hready : wk.readyState ≠ some (job.algo, job.powKey, mode)
    · rw [if_pos hready]
      exact hrecovered.trans (.emit (by simp [workerReady, Value.get_json]) _)
    · rwa [if_neg hready]
  · simp only [powReady, State.emit_eq]
    split_ifs <;> rfl

theorem moves_sealBlob {arc : ArcJob} (hpc : wk.pc = .sealBlob) (harc : wk.job = some arc)
    (builds : Bool) (outcome : Except String MiningMode) (now : ℕ) :
    Move params w locks s wk (wk.sealBlob params w s arc.job builds outcome now).1
      (wk.sealBlob params w s arc.job builds outcome now).2 := by
  unfold sealBlob
  split
  · obtain ⟨stdout, ready, hquiet, heq⟩ := powReady_eq (w := w) wk s arc.job
      (params.pow arc.job.algo arc.job.powKey wk.blob) .sha256d
    rw [heq]
    exact .powReady hpc harc hquiet
  · obtain ⟨stdout, ready, announced, hquiet, heq⟩ := announce_eq (w := w) wk s builds
    rw [heq]
    cases outcome with
    | error error =>
      obtain ⟨stdout', last, hquiet', heq'⟩ := powError_eq (w := w)
        { wk with readyState := ready, preparationAnnounced := announced } { s with stdout }
        error now
      simp only [heq']
      exact .powError hpc (hquiet.trans hquiet')
    | ok mode =>
      obtain ⟨stdout', ready', hquiet', heq'⟩ := powReady_eq (w := w)
        { wk with readyState := ready, preparationAnnounced := announced } { s with stdout } arc.job
        (params.pow arc.job.algo arc.job.powKey wk.blob) mode
      simp only [heq']
      exact .powReady hpc harc (hquiet.trans hquiet')

/-- The branches are all there is. -/
theorem step_moves {e : WorkerEvent} (h : wk.step params w locks s e = some r) :
    Move params w locks s wk r.1 r.2 := by
  unfold step at h
  cases hpc : wk.pc with
  | loadGeneration =>
    simp only [hpc] at h
    cases h
    unfold Worker.loadGeneration
    split_ifs with hload
    · exact .loadGeneration hpc hload
    · exact .current hpc (not_not.1 hload)
  | readJob increments =>
    simp only [hpc] at h
    split_ifs at h with hlock
    cases h
    exact .readJob hpc (Bool.not_eq_true _ ▸ hlock)
  | batch =>
    simp only [hpc] at h
    obtain ⟨arc, harc, rfl⟩ := Option.map_eq_some_iff.1 h
    unfold Worker.batch
    split_ifs
    · exact .leaveBatch hpc
    · exact .splice hpc harc
  | sealBlob =>
    simp only [hpc] at h
    cases e with
    | sealed builds outcome now =>
      obtain ⟨arc, harc, rfl⟩ := Option.map_eq_some_iff.1 h
      exact moves_sealBlob hpc harc builds outcome now
    | panic message =>
      cases h
      have hquiet := @Quiet.emit (workerPanicked (UInt64.ofNat w) message
        (min (saturatingAdd wk.restarts 1) 30)) (by simp [workerPanicked, Value.get_json]) s
      simp only [Worker.panic, State.emit_eq] at hquiet ⊢
      exact .panic hpc hquiet
    | _ => cases h
  | test digest =>
    simp only [hpc] at h
    obtain ⟨arc, harc, rfl⟩ := Option.map_eq_some_iff.1 h
    unfold Worker.test
    split_ifs with hpass
    · exact .solved hpc harc hpass.1 hpass.2
    · exact .unsolved hpc
  | readEndpoint digest =>
    simp only [hpc] at h
    cases h
    unfold Worker.readEndpoint
    split
    · next hendpoint => exact .direct hpc hendpoint
    · next hendpoint => exact .pool hpc hendpoint
  | countSubmission => simp only [hpc] at h; cases h; exact .countSubmission hpc
  | submitBlock =>
    simp only [hpc] at h
    cases e with
    | reply reply =>
      obtain ⟨arc, harc, rfl⟩ := Option.map_eq_some_iff.1 h
      exact .submitBlock reply hpc harc
    | _ => cases h
  | countAccepted => simp only [hpc] at h; cases h; exact .countAccepted hpc
  | recordSealed =>
    simp only [hpc] at h
    obtain ⟨arc, harc, rfl⟩ := Option.map_eq_some_iff.1 h
    exact .recordSealed hpc harc
  | loadSubmitted => simp only [hpc] at h; cases h; exact .loadSubmitted hpc
  | loadAccepted submitted => simp only [hpc] at h; cases h; exact .loadAccepted hpc
  | loadRejected submitted accepted => simp only [hpc] at h; cases h; exact .loadRejected hpc
  | emitShare submitted accepted rejected => simp only [hpc] at h; cases h; exact .emitShare hpc
  | clearJob =>
    simp only [hpc] at h
    split_ifs at h with hlock
    obtain ⟨arc, harc, rfl⟩ := Option.map_eq_some_iff.1 h
    unfold Worker.clearJob
    split
    · next current hcurrent =>
      split_ifs with hsame
      · exact .clearJob hpc harc (Bool.not_eq_true _ ▸ hlock) hcurrent hsame
      · exact .keepJob hpc
    · exact .keepJob hpc
  | clearGeneration cleared => simp only [hpc] at h; cases h; exact .clearGeneration hpc
  | emitCleared =>
    simp only [hpc] at h
    obtain ⟨arc, harc, rfl⟩ := Option.map_eq_some_iff.1 h
    have hquiet := @Quiet.emit (jobCleared arc.job)
      (by simp [jobCleared, Value.get_json]) s
    rw [State.emit_eq] at hquiet ⊢
    exact .emitCleared hpc hquiet
  | countRejected => simp only [hpc] at h; cases h; exact .countRejected hpc
  | nextRequest digest =>
    simp only [hpc] at h
    obtain ⟨arc, harc, rfl⟩ := Option.map_eq_some_iff.1 h
    exact .nextRequest hpc harc
  | readConnection id message =>
    simp only [hpc] at h
    split_ifs at h with hlock
    cases h
    unfold Worker.readConnection
    split
    · next c hc => exact .readConnection hpc (Bool.not_eq_true _ ▸ hlock) hc
    · exact .noConnection hpc
  | reserve c id message =>
    simp only [hpc] at h
    cases h
    unfold Worker.reserve
    split
    · next connection hconnection => exact .reserve hpc hconnection
    · exact .full hpc
  | write c id message =>
    simp only [hpc] at h
    cases e with
    | socket result =>
      obtain ⟨arc, harc, rfl⟩ := Option.map_eq_some_iff.1 h
      unfold Worker.write
      split
      · exact .write hpc harc
      · exact .writeError hpc
    | _ => cases h
  | countSubmitted c id => simp only [hpc] at h; cases h; exact .countSubmitted hpc
  | writeFailed c => simp only [hpc] at h; cases h; exact .writeFailed hpc
  | addIntervalHashes => simp only [hpc] at h; cases h; exact .addIntervalHashes hpc
  | addTotalHashes => simp only [hpc] at h; cases h; exact .addTotalHashes hpc
  | recordRound =>
    simp only [hpc] at h
    obtain ⟨arc, harc, rfl⟩ := Option.map_eq_some_iff.1 h
    exact .recordRound hpc harc

end Worker
end XusMiner.Engine

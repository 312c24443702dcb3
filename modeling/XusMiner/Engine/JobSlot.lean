import XusMiner.Engine.Submissions
import XusMiner.Library.Publication

namespace XusMiner.Engine
open ByteCodec

/-- What the session thread has replaced in the job slot, while its increment is due. -/
def Session.pending : Session → Option (Option ArcJob)
  | .installGeneration _ old | .clearCoinbase _ old | .clearGeneration _ old
  | .dropGeneration _ old => some old
  | _ => none

/-- The job on its way into the slot. -/
def Session.carried : Session → Option ArcJob
  | .installRound _ arc | .installCoinbase _ arc | .installSlot _ arc => some arc
  | _ => none

def Pc.pending : Pc → Option (Option ArcJob)
  | .clearGeneration cleared => some (some cleared)
  | _ => none

def Pc.loaded : Pc → Option ℕ
  | .readJob increments => some increments
  | _ => none

def Worker.reader (wk : Worker) : Publication.Reader ArcJob := ⟨wk.refreshed, wk.job, wk.pc.loaded⟩

theorem Runner.pending_resume (role : Role) : (Runner.resume role).pending = none := by
  cases role <;> rfl

theorem Runner.carried_resume (role : Role) : (Runner.resume role).carried = none := by
  cases role <;> rfl

namespace Worker

@[simp] theorem reader_enterBatch (wk : Worker) :
    wk.enterBatch.reader = ⟨wk.refreshed, wk.job, none⟩ := by
  unfold enterBatch
  cases hjob : wk.job with
  | none => rfl
  | some arc => simp [reader, Pc.loaded]

@[simp] theorem pending_enterBatch (wk : Worker) : wk.enterBatch.pc.pending = none := by
  unfold enterBatch
  cases hjob : wk.job with
  | none => rfl
  | some arc => rfl

theorem reader_readJob (wk : Worker) (w : ℕ) (s : State) (increments : ℕ) :
    (wk.readJob w s increments).reader = ⟨some increments, s.job, none⟩ := by
  unfold readJob
  cases hjob : s.job with
  | none => simp
  | some arc => simp

theorem pending_readJob (wk : Worker) (w : ℕ) (s : State) (increments : ℕ) :
    (wk.readJob w s increments).pc.pending = none := by
  unfold readJob
  cases hjob : s.job with
  | none => simp
  | some arc => simp

theorem Move.received {params : Params} {w : ℕ} {locks : Locks} {s s' : State} {wk wk' : Worker}
    (h : Move params w locks s wk s' wk') : s'.history.received = s.history.received := by
  cases h with
  | emitShare => rw [State.emit_eq]
  | recordRound => rw [State.recordRoundHashes_eq]
  | _ => rfl

end Worker

/-- Two states agree on the job slot and on its past. -/
structure State.SameSlot (s s' : State) : Prop where
  job : s'.job = s.job
  increments : s'.history.increments = s.history.increments
  received : s'.history.received = s.history.received
  replaced : s'.history.replaced = s.history.replaced

theorem State.replaced_publish (s : State) (old : Option ArcJob) :
    {arc | arc ∈ (s.publish old).history.replaced} =
      {arc | arc ∈ s.history.replaced} ∪ {arc | old = some arc} := by
  ext arc
  simp [State.publish]

namespace System
variable {n : ℕ} {params : Params} {config : Config} {s s' : System n}

/-- The job slot and the generation, as a publication: the workers read, and they write as well
as the session thread. -/
def publication (s : System n) : Publication.State (Fin n) (Option (Fin n)) ArcJob where
  slot := s.state.job
  count := s.state.history.increments
  used := {arc | arc ∈ s.state.history.received ∧ s.runner.session.carried ≠ some arc}
  retired := {arc | arc ∈ s.state.history.replaced}
  pending writer := writer.elim s.runner.session.pending fun w => (s.workers w).pc.pending
  readers w := (s.workers w).reader

theorem publication_setWorker (w : Fin n) (state : State) (wk : Worker)
    (hreceived : state.history.received = s.state.history.received) :
    (s.setWorker w state wk).publication = { s.publication with
      slot := state.job
      count := state.history.increments
      retired := {arc | arc ∈ state.history.replaced}
      pending := Function.update s.publication.pending (some w) wk.pc.pending
      readers := Function.update s.publication.readers w wk.reader } := by
  have hpending : (s.setWorker w state wk).publication.pending =
      Function.update s.publication.pending (some w) wk.pc.pending := by
    funext writer
    cases writer with
    | none => simp [publication, setWorker]
    | some v =>
      by_cases hv : v = w
      · subst hv
        simp [publication, setWorker]
      · simp [publication, setWorker, hv]
  have hreaders : (s.setWorker w state wk).publication.readers =
      Function.update s.publication.readers w wk.reader := by
    funext v
    by_cases hv : v = w
    · subst hv
      simp [publication, setWorker]
    · simp [publication, setWorker, hv]
  rw [← hpending, ← hreaders]
  simp [publication, setWorker, hreceived]

theorem publication_setSession (state : State) (r : Runner) :
    ({ s with state, runner := r } : System n).publication = { s.publication with
      slot := state.job
      count := state.history.increments
      used := {arc | arc ∈ state.history.received ∧ r.session.carried ≠ some arc}
      retired := {arc | arc ∈ state.history.replaced}
      pending := Function.update s.publication.pending none r.session.pending } := by
  have hpending : ({ s with state, runner := r } : System n).publication.pending =
      Function.update s.publication.pending none r.session.pending := by
    funext writer
    cases writer with
    | none => simp [publication]
    | some v => simp [publication]
  rw [← hpending]
  simp [publication]

/-- Serial numbers are given out once, and what is on its way into the slot was received. -/
structure Received (s : System n) : Prop where
  serial : ∀ arc ∈ s.state.history.received, arc.serial < s.state.history.received.length
  carried : ∀ arc, s.runner.session.carried = some arc → arc ∈ s.state.history.received

/-- The publication takes a step or stays as it is. -/
def Publishes (s s' : System n) : Prop :=
  Relation.ReflGen Publication.Step s.publication s'.publication

namespace Publishes
variable {w : Fin n} {state : State} {wk : Worker} {pc : Pc} {r : Runner} {session : Session}

theorem reader (hslot : s.state.SameSlot state) (hpc : (s.workers w).pc = pc)
    (hpending : wk.pc.pending = pc.pending)
    (hstep : Publication.Step s.publication
      { s.publication with readers := Function.update s.publication.readers w wk.reader }) :
    s.Publishes (s.setWorker w state wk) := by
  have hwriters : Function.update s.publication.pending (some w) (s.workers w).pc.pending =
      s.publication.pending := Function.update_eq_self (some w) s.publication.pending
  unfold Publishes
  rw [publication_setWorker w state wk hslot.received, hpending, ← hpc, hslot.job,
    hslot.increments, hslot.replaced, hwriters]
  exact .single hstep

theorem writer (hreceived : state.history.received = s.state.history.received)
    (hpc : (s.workers w).pc = pc)
    (hreader : wk.reader = ⟨(s.workers w).refreshed, (s.workers w).job, pc.loaded⟩)
    (hstep : Publication.Step s.publication { s.publication with
      slot := state.job
      count := state.history.increments
      retired := {arc | arc ∈ state.history.replaced}
      pending := Function.update s.publication.pending (some w) wk.pc.pending }) :
    s.Publishes (s.setWorker w state wk) := by
  have hreaders : Function.update s.publication.readers w (s.workers w).reader =
      s.publication.readers := Function.update_eq_self w s.publication.readers
  have hsame : wk.reader = (s.workers w).reader := by rw [hreader, ← hpc, Worker.reader]
  unfold Publishes
  rw [publication_setWorker w state wk hreceived, hsame, hreaders]
  exact .single hstep

theorem quiet (hslot : s.state.SameSlot state) (hpc : (s.workers w).pc = pc)
    (hpending : wk.pc.pending = pc.pending)
    (hreader : wk.reader = ⟨(s.workers w).refreshed, (s.workers w).job, pc.loaded⟩) :
    s.Publishes (s.setWorker w state wk) := by
  have hwriters : Function.update s.publication.pending (some w) (s.workers w).pc.pending =
      s.publication.pending := Function.update_eq_self (some w) s.publication.pending
  have hreaders : Function.update s.publication.readers w (s.workers w).reader =
      s.publication.readers := Function.update_eq_self w s.publication.readers
  have hsame : wk.reader = (s.workers w).reader := by rw [hreader, ← hpc, Worker.reader]
  unfold Publishes
  rw [publication_setWorker w state wk hslot.received, hpending, ← hpc, hsame, hslot.job,
    hslot.increments, hslot.replaced, hwriters, hreaders]
  exact .refl

/-- Only a refresh, a restart and `clear_job_if_current` touch what is published. -/
theorem worker {locks : Locks} (hmove : Worker.Move params w locks s.state (s.workers w) state wk) :
    s.Publishes (s.setWorker w state wk) := by
  have hsame : s.state.SameSlot s.state := ⟨rfl, rfl, rfl, rfl⟩
  cases hmove with
  | loadGeneration hpc => exact reader hsame hpc rfl (.load w)
  | readJob hpc =>
    apply reader hsame hpc (Worker.pending_readJob ..)
    rw [Worker.reader_readJob]
    apply Publication.Step.read w
    simp [publication, Worker.reader, hpc, Pc.loaded]
  | panic hpc => exact reader ⟨rfl, rfl, rfl, rfl⟩ hpc rfl (.forget w)
  | clearJob hpc harc hlock hcurrent =>
    have hwrite := Publication.Step.write (s := s.publication) (some w) none (by simp)
    apply writer _ hpc rfl
    · simpa [publication, hcurrent, Pc.pending] using hwrite
    · rfl
  | @clearGeneration cleared hpc =>
    have hpending : s.publication.pending (some w) = some (some cleared) := by
      simp [publication, hpc, Pc.pending]
    apply writer _ hpc rfl
    · rw [State.replaced_publish]
      exact .publish (some w) hpending
    · rfl
  | current hpc => exact quiet hsame hpc (Worker.pending_enterBatch _) (Worker.reader_enterBatch _)
  | submitBlock reply hpc harc =>
    unfold Worker.submitBlock
    simp only
    split
    · exact quiet ⟨rfl, rfl, rfl, rfl⟩ hpc rfl rfl
    · exact quiet ⟨rfl, rfl, rfl, rfl⟩ hpc rfl rfl
  | emitShare hpc =>
    rw [State.emit_eq]
    exact quiet ⟨rfl, rfl, rfl, rfl⟩ hpc rfl rfl
  | recordRound hpc =>
    rw [State.recordRoundHashes_eq]
    exact quiet ⟨rfl, rfl, rfl, rfl⟩ hpc rfl rfl
  | splice hpc | leaveBatch hpc | powReady hpc | powError hpc | solved hpc | unsolved hpc
  | direct hpc | pool hpc | countSubmission hpc | countAccepted hpc | recordSealed hpc
  | loadSubmitted hpc | loadAccepted hpc | loadRejected hpc | keepJob hpc | emitCleared hpc
  | countRejected hpc | nextRequest hpc | readConnection hpc | noConnection hpc | reserve hpc
  | full hpc | write hpc | writeError hpc | countSubmitted hpc | writeFailed hpc
  | addIntervalHashes hpc | addTotalHashes hpc =>
    exact quiet ⟨rfl, rfl, rfl, rfl⟩ hpc rfl rfl

theorem session_step (hstep : Publication.Step s.publication { s.publication with
      slot := state.job
      count := state.history.increments
      used := {arc | arc ∈ state.history.received ∧ r.session.carried ≠ some arc}
      retired := {arc | arc ∈ state.history.replaced}
      pending := Function.update s.publication.pending none r.session.pending }) :
    s.Publishes { s with state, runner := r } := by
  unfold Publishes
  rw [publication_setSession state r]
  exact .single hstep

theorem session_kept (hjob : state.job = s.state.job)
    (hincrements : state.history.increments = s.state.history.increments)
    (hreplaced : state.history.replaced = s.state.history.replaced)
    (hpc : s.runner.session = session) (hpending : r.session.pending = session.pending)
    (hused : {arc | arc ∈ state.history.received ∧ r.session.carried ≠ some arc} =
      s.publication.used) :
    s.Publishes { s with state, runner := r } := by
  have hwriters : Function.update s.publication.pending none s.runner.session.pending =
      s.publication.pending := Function.update_eq_self none s.publication.pending
  unfold Publishes
  rw [publication_setSession state r, hused, hpending, ← hpc, hjob, hincrements, hreplaced,
    hwriters]
  exact .refl

theorem session_quiet (hslot : s.state.SameSlot state) (hpc : s.runner.session = session)
    (hpending : r.session.pending = session.pending)
    (hcarried : r.session.carried = session.carried) :
    s.Publishes { s with state, runner := r } := by
  apply session_kept hslot.job hslot.increments hslot.replaced hpc hpending
  rw [hslot.received, hcarried, ← hpc]
  rfl

/-- A job that is received is not used before it is in the slot. -/
theorem receive (h : s.Received) (job : Job) (origin : Option ℕ) {role : Role}
    {gate : RandomxMemoryGate} (hpc : s.runner.session = session)
    (hpending : session.pending = none)
    (hcarried : session.carried = none) :
    s.Publishes { s with
      state := (s.state.receive job origin).2
      runner := ⟨.installRound role (s.state.receive job origin).1, gate⟩ } := by
  refine session_kept rfl rfl rfl hpc hpending.symm ?_
  ext arc
  -- its serial number is new, and so is the allocation
  have hnew : arc ∈ s.state.history.received → (s.state.receive job origin).1 ≠ arc := by
    rintro harc rfl
    exact absurd (h.serial _ harc) (lt_irrefl _)
  have hmem : arc ∈ (s.state.receive job origin).2.history.received ↔
      arc ∈ s.state.history.received ∨ arc = (s.state.receive job origin).1 := by
    simp [State.receive]
  change _ ∧ some (s.state.receive job origin).1 ≠ some arc ↔
    arc ∈ s.state.history.received ∧ s.runner.session.carried ≠ some arc
  rw [hmem, hpc, hcarried]
  grind

/-- What is carried into the slot was not used before. -/
theorem session_replace {v : Option ArcJob} {stdout : List Value} (h : s.Received)
    (hpc : s.runner.session = session) (hv : session.carried = v)
    (hpending : r.session.pending = some s.state.job) (hcarried : r.session.carried = none) :
    s.Publishes { s with state := { s.state with job := v, stdout }, runner := r } := by
  have hwrite := Publication.Step.write (s := s.publication) none v
    fun arc harc hused => hused.2 (by rw [hpc, hv, harc])
  have hused : {arc | arc ∈ s.state.history.received ∧ none ≠ some arc} =
      s.publication.used ∪ {arc | v = some arc} := by
    ext arc
    have hreceived : v = some arc → arc ∈ s.state.history.received := by
      intro harc
      exact h.carried arc (by rw [hpc, hv, harc])
    simp only [publication, Set.mem_union, Set.mem_ofPred_eq, hpc, hv]
    grind
  apply session_step
  rw [hpending, hcarried, hused]
  exact hwrite

/-- The increment that is due is made. -/
theorem session_publish {old : Option ArcJob} (hpc : s.runner.session = session)
    (hdue : session.pending = some old) (hcarried : session.carried = none)
    (hpending : r.session.pending = none) (hcarried' : r.session.carried = none) :
    s.Publishes { s with state := s.state.publish old, runner := r } := by
  have hpublish := Publication.Step.publish (s := s.publication) none
    (show s.runner.session.pending = some old by rw [hpc, hdue])
  apply session_step
  rw [State.replaced_publish, hpending, hcarried', ← hcarried, ← hpc]
  exact hpublish

theorem runner {guards : Guards} {e : SessionEvent} (h : s.Received)
    (hmove : Runner.Move params config n guards s.state s.runner e state r) :
    s.Publishes { s with state, runner := r } := by
  cases hmove with
  | poolJob hpc => exact receive h _ _ hpc rfl rfl
  | directJob hpc => exact receive h _ _ hpc rfl rfl
  | installSlot hpc => exact session_replace h hpc rfl rfl rfl
  | clearJob hpc => exact session_replace h hpc rfl rfl rfl
  | dropJob hpc => exact session_replace h hpc rfl rfl rfl
  | installGeneration hpc =>
    apply session_publish hpc rfl rfl
    · exact Runner.pending_resume _
    · exact Runner.carried_resume _
  | clearGeneration hpc => exact session_publish hpc rfl rfl rfl rfl
  | dropGeneration hpc => exact session_publish hpc rfl rfl rfl rfl
  | installRound hpc =>
    rw [State.installRound_eq]
    exact session_quiet ⟨rfl, rfl, rfl, rfl⟩ hpc rfl rfl
  | installCoinbase hpc =>
    rw [State.installCoinbase_eq]
    exact session_quiet ⟨rfl, rfl, rfl, rfl⟩ hpc rfl rfl
  | wake hpc =>
    split_ifs
    · exact session_quiet ⟨rfl, rfl, rfl, rfl⟩ hpc rfl rfl
    · exact session_quiet ⟨rfl, rfl, rfl, rfl⟩ hpc rfl rfl
  | ignore hpc => exact .refl
  | emitShare hpc =>
    rw [State.emit_eq]
    exact session_quiet ⟨rfl, rfl, rfl, rfl⟩ hpc rfl rfl
  | noConnection hpc | poolError hpc =>
    rcases hpc with hpc | hpc
    · exact session_quiet ⟨rfl, rfl, rfl, rfl⟩ hpc rfl rfl
    · exact session_quiet ⟨rfl, rfl, rfl, rfl⟩ hpc rfl rfl
  | directError hpc =>
    rcases hpc with hpc | ⟨height, hpc⟩
    · exact session_quiet ⟨rfl, rfl, rfl, rfl⟩ hpc rfl rfl
    · exact session_quiet ⟨rfl, rfl, rfl, rfl⟩ hpc rfl rfl
  | connected hpc | configured hpc | openConnection hpc | login hpc | loginError hpc
  | writeEndpoint hpc | timeout hpc | keepalive hpc | share hpc | health hpc
  | keepTemplate hpc | enrich hpc | finishShare hpc | countShare hpc
  | loadSubmitted hpc | loadAccepted hpc | loadRejected hpc | closePool hpc | closeOther hpc
  | closeDirect hpc | clearCoinbase hpc | forgetCoinbase hpc | forgetMempool hpc
  | forgetPeers hpc | ended hpc =>
    exact session_quiet ⟨rfl, rfl, rfl, rfl⟩ hpc rfl rfl

end Publishes

namespace Received
variable {state : State} {r : Runner} {session : Session}

theorem init : (System.init n config).Received where
  serial _ h := nomatch h
  carried _ h := nomatch h

theorem congr (h : s.Received) (hreceived : s'.state.history.received = s.state.history.received)
    (hrunner : s'.runner = s.runner) : s'.Received where
  serial arc harc := by
    rw [hreceived] at harc ⊢
    exact h.serial arc harc
  carried arc harc := by
    rw [hrunner] at harc
    rw [hreceived]
    exact h.carried arc harc

theorem quiet (h : s.Received) (hreceived : state.history.received = s.state.history.received)
    (hpc : s.runner.session = session)
    (hcarried : r.session.carried = none ∨ r.session.carried = session.carried) :
    Received { s with state, runner := r } where
  serial arc harc := by
    rw [hreceived] at harc ⊢
    exact h.serial arc harc
  carried arc harc := by
    rw [hreceived]
    rcases hcarried with hnone | hsame
    · exact nomatch hnone.symm.trans harc
    · exact h.carried arc (by rw [hpc, ← hsame, harc])

theorem receive (h : s.Received) (job : Job) (origin : Option ℕ) {role : Role}
    {gate : RandomxMemoryGate} : Received { s with
      state := (s.state.receive job origin).2
      runner := ⟨.installRound role (s.state.receive job origin).1, gate⟩ } where
  serial arc harc := by
    have hlength : (s.state.receive job origin).2.history.received.length =
        s.state.history.received.length + 1 := by simp [State.receive]
    rw [hlength]
    rcases List.mem_append.1 harc with hold | hnew
    · exact (h.serial arc hold).trans (Nat.lt_succ_self _)
    · cases List.mem_singleton.1 hnew
      exact Nat.lt_succ_self _
  carried arc harc := by
    cases harc
    exact List.mem_append_right _ (List.mem_singleton_self _)

theorem runner {guards : Guards} {e : SessionEvent} (h : s.Received)
    (hmove : Runner.Move params config n guards s.state s.runner e state r) :
    Received { s with state, runner := r } := by
  cases hmove with
  | poolJob | directJob => exact h.receive _ _
  | ignore => exact h
  | wake hpc =>
    split_ifs
    · exact h.quiet rfl hpc (.inl rfl)
    · exact h.quiet rfl hpc (.inl rfl)
  | installRound hpc =>
    rw [State.installRound_eq]
    exact h.quiet rfl hpc (.inr rfl)
  | installCoinbase hpc =>
    rw [State.installCoinbase_eq]
    exact h.quiet rfl hpc (.inr rfl)
  | emitShare hpc =>
    rw [State.emit_eq]
    exact h.quiet rfl hpc (.inl rfl)
  | installGeneration hpc => exact h.quiet rfl hpc (.inl (Runner.carried_resume _))
  | _ => exact h.quiet rfl rfl (.inl rfl)

end Received

theorem publication_init :
    (System.init n config).publication = .initial (Fin n) (Option (Fin n)) ArcJob := by
  have hpending : (System.init n config).publication.pending = fun _ => none := by
    funext writer
    cases writer <;> rfl
  rw [Publication.State.initial, ← hpending]
  simp [publication, System.init, Worker.reader, Worker.start, Pc.loaded]

/-- The job slot is a publication: what led to the state are steps of one. -/
structure Linked (s : System n) : Prop where
  received : s.Received
  published : Relation.ReflTransGen Publication.Step
    (.initial (Fin n) (Option (Fin n)) ArcJob) s.publication

namespace Linked

theorem init : (System.init n config).Linked where
  received := .init
  published := by rw [publication_init]

theorem extend (h : s.Linked) (hreceived : s'.Received) (hpublishes : s.Publishes s') :
    s'.Linked where
  received := hreceived
  published := h.published.trans hpublishes.to_reflTransGen

theorem step {a : Action n} (h : s.Linked) (hstep : s.step params config a = some s') :
    s'.Linked := by
  cases a with
  | worker w e =>
    obtain ⟨x, hx, rfl⟩ := Option.map_eq_some_iff.1 hstep
    have hmove := Worker.step_moves hx
    exact h.extend (h.received.congr hmove.received rfl) (.worker hmove)
  | session e =>
    obtain ⟨x, hx, rfl⟩ := Option.map_eq_some_iff.1 hstep
    have hmove := Runner.step_moves hx
    exact h.extend (h.received.runner hmove) (.runner h.received hmove)
  | reporter bits =>
    obtain ⟨x, hx, rfl⟩ := Option.map_eq_some_iff.1 hstep
    have hhistory : x.1.history = s.state.history := by rw [Reporter.step_state hx]
    have hjob : x.1.job = s.state.job := by rw [Reporter.step_state hx]
    have hsame : ({ s with state := x.1, reporter := x.2 } : System n).publication =
        s.publication := by simp only [publication, hhistory, hjob]
    refine ⟨h.received.congr (congrArg _ hhistory) rfl, ?_⟩
    rw [hsame]
    exact h.published

theorem reachable (h : s.Reachable params config) : s.Linked :=
  Runs.Invariant.reachable (fun _ _ _ => Linked.step) Linked.init h

theorem inv (h : s.Linked) : Publication.Inv s.publication :=
  Publication.Inv.initial.steps h.published

/-- A job that a worker holds was received. -/
theorem held (h : s.Linked) {w : Fin n} {arc : ArcJob} (harc : (s.workers w).job = some arc) :
    arc ∈ s.state.history.received :=
  (h.inv.value_used w arc harc).1

end Linked
end System
end XusMiner.Engine

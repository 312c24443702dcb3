import XusMiner.Engine.Connections
import XusMiner.Engine.JobSlot

namespace XusMiner.Engine
open ByteCodec

/-- The connection a worker has taken to submit on. -/
def Pc.target : Pc → Option ℕ
  | .reserve c .. | .write c .. => some c
  | _ => none

def Pc.readsConnection : Pc → Bool
  | .readConnection .. => true
  | _ => false

/-- A submit names a job that came over the connection it was written to. -/
def Sent.Returned (received : List ArcJob) (sent : Sent) : Prop :=
  ∃ arc ∈ received, arc.origin = some sent.connection ∧ ∃ fields,
    sent.message.get "params" = some fields ∧ fields.get "job_id" = some (.string arc.job.id)

namespace Worker
variable {params : Params} {w : ℕ} {locks : Locks} {s s' : State} {wk wk' : Worker}

/-- The job at hand came over the connection that was taken. -/
def Bound (wk : Worker) : Prop :=
  ∀ c, wk.pc.target = some c → ∀ arc, wk.job = some arc → arc.origin = some c

theorem Bound.of_none (h : wk.pc.target = none) : wk.Bound :=
  fun _ hc => nomatch h.symm.trans hc

theorem Move.bound (hmove : Move params w locks s wk s' wk') (h : wk.Bound)
    (hread : wk.pc.readsConnection → ∀ c, s.connection = some c → ∀ arc, wk.job = some arc →
      arc.origin = some c) :
    wk'.Bound ∧ ∀ sent ∈ s'.history.sent, sent ∈ s.history.sent ∨
      wk.job = some sent.held ∧ sent.held.origin = some sent.connection := by
  cases hmove with
  | readConnection hpc hlock hc =>
    refine ⟨?_, fun _ hsent => .inl hsent⟩
    rintro c ⟨⟩ arc harc
    exact hread (by rw [hpc]; rfl) _ hc arc harc
  | reserve hpc =>
    refine ⟨?_, fun _ hsent => .inl hsent⟩
    rintro c ⟨⟩ arc harc
    exact h _ (by rw [hpc]; rfl) arc harc
  | write hpc harc =>
    refine ⟨.of_none rfl, ?_⟩
    intro sent hsent
    rcases List.mem_append.1 hsent with hold | hnew
    · exact .inl hold
    · cases List.mem_singleton.1 hnew
      exact .inr ⟨harc, h _ (by rw [hpc]; rfl) _ harc⟩
  | current =>
    refine ⟨.of_none ?_, fun _ hsent => .inl hsent⟩
    rcases pc_enterBatch wk with hpc | hpc <;> rw [hpc] <;> rfl
  | readJob =>
    refine ⟨.of_none ?_, fun _ hsent => .inl hsent⟩
    rcases pc_readJob wk w s _ with hpc | hpc <;> rw [hpc] <;> rfl
  | submitBlock reply =>
    refine ⟨.of_none ?_, fun _ hsent => .inl hsent⟩
    rcases pc_submitBlock params w s wk _ reply with hpc | hpc <;> rw [hpc] <;> rfl
  | emitShare =>
    rw [State.emit_eq]
    exact ⟨.of_none rfl, fun _ hsent => .inl hsent⟩
  | recordRound =>
    rw [State.recordRoundHashes_eq]
    exact ⟨.of_none rfl, fun _ hsent => .inl hsent⟩
  | _ => exact ⟨.of_none rfl, fun _ hsent => .inl hsent⟩

end Worker

theorem Runner.Move.received_subset {params : Params} {config : Config} {workers : ℕ}
    {guards : Guards} {s s' : State} {r r' : Runner} {e : SessionEvent}
    (h : Move params config workers guards s r e s' r') :
    s.history.received ⊆ s'.history.received := by
  cases h with
  | poolJob | directJob => exact List.subset_append_left _ _
  | installRound =>
    rw [State.installRound_eq]
    exact List.Subset.refl _
  | installCoinbase =>
    rw [State.installCoinbase_eq]
    exact List.Subset.refl _
  | emitShare =>
    rw [State.emit_eq]
    exact List.Subset.refl _
  | _ => exact List.Subset.refl _

namespace System
variable {n : ℕ} {params : Params} {config : Config} {s s' : System n}

/-- Whenever a worker takes the installed connection to submit on, no connection has been opened
since its job arrived. -/
def Undisturbed (s : System n) : Action n → Prop
  | .worker w _ => (s.workers w).pc.readsConnection → s.state.connection ≠ none →
      (s.workers w).job.map (·.opened) = some s.state.connections.length
  | _ => True

instance (s : System n) (a : Action n) : Decidable (Undisturbed s a) :=
  match a with
  | .worker _ _ => inferInstanceAs (Decidable (_ → _ → _ = _))
  | .session _ | .reporter _ => isTrue trivial

structure Returns (params : Params) (config : Config) (s : System n) : Prop where
  reachable : s.Reachable params config
  workers : ∀ w, (s.workers w).Bound
  sent : ∀ sent ∈ s.state.history.sent, sent.held ∈ s.state.history.received ∧
    sent.held.origin = some sent.connection

namespace Returns

theorem init : (System.init n config).Returns params config where
  reachable := .refl _
  workers _ := .of_none rfl
  sent _ h := nomatch h

theorem step {a : Action n} (h : s.Returns params config) (hundisturbed : s.Undisturbed a)
    (hstep : s.step params config a = some s') : s'.Returns params config := by
  have hreach : s'.Reachable params config := h.reachable.tail hstep
  cases a with
  | worker w e =>
    obtain ⟨x, hx, rfl⟩ := Option.map_eq_some_iff.1 hstep
    have hmove := Worker.step_moves hx
    have hlinked := Linked.reachable h.reachable
    obtain ⟨hbound, hsent⟩ := hmove.bound (h.workers w) (by
      intro hpc c hc arc harc
      have hopened := hundisturbed hpc (by rw [hc]; exact Option.some_ne_none c)
      rw [harc, Option.map_some, Option.some_inj] at hopened
      exact (attached h.reachable).origin_eq (hlinked.held harc) hopened hc)
    refine ⟨hreach, ?_, ?_⟩
    · intro v
      by_cases hv : v = w
      · subst hv
        simpa [setWorker] using hbound
      · simpa [setWorker, hv] using h.workers v
    · intro sent hmem
      have hreceived : x.1.history.received = s.state.history.received := hmove.received
      rw [show (s.setWorker w x.1 x.2).state = x.1 from rfl, hreceived]
      rcases hsent sent hmem with hold | ⟨hheld, horigin⟩
      · exact h.sent sent hold
      · exact ⟨hlinked.held hheld, horigin⟩
  | session e =>
    obtain ⟨x, hx, rfl⟩ := Option.map_eq_some_iff.1 hstep
    have hmove := Runner.step_moves hx
    refine ⟨hreach, h.workers, ?_⟩
    intro sent hmem
    rw [hmove.logs_eq.2.1] at hmem
    exact ⟨hmove.received_subset (h.sent sent hmem).1, (h.sent sent hmem).2⟩
  | reporter bits =>
    obtain ⟨x, hx, rfl⟩ := Option.map_eq_some_iff.1 hstep
    refine ⟨hreach, h.workers, ?_⟩
    rw [Reporter.step_state hx]
    exact h.sent

end Returns

/-- Each submit goes back to where its job came from, as long as no worker is overtaken by a
reconnection. -/
theorem shares_return {as : List (Action n)}
    (hundisturbed : Runs.StepsSatisfy (step params config) Undisturbed (System.init n config) as)
    (hrun : run params config (System.init n config) as = some s) :
    ∀ sent ∈ s.state.history.sent, sent.Returned s.state.history.received := by
  have hreturns : s.Returns params config :=
    hundisturbed.run (fun _ _ _ => Returns.step) Returns.init hrun
  intro sent hsent
  obtain ⟨hheld, horigin⟩ := hreturns.sent sent hsent
  obtain ⟨nonce, digest, -, hmessage⟩ := (Genuine.reachable ⟨as, hrun⟩).sent sent hsent
  refine ⟨sent.held, hheld, horigin, _, hmessage ▸ get_params_submitMessage .., ?_⟩
  simp [Value.get_json, List.lookup_cons]

theorem shares_return_oneShare : ∃ s : System 1,
    System.run plainParams poolConfig (System.init 1 poolConfig)
      (openPool "a" ++ solveShare 0 ++ writeShare 0) = some s ∧
    s.state.history.sent.length = 1 ∧
    ∀ sent ∈ s.state.history.sent, sent.Returned s.state.history.received := by
  have hevaluated : ((System.run plainParams poolConfig (System.init 1 poolConfig)
      (openPool "a" ++ solveShare 0 ++ writeShare 0)).map
        fun s => s.state.history.sent.length) = some 1 ∧
      Runs.StepsSatisfy (step plainParams poolConfig) Undisturbed (System.init 1 poolConfig)
        (openPool "a" ++ solveShare 0 ++ writeShare 0) := by decide +kernel
  obtain ⟨hsome, hundisturbed⟩ := hevaluated
  obtain ⟨s, hrun, hlength⟩ := Option.map_eq_some_iff.1 hsome
  exact ⟨s, hrun, hlength, shares_return hundisturbed hrun⟩

/-- The pool hangs up, and the session thread clears the connection and logs in anew. -/
def reconnect : List (Action n) :=
  [.session (.message (.ok none) (.ok (0, 0))), .session .tick, .session .tick, .session .tick,
    .session .tick, .session .tick] ++ (openPool "b").take 5

/-- All of it between the check of the generation and the read of the connection. -/
theorem share_astray : ∃ s : System 1,
    System.run plainParams poolConfig (System.init 1 poolConfig)
      (openPool "a" ++ solveShare 0 ++ reconnect ++ writeShare 0) = some s ∧
    ∃ sent ∈ s.state.history.sent, ¬ sent.Returned s.state.history.received := by
  have hsome : ((System.run plainParams poolConfig (System.init 1 poolConfig)
      (openPool "a" ++ solveShare 0 ++ reconnect ++ writeShare 0)).map fun s =>
        (s.state.history.sent.map (·.connection), s.state.history.received.map (·.origin))) =
      some ([1], [some 0]) := by decide +kernel
  obtain ⟨s, hrun, hs⟩ := Option.map_eq_some_iff.1 hsome
  obtain ⟨hconnections, horigins⟩ := Prod.mk.inj hs
  have hmem : 1 ∈ s.state.history.sent.map (·.connection) := by rw [hconnections]; decide
  obtain ⟨sent, hsent, hconnection⟩ := List.mem_map.1 hmem
  refine ⟨s, hrun, sent, hsent, ?_⟩
  rintro ⟨arc, harc, horigin, -⟩
  have horigin : some 1 ∈ s.state.history.received.map (·.origin) :=
    List.mem_map.2 ⟨arc, harc, hconnection ▸ horigin⟩
  rw [horigins] at horigin
  exact absurd horigin (by decide)

end System
end XusMiner.Engine

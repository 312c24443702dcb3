import XusMiner.Gui.Hearing
import XusMiner.Gui.ReaderThreads

namespace XusMiner.Gui

/-- The environment of a poll with what its receives found. -/
def PollEnv.hearing (env : PollEnv) (clock : ℕ → ℕ)
    (drained : List ProcessMessage × Bool × OutputQueue) : PollEnv :=
  { env with
    messages := drained.1.mapIdx fun k message => (clock k, message)
    disconnected := drained.2.1 }

namespace MinerApp

/-- The messages of a frame, applied one after the other. -/
def applyEntries (platform : Platform) (clock : ℕ → ℕ) (entries : List (Stream × ProcessMessage))
    (app : MinerApp) : MinerApp :=
  (entries.mapIdx fun k entry => (clock k, entry.2)).foldl (applyProcessMessage platform) app

/-- A poll, once its messages are applied. -/
def finishPoll (platform : Platform) (env : PollEnv) (hadOutputReceiver disconnected : Bool)
    (app : MinerApp) : MinerApp :=
  (((((app.pollChild env).pollObservationFailure platform env disconnected).pollQuarantined
    env).pollExit platform env disconnected).pollReaders env hadOutputReceiver
      disconnected).pollRestart platform env

theorem pollProcess_eq (platform : Platform) (app : MinerApp) (env : PollEnv) :
    app.pollProcess platform env = (app.drainProcessMessages platform env).1.finishPoll platform env
      app.receiver (app.drainProcessMessages platform env).2 := rfl

theorem engineFatalSeen_applyEntries {platform : Platform} {app : MinerApp} {clock : ℕ → ℕ}
    {entries : List (Stream × ProcessMessage)}
    (h : app.engineFatalSeen = true ∨ ∃ entry ∈ entries, Fatal entry.2) :
    (app.applyEntries platform clock entries).engineFatalSeen = true := by
  apply engineFatalSeen_foldl
  refine h.imp_right fun ⟨entry, hmem, hfatal⟩ => ?_
  obtain ⟨k, hk, rfl⟩ := List.mem_iff_getElem.1 hmem
  exact ⟨(clock k, entries[k].2), List.mem_mapIdx.2 ⟨k, hk, rfl⟩, hfatal⟩

end MinerApp

open BoundedQueue

variable {platform : Platform} {parse : String → Except String Value}
  {pipes : ℕ → Stream → BufReader} {w w' : Window}

/-- What the receives of a frame make of the queue of the engine. -/
def Window.drained (parse : String → Except String Value) (w : Window)
    (schedule : List (List Stream)) : List ProcessMessage × Bool × OutputQueue :=
  drain (turn parse true) maxProcessMessagesPerFrame schedule (w.queues (w.app.spawned - 1))

theorem Window.poll_of_receiver (hreceiver : w.app.receiver = true) (env : PollEnv)
    (clock : ℕ → ℕ) (schedule : List (List Stream)) :
    w.poll platform parse env clock schedule =
      ⟨w.app.pollProcess platform (env.hearing clock (w.drained parse schedule)),
        Function.update w.queues (w.app.spawned - 1) (w.drained parse schedule).2.2⟩ := by
  rw [poll, if_pos hreceiver]
  rfl

theorem taken_read (w : Window) (serial n : ℕ) (stream : Stream) :
    ((w.read parse serial stream).queues n).taken = (w.queues n).taken := by
  by_cases hn : n = serial
  · subst hn
    simp [Window.read, Window.turn]
  · simp [Window.read, Function.update_of_ne hn]

theorem Window.drained_spec (parse : String → Except String Value) (w : Window)
    (schedule : List (List Stream)) :
    Drained (w.queues (w.app.spawned - 1)) (w.drained parse schedule) := by
  have hturn : ∀ stream (q : OutputQueue), (Window.turn parse true stream q).taken = q.taken :=
    fun stream q => taken_turn true stream q
  exact drained_drain hturn _ _ _

/-- What a frame takes from the queue goes into the app, in the order in which it is taken. -/
theorem Window.takes (platform : Platform) (parse : String → Except String Value)
    (hreceiver : w.app.receiver = true) (env : PollEnv) (clock : ℕ → ℕ)
    (schedule : List (List Stream)) : ∃ entries,
      (w.drained parse schedule).2.2.taken = (w.queues (w.app.spawned - 1)).taken ++ entries ∧
      (w.app.drainProcessMessages platform (env.hearing clock (w.drained parse schedule))).1 =
        w.app.applyEntries platform clock entries := by
  obtain ⟨entries, htaken, hitems⟩ := (w.drained_spec parse schedule).taken
  have hlength : (w.drained parse schedule).1.length ≤ maxProcessMessagesPerFrame :=
    length_drain _ _ _
  have hmessages : (entries.map Prod.snd).mapIdx (fun k message => (clock k, message)) =
      entries.mapIdx fun k entry => (clock k, entry.2) :=
    List.ext_getElem (by simp) fun k _ _ => by simp
  refine ⟨entries, htaken, ?_⟩
  rw [MinerApp.drainProcessMessages, if_pos hreceiver]
  dsimp only [PollEnv.hearing]
  rw [List.take_of_length_le (by simpa using hlength), ← hitems, hmessages]
  rfl

/-- A frame took `entries` from the queue of the engine that is listened to, and applied them. -/
structure AppliesTaken (platform : Platform) (env : PollEnv) (clock : ℕ → ℕ) (w w' : Window)
    (entries : List (Stream × ProcessMessage)) (disconnected : Bool) : Prop where
  taken : (fun n => (w'.queues n).taken) = Function.update (fun n => (w.queues n).taken)
    (w.app.spawned - 1) ((w.queues (w.app.spawned - 1)).taken ++ entries)
  idle : w.app.receiver = false → entries = []
  app : w'.app = (w.app.applyEntries platform clock entries).finishPoll platform env w.app.receiver
    disconnected

theorem Window.poll_appliesTaken (platform : Platform) (parse : String → Except String Value)
    (w : Window) (env : PollEnv) (clock : ℕ → ℕ) (schedule : List (List Stream)) :
    ∃ entries disconnected, AppliesTaken platform env clock w
      (w.poll platform parse env clock schedule) entries disconnected := by
  by_cases hreceiver : w.app.receiver = true
  · obtain ⟨entries, htaken, happlied⟩ := w.takes platform parse hreceiver env clock schedule
    rw [Window.poll_of_receiver hreceiver]
    refine ⟨entries, (w.app.drainProcessMessages platform
      (env.hearing clock (w.drained parse schedule))).2, ?_, fun hidle => ?_, ?_⟩
    · -- only the queue of the engine that is listened to has given anything
      funext n
      by_cases hn : n = w.app.spawned - 1
      · simp only [hn, Function.update_self]
        exact htaken
      · simp only [Function.update_of_ne hn]
    · exact absurd (hidle.symm.trans hreceiver) Bool.false_ne_true
    · rw [MinerApp.pollProcess_eq, happlied]
      rfl
  · -- nothing is listened to, so the frame applies no message
    have hnone : w.app.drainProcessMessages platform env = (w.app, true) := if_neg hreceiver
    rw [Window.poll, if_neg hreceiver]
    refine ⟨[], true, ?_, fun _ => rfl, ?_⟩
    · rw [List.append_nil, Function.update_eq_self]
    · rw [MinerApp.pollProcess_eq, hnone]
      rfl

/-- What `actions` make of the app, and which messages of each engine went into it: a frame applies
the entries it takes from the engine that is listened to, and nothing else applies any. -/
inductive Applies (platform : Platform) (workers : UInt64) :
    List Action → MinerApp → (ℕ → List (Stream × ProcessMessage)) → Prop
  | launched : Applies platform workers [] { workers := workers } fun _ => []
  | read {actions : List Action} {app : MinerApp} {applied : ℕ → List (Stream × ProcessMessage)}
      (h : Applies platform workers actions app applied) (serial : ℕ) (stream : Stream) :
      Applies platform workers (actions ++ [.read serial stream]) app applied
  | operate {actions : List Action} {app : MinerApp} {applied : ℕ → List (Stream × ProcessMessage)}
      (h : Applies platform workers actions app applied) (operation : Operation) :
      Applies platform workers (actions ++ [.operate operation]) (app.step platform operation)
        applied
  | poll {actions : List Action} {app : MinerApp} {applied : ℕ → List (Stream × ProcessMessage)}
      (h : Applies platform workers actions app applied) (env : PollEnv) (clock : ℕ → ℕ)
      (schedule : List (List Stream)) (entries : List (Stream × ProcessMessage))
      (disconnected : Bool) (hentries : app.receiver = false → entries = []) :
      Applies platform workers (actions ++ [.poll env clock schedule])
        ((app.applyEntries platform clock entries).finishPoll platform env app.receiver
          disconnected)
        (Function.update applied (app.spawned - 1) (applied (app.spawned - 1) ++ entries))

variable {workers : UInt64} {actions : List Action}

theorem Applies.frame (h : Applies platform workers actions w.app fun n => (w.queues n).taken)
    (env : PollEnv) (clock : ℕ → ℕ) (schedule : List (List Stream)) :
    Applies platform workers (actions ++ [.poll env clock schedule])
      (w.poll platform parse env clock schedule).app
      fun n => ((w.poll platform parse env clock schedule).queues n).taken := by
  obtain ⟨entries, disconnected, htaken, hidle, happ⟩ :=
    w.poll_appliesTaken platform parse env clock schedule
  rw [happ, htaken]
  exact h.poll env clock schedule entries disconnected hidle

/-- What is taken from the queues is what the run applies. -/
theorem applies_of_run (hrun : Runs.run (Window.step platform parse)
    (.launched { workers := workers } pipes) actions = some w) :
    Applies platform workers actions w.app fun n => (w.queues n).taken := by
  -- by the last action of the run, as a frame applies its messages after all those before
  induction actions using List.reverseRecOn generalizing w with
  | nil =>
    obtain rfl := Option.some.inj hrun
    exact .launched
  | append_singleton actions action ih =>
    obtain ⟨v, hv, hlast⟩ := Runs.run_prefix hrun
    obtain ⟨w', hstep, hnil⟩ := Runs.run_cons_eq_some.1 hlast
    obtain rfl := Option.some.inj hnil
    have happlies := ih hv
    cases action with
    | read serial stream =>
      unfold Window.step at hstep
      dsimp only at hstep
      split_ifs at hstep
      obtain rfl := Option.some.inj hstep
      simp only [taken_read]
      exact happlies.read serial stream
    | operate operation =>
      cases operation with
      | pollProcess | applyTelemetry | automaticRestart => cases hstep
      | start | stop | staleTelemetry | editWorkers =>
        obtain rfl := Option.some.inj hstep
        exact happlies.operate _
    | poll env clock schedule =>
      obtain rfl := Option.some.inj hstep
      exact happlies.frame env clock schedule

end XusMiner.Gui

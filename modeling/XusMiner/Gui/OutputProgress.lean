import XusMiner.Gui.FinalOutput

namespace XusMiner.Gui
namespace MinerApp

variable {platform : Platform} {app app' : MinerApp} {starts serial : ℕ}

/-- An engine that was spawned and is not listened to any more. -/
def GivenUp (serial : ℕ) (app : MinerApp) : Prop :=
  serial < app.spawned ∧ (app.receiver = true → app.spawned ≠ serial + 1)

theorem GivenUp.rehears (h : GivenUp serial app) (hrehears : Rehears app app') :
    GivenUp serial app' := by
  obtain ⟨hless, hother⟩ := h
  cases hrehears with
  | kept hreceiver hspawned _ =>
    rw [← hspawned] at hless hother
    exact ⟨hless, fun hreading => hother (hreceiver hreading)⟩
  | started _ hle hspawned =>
    refine ⟨hless.trans_le hle, fun hreading => ?_⟩
    have hnew := hspawned hreading
    omega

theorem GivenUp.pollProcess (h : GivenUp serial app) (hbudgeted : Budgeted starts app)
    (hreceived : Received app) (env : PollEnv) : GivenUp serial (app.pollProcess platform env) := by
  have hreceiver : (app.drainProcessMessages platform env).1.receiver = app.receiver :=
    congrArg (fun x => x.2.2.2) (stages_drainProcessMessages platform app env)
  have hdrained : GivenUp serial (app.drainProcessMessages platform env).1 := by
    unfold GivenUp
    rw [spawned_drainProcessMessages, hreceiver]
    exact h
  have hpolled := polled_beforeRestart platform hbudgeted hreceived env
  have hbefore := @Budgeted.beforeRestart platform app starts hbudgeted env
  exact (hdrained.rehears hpolled.kept.rehears).rehears
    (rehears_pollRestart platform hbefore hpolled.received env).1

theorem pollExit_waits (app : MinerApp) (env : PollEnv) :
    app.pollExit platform env false = app := by
  unfold pollExit
  split <;> rfl

theorem receiver_pollExit (hexit : app.pendingExit.isSome) (env : PollEnv) :
    (app.pollExit platform env true).receiver = false := by
  obtain ⟨status, hstatus⟩ := Option.isSome_iff_exists.1 hexit
  have hhearing := hearing_finishExitedChild platform { app with
    pendingExit := none, receiver := false, readerThreads := 0 } status env.exitFinishedAt
  unfold pollExit
  rw [hstatus]
  exact congrArg (fun x => x.1.2.2.2) hhearing

/-- The output of an engine that exited is read until it is complete, and no longer. -/
theorem exit_beforeRestart (platform : Platform) (h : Budgeted starts app)
    (hexit : app.pendingExit.isSome) (env : PollEnv) :
    ((app.drainProcessMessages platform env).2 = false →
      (app.beforeRestart platform env).stages = app.stages) ∧
    ((app.drainProcessMessages platform env).2 = true →
      (app.beforeRestart platform env).receiver = false) := by
  have hstages := stages_drainProcessMessages platform app env
  have hpending : (app.drainProcessMessages platform env).1.pendingExit.isSome := by
    rw [show (app.drainProcessMessages platform env).1.pendingExit = app.pendingExit from
      congrArg (fun x => x.2.1) hstages]
    exact hexit
  have hfailure : (app.drainProcessMessages platform env).1.pendingObservationFailure = none :=
    (congrArg (fun x => x.2.2.1) hstages).trans (h.exit hexit).2
  unfold beforeRestart
  generalize app.drainProcessMessages platform env = drained at *
  have hchild : drained.1.pollChild env = drained.1 := if_pos (.inl hpending)
  have hobserved : drained.1.pollObservationFailure platform env drained.2 = drained.1 := by
    unfold pollObservationFailure
    rw [hfailure]
  have hquarantined := stages_pollQuarantined drained.1 env
  dsimp only
  rw [hchild, hobserved]
  refine ⟨fun hmore => ?_, fun hcomplete => ?_⟩
  · rw [stages_pollReaders, hmore, pollExit_waits, hquarantined, hstages]
  · have hstill : (drained.1.pollQuarantined env).pendingExit.isSome := by
      rw [show (drained.1.pollQuarantined env).pendingExit = drained.1.pendingExit from
        congrArg (fun x => x.2.1) hquarantined]
      exact hpending
    rw [hcomplete]
    exact (congrArg (fun x => x.2.2.2) (stages_pollReaders _ env _ _)).trans
      (receiver_pollExit hstill env)

end MinerApp

open BoundedQueue

variable {platform : Platform} {parse : String → Except String Value}
  {pipes : ℕ → Stream → BufReader} {w w' : Window} {serial : ℕ} {action : Action}

/-- Bounds the frames that are left until an engine's output is complete. -/
def Window.unheard (w : Window) (serial : ℕ) : ℕ :=
  (w.queues serial).potential fun reader => reader.items.length

/-- A frame before whose first receive both readers have a turn. -/
def Action.fair : Action → Bool
  | .poll _ _ schedule => ∀ stream, stream ∈ schedule.headD []
  | _ => false

/-- The engine exited, and its output is still read. -/
structure Leaving (w : Window) (serial : ℕ) : Prop where
  receives : w.receives serial = true
  exited : w.app.pendingExit.isSome

/-- The engine is let go, and all that its pipes gave was taken. -/
structure HeardOut (parse : String → Except String Value) (pipes : ℕ → Stream → BufReader)
    (serial : ℕ) (w : Window) : Prop where
  givenUp : w.app.GivenUp serial
  complete : ∀ stream, of stream (w.queues serial).taken = output parse stream (pipes serial stream)

theorem unheard_read (w : Window) (n : ℕ) (stream : Stream) :
    (w.read parse n stream).unheard serial ≤ w.unheard serial := by
  by_cases hn : serial = n
  · subst hn
    simp only [Window.unheard, Window.read, Function.update_self]
    exact (potential_turn _ readerStep_shrinks _ stream _).1
  · simp only [Window.unheard, Window.read, Function.update_of_ne hn]
    exact le_rfl

/-- One frame of an engine that exited: it is let go, or there is less left to read. -/
theorem Wired.leaving_poll (h : Wired parse pipes w) (hleaving : Leaving w serial) (env : PollEnv)
    (clock : ℕ → ℕ) (schedule : List (List Stream)) :
    HeardOut parse pipes serial (w.poll platform parse env clock schedule) ∨
      Leaving (w.poll platform parse env clock schedule) serial ∧
        (w.poll platform parse env clock schedule).unheard serial +
          (if (Action.poll env clock schedule).fair then 1 else 0) ≤ w.unheard serial := by
  obtain ⟨hreceiver, hspawned⟩ := Window.receives_iff.1 hleaving.receives
  obtain rfl : serial = w.app.spawned - 1 := by omega
  obtain ⟨starts, hbudgeted⟩ := h.budgeted
  have hall := h.all_taken hreceiver schedule
  have hprogress : (w.drained parse schedule).2.2.potential (fun reader => reader.items.length) ≤
        w.unheard (w.app.spawned - 1) ∧
      (0 < maxProcessMessagesPerFrame → (∀ stream, stream ∈ schedule.headD []) →
        (w.drained parse schedule).2.1 = false →
        (w.drained parse schedule).2.2.potential (fun reader => reader.items.length) <
          w.unheard (w.app.spawned - 1)) :=
    potential_drain readerStep_shrinks (by decide) _ schedule _
  rw [Window.poll_of_receiver hreceiver]
  generalize w.drained parse schedule = result at *
  have hdisconnected : (w.app.drainProcessMessages platform (env.hearing clock result)).2 =
      result.2.1 := MinerApp.disconnected_drainProcessMessages platform hreceiver _
  obtain ⟨hwaits, hends⟩ := MinerApp.exit_beforeRestart platform hbudgeted
    hleaving.exited (env.hearing clock result)
  have hpolled := MinerApp.polled_beforeRestart platform hbudgeted h.received
    (env.hearing clock result)
  have hbefore := @MinerApp.Budgeted.beforeRestart platform _ starts hbudgeted
    (env.hearing clock result)
  have hsame : (w.app.beforeRestart platform (env.hearing clock result)).spawned =
      w.app.spawned :=
    hpolled.kept.spawned.trans (MinerApp.spawned_drainProcessMessages platform w.app _)
  rw [hdisconnected] at hwaits hends
  -- either the exit is finished, and perhaps another engine started, or it waits for more output
  by_cases hcomplete : result.2.1 = true
  · left
    have hgiven : MinerApp.GivenUp (w.app.spawned - 1)
        (w.app.beforeRestart platform (env.hearing clock result)) := by
      refine ⟨by omega, fun hreading => ?_⟩
      exact absurd ((hends hcomplete).symm.trans hreading) Bool.false_ne_true
    refine ⟨hgiven.rehears (MinerApp.rehears_pollRestart platform hbefore hpolled.received _).1,
      fun stream => ?_⟩
    simp only [Function.update_self]
    exact hall hcomplete stream
  · right
    rw [Bool.not_eq_true] at hcomplete
    have hstages := hwaits hcomplete
    simp only [MinerApp.stages, Prod.mk.injEq] at hstages
    obtain ⟨-, hexit, -, hreading⟩ := hstages
    rw [hreceiver] at hreading
    have happ : w.app.pollProcess platform (env.hearing clock result) =
        w.app.beforeRestart platform (env.hearing clock result) :=
      MinerApp.pollRestart_of_receiver hbefore hreading _
    rw [happ]
    refine ⟨⟨Window.receives_iff.2 ⟨hreading, hsame.trans hspawned⟩, ?_⟩, ?_⟩
    · rw [hexit]
      exact hleaving.exited
    · simp only [Window.unheard, Function.update_self]
      split_ifs with hfair
      · exact hprogress.2 (by decide) (of_decide_eq_true hfair) hcomplete
      · exact hprogress.1

/-- One case for each action. -/
theorem Wired.leaving_step (h : Wired parse pipes w) (hleaving : Leaving w serial)
    (hstep : w.step platform parse action = some w') :
    HeardOut parse pipes serial w' ∨ Leaving w' serial ∧
      w'.unheard serial + (if action.fair then 1 else 0) ≤ w.unheard serial := by
  cases action with
  | read n stream =>
    unfold Window.step at hstep
    dsimp only at hstep
    split_ifs at hstep
    obtain rfl := Option.some.inj hstep
    exact .inr ⟨⟨hleaving.receives, hleaving.exited⟩, unheard_read w n stream⟩
  | operate operation =>
    have hoperates := h.operates hstep
    have hstages := hoperates.exit hleaving.exited
    simp only [MinerApp.stages, Prod.mk.injEq] at hstages
    obtain ⟨-, hexit, -, hreceiver⟩ := hstages
    obtain ⟨hreading, hspawned⟩ := Window.receives_iff.1 hleaving.receives
    right
    refine ⟨⟨Window.receives_iff.2 ⟨hreceiver.trans hreading, ?_⟩, ?_⟩, ?_⟩
    · -- the operator starts nothing while the output of an engine is read
      cases hoperates.rehears with
      | kept _ hsame _ => exact hsame.trans hspawned
      | started hidle _ _ => exact absurd (hidle.symm.trans hreading) Bool.false_ne_true
    · rw [hexit]
      exact hleaving.exited
    · unfold Window.unheard
      rw [hoperates.queues]
      exact le_rfl
  | poll env clock schedule =>
    obtain rfl := Option.some.inj hstep
    exact h.leaving_poll hleaving env clock schedule

/-- An engine that was let go stays so. -/
theorem Wired.heardOut_step (h : Wired parse pipes w) (hheard : HeardOut parse pipes serial w)
    (hstep : w.step platform parse action = some w') : HeardOut parse pipes serial w' := by
  obtain ⟨starts, hbudgeted⟩ := h.budgeted
  cases action with
  | read n stream =>
    unfold Window.step at hstep
    dsimp only at hstep
    split_ifs at hstep
    obtain rfl := Option.some.inj hstep
    refine ⟨hheard.givenUp, fun stream' => ?_⟩
    rw [taken_read]
    exact hheard.complete stream'
  | operate operation =>
    have hoperates := h.operates hstep
    refine ⟨hheard.givenUp.rehears hoperates.rehears, fun stream => ?_⟩
    rw [hoperates.queues]
    exact hheard.complete stream
  | poll env clock schedule =>
    obtain rfl := Option.some.inj hstep
    by_cases hreceiver : w.app.receiver = true
    · rw [Window.poll_of_receiver hreceiver]
      refine ⟨hheard.givenUp.pollProcess hbudgeted h.received _, fun stream => ?_⟩
      have hother : serial ≠ w.app.spawned - 1 := by
        obtain ⟨hless, hnot⟩ := hheard.givenUp
        have hne := hnot hreceiver
        omega
      simp only [Function.update_of_ne hother]
      exact hheard.complete stream
    · rw [Window.poll, if_neg hreceiver]
      exact ⟨hheard.givenUp.pollProcess hbudgeted h.received _, hheard.complete⟩

theorem Wired.leaving_run {actions : List Action} (h : Wired parse pipes w)
    (hleaving : Leaving w serial)
    (hrun : Runs.run (Window.step platform parse) w actions = some w') :
    HeardOut parse pipes serial w' ∨ Leaving w' serial ∧
      w'.unheard serial + actions.countP Action.fair ≤ w.unheard serial := by
  induction actions generalizing w with
  | nil =>
    obtain rfl := Option.some.inj hrun
    exact .inr ⟨hleaving, le_rfl⟩
  | cons action actions ih =>
    obtain ⟨next, hstep, hrest⟩ := Runs.run_cons_eq_some.1 hrun
    have hnext := Wired.step h hstep
    rcases h.leaving_step hleaving hstep with hheard | ⟨hstill, hless⟩
    · -- the rest of the run leaves it so
      have hkeeps : Runs.Invariant (Window.step platform parse)
          fun w => Wired parse pipes w ∧ HeardOut parse pipes serial w := by
        intro v action v' hv hstep'
        exact ⟨Wired.step hv.1 hstep', hv.1.heardOut_step hv.2 hstep'⟩
      exact .inl (hkeeps.run ⟨hnext, hheard⟩ hrest).2
    · rcases ih hnext hstill hrest with hheard | ⟨hleaving', hle⟩
      · exact .inl hheard
      · refine .inr ⟨hleaving', ?_⟩
        rw [List.countP_cons]
        omega

/-- The engine of the example exits before its readers have read anything. -/
def exitedWindow : Window := startedWindow.poll .unix parsesNothing (engineExits 0) id []

end XusMiner.Gui

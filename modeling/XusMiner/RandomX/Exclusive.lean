import XusMiner.RandomX.Workers

namespace XusMiner.RandomX
open ByteCodec

variable {n : Nat} {native : Native}

def Point.Keyed (key : Bytes) : Point → Prop
  | .initializing _ dataset | .fastVm dataset | .portableFastVm dataset _ => dataset.builtFrom = key
  | .lightVm _ _ cache _ | .portableLightVm _ cache _ _ => cache.builtFrom = key
  | _ => True

/-- Every slot holds a machine backed by what was built from the slot's key. -/
def Worker.SlotsKeyed (wk : Worker) : Prop :=
  ∀ mining key engine, wk.slot mining = some (key, engine) → engine.vm.backing.builtFrom = key

def Worker.Keyed (wk : Worker) : Prop :=
  ∀ call point, wk.running = some (call, point) → point.Keyed call.key ∧
    (point = .hashing → ∀ key engine, wk.slot call.mining = some (key, engine) → key = call.key)

/-- A worker relative to the shared state: its owners point at the manager's own dataset, and
it builds only under the mutex. -/
structure WorkerOk (manager : Option SharedDatasetState) (lock : Option (Fin n)) (w : Fin n)
    (wk : Worker) : Prop where
  attached : ∀ d ∈ wk.handles, held manager = some d
  locked : wk.holdsLock = true → lock = some w
  slots : wk.SlotsKeyed
  keyed : wk.Keyed

/-- The digest is the native hash under the call's key, by a machine built from that key. -/
def Hashed.For (native : Native) (call : Call) (hashed : Hashed) : Prop :=
  hashed.vm.backing.builtFrom = call.key ∧
    hashed.digest = native.calculateHash call.key call.input

structure Inv (native : Native) (s : State n) : Prop where
  manager : WellKeyed s.fastDataset
  light : LightKeyed s.lightCache
  building : s.lock ≠ none → held s.fastDataset = none
  workers : ∀ w, WorkerOk s.fastDataset s.lock w (s.workers w)
  granted : ∀ g ∈ s.granted, g.2.builtFrom = g.1
  returned : ∀ r ∈ s.returned, ∀ hashed, r.result = .ok hashed → hashed.For native r.call

@[simp] theorem slot_setSlot (wk : Worker) (m m' : Bool) (x : Slot) :
    (wk.setSlot m x).slot m' = if m' = m then x else wk.slot m' := by
  cases m <;> cases m' <;> rfl

theorem mem_handles {wk : Worker} {d : Dataset} :
    d ∈ wk.handles ↔ d ∈ wk.locals ∨ ∃ m, d ∈ slotHandles (wk.slot m) := by
  simp [Worker.handles, Worker.slot]

theorem handles_eq_nil_of_held_none {manager : Option SharedDatasetState} {lock : Option (Fin n)}
    {w : Fin n} {wk : Worker} (h : WorkerOk manager lock w wk) (hm : held manager = none) :
    wk.handles = [] := by
  apply List.eq_nil_iff_forall_not_mem.2
  intro d hd
  have := h.attached d hd
  rw [hm] at this
  cases this

/-- The reference-count test: one owner, and it is the manager, so no worker owns anything. -/
theorem Inv.unowned {s : State n} (h : Inv native s) {d : Dataset}
    (hd : held s.fastDataset = some d)
    (hcount : s.strongCount d ≤ 1) (w : Fin n) : (s.workers w).handles = [] := by
  apply List.eq_nil_iff_forall_not_mem.2
  intro d' hd'
  have heq : d' = d := by
    have := (h.workers w).attached d' hd'
    rw [hd] at this
    exact (Option.some.inj this).symm
  subst heq
  have hmem : d' ∈ (List.finRange n).flatMap fun w => (s.workers w).handles :=
    List.mem_flatMap.2 ⟨w, List.mem_finRange w, hd'⟩
  have hpos := List.count_pos_iff.2 hmem
  unfold State.strongCount State.handles at hcount
  rw [hd, List.count_append] at hcount
  simp at hcount
  omega

theorem Inv.setLightCache {s : State n} (h : Inv native s) {m : Option SharedLightCacheState}
    (hm : LightKeyed m) : Inv native { s with lightCache := m } :=
  ⟨h.manager, hm, h.building, h.workers, h.granted, h.returned⟩

/-- A step of one worker: the shared state moves to `m` and `l`, the others stay as they are. -/
theorem Inv.update {s : State n} (h : Inv native s) {w : Fin n} {wk : Worker}
    {m : Option SharedDatasetState} {l : Option (Fin n)} (hm : WellKeyed m)
    (hb : l ≠ none → held m = none) (hw : WorkerOk m l w wk)
    (hothers : ∀ w' ≠ w, ∀ d ∈ (s.workers w').handles, held m = some d)
    (hlocks : ∀ w' ≠ w, (s.workers w').holdsLock = true → l = some w') :
    Inv native ({ s with fastDataset := m, lock := l }.setWorker w wk) := by
  refine ⟨hm, h.light, hb, ?_, h.granted, h.returned⟩
  intro w'
  by_cases hww : w' = w
  · subst hww
    simpa [State.setWorker] using hw
  · simp only [State.setWorker, Function.update_of_ne hww]
    exact ⟨hothers w' hww, hlocks w' hww, (h.workers w').slots, (h.workers w').keyed⟩

/-- A step that leaves the shared state alone. -/
theorem Inv.setWorker {s : State n} (h : Inv native s) {w : Fin n} {wk : Worker}
    (hw : WorkerOk s.fastDataset s.lock w wk) : Inv native (s.setWorker w wk) :=
  h.update h.manager h.building hw (fun w' _ => (h.workers w').attached)
    (fun w' _ => (h.workers w').locked)

/-- Moving on to another point keeps the slots, so only the new locals are to be checked. -/
theorem WorkerOk.goto {m m' : Option SharedDatasetState} {l l' : Option (Fin n)} {w : Fin n}
    {wk : Worker} (h : WorkerOk m l w wk) {call : Call} {point : Point}
    (hslots : ∀ mining, ∀ d ∈ slotHandles (wk.slot mining), held m' = some d)
    (hlocals : ∀ d ∈ point.handles, held m' = some d)
    (hlock : point.holdsLock = true → l' = some w) (hkey : point.Keyed call.key)
    (hhash : point ≠ .hashing) : WorkerOk m' l' w { wk with running := some (call, point) } where
  attached d hd := by
    rcases mem_handles.1 hd with hd | ⟨mining, hd⟩
    · exact hlocals d hd
    · exact hslots mining d hd
  locked hl := hlock (by simpa [Worker.holdsLock] using hl)
  slots := h.slots
  keyed := by
    rintro _ _ ⟨⟩
    exact ⟨hkey, fun he => absurd he hhash⟩

theorem WorkerOk.slotHandles {m : Option SharedDatasetState} {l : Option (Fin n)} {w : Fin n}
    {wk : Worker} (h : WorkerOk m l w wk) (mining : Bool) :
    ∀ d ∈ slotHandles (wk.slot mining), held m = some d :=
  fun d hd => h.attached d (mem_handles.2 (.inr ⟨mining, hd⟩))

/-- The manager goes on holding what it held, and the worker moves on. -/
theorem Inv.goto_held {s : State n} (h : Inv native s) {w : Fin n} {call : Call} {point : Point}
    {m : Option SharedDatasetState} (hm : WellKeyed m) (hheld : held m = held s.fastDataset)
    (hlocals : ∀ d ∈ point.handles, held s.fastDataset = some d)
    (hlock : point.holdsLock = true → s.lock = some w) (hkey : point.Keyed call.key)
    (hhash : point ≠ .hashing) : Inv native ({ s with fastDataset := m }.goto w call point) := by
  apply h.update hm
  · rw [hheld]
    exact h.building
  · apply (h.workers w).goto _ _ hlock hkey hhash <;> rw [hheld]
    · exact (h.workers w).slotHandles
    · exact hlocals
  · rw [hheld]
    exact fun w' _ => (h.workers w').attached
  · exact fun w' _ => (h.workers w').locked

/-- Nobody owns a dataset, so the manager may let go of its own or take a new one. -/
theorem Inv.goto_unowned {s : State n} (h : Inv native s) (hnone : ∀ w, (s.workers w).handles = [])
    {w : Fin n} {call : Call} {point : Point} {m : Option SharedDatasetState}
    {l : Option (Fin n)} (hm : WellKeyed m) (hb : l ≠ none → held m = none)
    (hlocals : ∀ d ∈ point.handles, held m = some d)
    (hlocks : ∀ w' ≠ w, (s.workers w').holdsLock = true → l = some w')
    (hlock : point.holdsLock = true → l = some w) (hkey : point.Keyed call.key)
    (hhash : point ≠ .hashing) :
    Inv native ({ s with fastDataset := m, lock := l }.goto w call point) := by
  apply h.update hm hb _ _ hlocks
  · apply (h.workers w).goto _ hlocals hlock hkey hhash
    intro mining d hd
    have := mem_handles.2 (.inr ⟨mining, hd⟩)
    rw [hnone w] at this
    cases this
  · intro w' _ d hd
    rw [hnone w'] at hd
    cases hd

theorem Inv.grant {s : State n} {w : Fin n} {call : Call} {d : Dataset}
    (h : Inv native (s.goto w call (.fastVm d))) (hd : d.builtFrom = call.key) :
    Inv native (s.grant w call d) := by
  refine ⟨h.manager, h.light, h.building, h.workers, ?_, h.returned⟩
  intro g hg
  rcases List.mem_cons.1 hg with rfl | hg
  · exact hd
  · exact h.granted g hg

theorem Inv.attach {s : State n} (h : Inv native s) {w : Fin n} {call : Call} {vm : Vm}
    {mode : RandomXMode} (hd : ∀ d ∈ vm.backing.datasets, held s.fastDataset = some d)
    (hk : vm.backing.builtFrom = call.key) : Inv native (s.attach w call vm mode) := by
  apply h.setWorker
  constructor
  · intro d hmem
    rcases mem_handles.1 hmem with hmem | ⟨mining, hmem⟩
    · cases hmem
    · change d ∈ slotHandles (((s.workers w).setSlot call.mining _).slot mining) at hmem
      rw [slot_setSlot] at hmem
      by_cases hm : mining = call.mining
      · rw [if_pos hm] at hmem
        exact hd d hmem
      · rw [if_neg hm] at hmem
        exact (h.workers w).slotHandles mining d hmem
  · intro hl
    cases hl
  · intro mining key engine hslot
    change ((s.workers w).setSlot call.mining _).slot mining = _ at hslot
    rw [slot_setSlot] at hslot
    by_cases hm : mining = call.mining
    · rw [if_pos hm] at hslot
      cases hslot
      exact hk
    · rw [if_neg hm] at hslot
      exact (h.workers w).slots mining key engine hslot
  · rintro _ _ ⟨⟩
    refine ⟨trivial, fun _ key engine hslot => ?_⟩
    change ((s.workers w).setSlot call.mining _).slot call.mining = _ at hslot
    rw [slot_setSlot, if_pos rfl] at hslot
    cases hslot
    rfl

/-- A fast machine owns the manager's dataset. -/
theorem Inv.attach_fast {s : State n} (h : Inv native s) {w : Fin n} {call : Call}
    {dataset : Dataset} {vm : Vm} {mode : RandomXMode} (hvm : vm.backing = .fast dataset)
    (hd : held s.fastDataset = some dataset) (hkey : dataset.builtFrom = call.key) :
    Inv native (s.attach w call vm mode) := by
  apply h.attach
  · simpa [hvm, VmBacking.datasets] using hd
  · rw [hvm]
    exact hkey

/-- A light machine owns no dataset. -/
theorem Inv.attach_light {s : State n} (h : Inv native s) {w : Fin n} {call : Call}
    {cache : Cache} {vm : Vm} {mode : RandomXMode} (hvm : vm.backing = .light cache)
    (hkey : cache.builtFrom = call.key) : Inv native (s.attach w call vm mode) := by
  apply h.attach
  · simp [hvm, VmBacking.datasets]
  · rw [hvm]
    exact hkey

theorem Inv.finish {s : State n} (h : Inv native s) {w : Fin n} {call : Call}
    {result : Except String Hashed}
    (hr : ∀ hashed, result = .ok hashed → hashed.For native call) :
    Inv native (s.finish w call result) := by
  have hw : WorkerOk s.fastDataset s.lock w { s.workers w with running := none } := by
    refine ⟨?_, by rintro ⟨⟩, (h.workers w).slots, by rintro _ _ ⟨⟩⟩
    intro d hd
    rcases mem_handles.1 hd with hd | ⟨mining, hd⟩
    · cases hd
    · exact (h.workers w).slotHandles mining d hd
  have h' := h.setWorker hw
  refine ⟨h'.manager, h'.light, h'.building, h'.workers, h'.granted, ?_⟩
  intro r hmem hashed hok
  rcases List.mem_cons.1 hmem with rfl | hmem
  · exact hr hashed hok
  · exact h.returned r hmem hashed hok

/-- Under the mutex the manager is empty, so a finished build is the only dataset there is. -/
theorem Inv.publish {s : State n} (h : Inv native s) {w : Fin n} (hlock : s.lock = some w)
    {call : Call}
    {now : Nat} {built : Except String Dataset}
    (hbuilt : ∀ d, built = .ok d → d.builtFrom = call.key) :
    Inv native (s.publish w call now built) := by
  have hheld : held s.fastDataset = none := h.building (by rw [hlock]; exact Option.some_ne_none w)
  have hnone : ∀ w', (s.workers w').handles = [] :=
    fun w' => handles_eq_nil_of_held_none (h.workers w') hheld
  have hlocks : ∀ w' ≠ w, (s.workers w').holdsLock = true → (none : Option (Fin n)) = some w' := by
    intro w' hne hl
    have := (h.workers w').locked hl
    rw [hlock] at this
    exact absurd (Option.some.inj this).symm hne
  have hspec := publishFastDataset_spec now hbuilt
  cases built with
  | ok dataset =>
    apply Inv.grant _ (hbuilt dataset rfl)
    have hkey : (Point.fastVm dataset).Keyed call.key := hbuilt dataset rfl
    apply h.goto_unowned hnone ((wellKeyed_some _).2 hspec.1) (by simp) _ hlocks (by rintro ⟨⟩)
      hkey (by rintro ⟨⟩)
    simp [Point.handles, publishFastDataset, SharedDatasetState.dataset]
  | error reason =>
    exact h.goto_unowned hnone ((wellKeyed_some _).2 hspec.1) (by simp) (by rintro _ ⟨⟩) hlocks
      (by rintro ⟨⟩) trivial (by rintro ⟨⟩)

theorem firstPoint_plain (forceLight : Bool) (call : Call) :
    (firstPoint forceLight call).handles = [] ∧ (firstPoint forceLight call).holdsLock = false ∧
      (firstPoint forceLight call).Keyed call.key ∧ firstPoint forceLight call ≠ .hashing := by
  unfold firstPoint
  split_ifs <;> exact ⟨rfl, rfl, trivial, by rintro ⟨⟩⟩

theorem inv_randomxHash (forceLight : Bool) {s s' : State n} (h : Inv native s) {w : Fin n}
    {call : Call}
    (hs : s.randomxHash forceLight w call = some s') : Inv native s' := by
  simp only [State.randomxHash] at hs
  split at hs
  · cases hs
  · rename_i hidle
    rcases firstPoint_plain forceLight call with ⟨hhandles, hlock, hkey, hhash⟩
    split_ifs at hs with hbuild
    · cases hs
      apply h.setWorker
      constructor
      · intro d hd
        rcases mem_handles.1 hd with hd | ⟨mining, hd⟩
        · change d ∈ (firstPoint forceLight call).handles at hd
          rw [hhandles] at hd
          cases hd
        · change d ∈ slotHandles (((s.workers w).setSlot call.mining none).slot mining) at hd
          rw [slot_setSlot] at hd
          split_ifs at hd
          · cases hd
          · exact (h.workers w).slotHandles mining d hd
      · intro hl
        change (firstPoint forceLight call).holdsLock = true at hl
        rw [hlock] at hl
        cases hl
      · intro mining key engine hslot
        change ((s.workers w).setSlot call.mining none).slot mining = _ at hslot
        rw [slot_setSlot] at hslot
        split_ifs at hslot
        exact (h.workers w).slots mining key engine hslot
      · rintro _ _ ⟨⟩
        exact ⟨hkey, fun he => absurd he hhash⟩
    · cases hs
      apply h.setWorker
      constructor
      · intro d hd
        rcases mem_handles.1 hd with hd | ⟨mining, hd⟩
        · cases hd
        · exact (h.workers w).slotHandles mining d hd
      · intro hl
        cases hl
      · exact (h.workers w).slots
      · rintro _ _ ⟨⟩
        refine ⟨trivial, fun _ key engine hslot => ?_⟩
        change (s.workers w).slot call.mining = _ at hslot
        -- the slot was kept, so its key passed `engine_needs_build`
        simp only [hslot, engineNeedsBuild, ne_eq, decide_not, Bool.or_eq_true,
          Bool.not_eq_true', decide_eq_false_iff_not, not_or, not_not] at hbuild
        exact hbuild.1

theorem inv_sharedFastDataset {s s' : State n} (h : Inv native s) {w : Fin n} {call : Call}
    {forceLight : Bool} {reply : Reply}
    (hs : s.resume native forceLight w call reply .sharedFastDataset = some s') :
    Inv native s' := by
  simp only [State.resume] at hs
  split_ifs at hs with hlock
  rw [not_not] at hlock
  rcases hlook : sharedFastDataset s.fastDataset call.key s.clock s.strongCount with ⟨result, m⟩
  have hspec := sharedFastDataset_spec hlook h.manager
  rw [hlook] at hs
  rcases hspec with ⟨hm, ⟨d, rfl, hkey, hd, hd'⟩ | ⟨reason, rfl, hheld⟩ | ⟨rfl, rfl, hcount⟩⟩
  · cases hs
    have hpoint : (Point.fastVm d).Keyed call.key := hkey
    apply Inv.grant _ hkey
    apply h.goto_held hm (hd'.trans hd.symm) _ (by rintro ⟨⟩) hpoint (by rintro ⟨⟩)
    simpa [Point.handles] using hd
  · cases hs
    exact h.goto_held hm hheld (by rintro _ ⟨⟩) (by rintro ⟨⟩) trivial (by rintro ⟨⟩)
  · cases hs
    have hnone : ∀ w', (s.workers w').handles = [] := by
      intro w'
      cases hd : held s.fastDataset with
      | none => exact handles_eq_nil_of_held_none (h.workers w') hd
      | some d => exact h.unowned hd (hcount d hd) w'
    have hpoint : (Point.allocating s.clock).Keyed call.key := trivial
    apply h.goto_unowned hnone hm (fun _ => rfl) (by rintro _ ⟨⟩) _ (fun _ => rfl) hpoint
      (by rintro ⟨⟩)
    intro w' _ hl
    have := (h.workers w').locked hl
    rw [hlock] at this
    cases this

theorem inv_releaseUnused {s s' : State n} (h : Inv native s) {w : Fin n} {call : Call}
    {forceLight : Bool} {reply : Reply} {fastError : String}
    (hs : s.resume native forceLight w call reply (.releaseUnused fastError) = some s') :
    Inv native s' := by
  simp only [State.resume] at hs
  split_ifs at hs with hlock
  rw [not_not] at hlock
  cases hs
  rcases releaseFastDatasetIfUnused_spec s.fastDataset call.key fastError s.clock s.strongCount
    h.manager with ⟨hm, hheld | ⟨hheld, hcount⟩⟩
  · exact h.goto_held hm hheld (by rintro _ ⟨⟩) (by rintro ⟨⟩) trivial (by rintro ⟨⟩)
  · have hnone : ∀ w', (s.workers w').handles = [] := by
      intro w'
      cases hd : held s.fastDataset with
      | none => exact handles_eq_nil_of_held_none (h.workers w') hd
      | some d => exact h.unowned hd (hcount d hd).le w'
    exact h.goto_unowned hnone hm (fun _ => hheld) (by rintro _ ⟨⟩)
      (fun w' _ => (h.workers w').locked) (by rintro ⟨⟩) trivial (by rintro ⟨⟩)

/-- The slot is filed under the key it was built from, and that is the call's. -/
theorem inv_hashing {s s' : State n} (h : Inv native s) {w : Fin n} {call : Call}
    {forceLight : Bool} {reply : Reply} (hrun : (s.workers w).running = some (call, .hashing))
    (hs : s.resume native forceLight w call reply .hashing = some s') : Inv native s' := by
  have hslot := ((h.workers w).keyed call _ hrun).2 rfl
  simp only [State.resume] at hs
  split at hs
  · cases hs
    exact h.finish (by rintro _ ⟨⟩)
  · rename_i key engine hengine
    cases hs
    apply h.finish
    intro hashed hok
    rcases Except.map_eq_ok hok with ⟨digest, hdigest, rfl⟩
    have hkey : engine.vm.backing.builtFrom = call.key :=
      ((h.workers w).slots call.mining key engine hengine).trans (hslot key engine hengine)
    refine ⟨hkey, ?_⟩
    rw [← hkey]
    exact Vm.hash_eq_ok hdigest

/-- One case per point of `randomx_hash`. -/
theorem inv_resume {s s' : State n} (h : Inv native s) {w : Fin n} {call : Call} {point : Point}
    {forceLight : Bool} {reply : Reply}
    (hrun : (s.workers w).running = some (call, point))
    (hs : s.resume native forceLight w call reply point = some s') : Inv native s' := by
  have hkeyed := ((h.workers w).keyed call point hrun).1
  have hlocals : ∀ d ∈ point.handles, held s.fastDataset = some d := by
    intro d hd
    apply (h.workers w).attached d (mem_handles.2 (.inl _))
    simpa [Worker.locals, hrun] using hd
  have hlock : point.holdsLock = true → s.lock = some w := by
    intro hl
    apply (h.workers w).locked
    simpa [Worker.holdsLock, hrun] using hl
  cases point with
  | sharedFastDataset => exact inv_sharedFastDataset h hs
  | releaseUnused fastError => exact inv_releaseUnused h hs
  | allocating now =>
    simp only [State.resume] at hs
    split at hs <;> rename_i hbuilt <;> cases hs
    · have hkey : (Point.initializing now _).Keyed call.key := Dataset.allocate_eq_ok hbuilt
      have h' : Inv native { s with allocated := s.allocated + 1 } :=
        ⟨h.manager, h.light, h.building, h.workers, h.granted, h.returned⟩
      exact h'.goto_held h.manager rfl (by rintro _ ⟨⟩) (fun _ => hlock rfl) hkey (by rintro ⟨⟩)
    · exact h.publish (hlock rfl) (by rintro _ ⟨⟩)
  | initializing now dataset =>
    simp only [State.resume] at hs
    split at hs <;> rename_i hbuilt <;> cases hs
    · apply h.publish (hlock rfl)
      rintro _ ⟨⟩
      rw [Dataset.initialize_eq_ok hbuilt]
      exact hkeyed
    · exact h.publish (hlock rfl) (by rintro _ ⟨⟩)
  | fastVm dataset =>
    have hd : held s.fastDataset = some dataset := hlocals dataset (by simp [Point.handles])
    simp only [State.resume] at hs
    split at hs
    · rename_i hvm
      cases hs
      exact h.attach_fast (Vm.fast_eq_ok hvm) hd hkeyed
    · rename_i optimizedError hvm
      cases hs
      have hpoint : (Point.portableFastVm dataset optimizedError).Keyed call.key := hkeyed
      exact h.goto_held h.manager rfl (by simpa [Point.handles] using hd) (by rintro ⟨⟩) hpoint
        (by rintro ⟨⟩)
  | portableFastVm dataset optimizedError =>
    have hd : held s.fastDataset = some dataset := hlocals dataset (by simp [Point.handles])
    simp only [State.resume] at hs
    split at hs <;> rename_i hvm <;> cases hs
    · exact h.attach_fast (Vm.fast_eq_ok hvm) hd hkeyed
    · exact h.goto_held h.manager rfl (by rintro _ ⟨⟩) (by rintro ⟨⟩) trivial (by rintro ⟨⟩)
  | sharedLightCache mode fastError =>
    simp only [State.resume] at hs
    split at hs
    · rename_i flags cache m hlook
      cases hs
      have hspec := sharedLightCache_spec hlook h.light
      have hkey : (Point.lightVm mode flags cache fastError).Keyed call.key := hspec.2 _ _ rfl
      exact (h.setLightCache hspec.1).goto_held h.manager rfl (by rintro _ ⟨⟩) (by rintro ⟨⟩)
        hkey (by rintro ⟨⟩)
    · rename_i hlook
      cases hs
      exact (h.setLightCache (sharedLightCache_spec hlook h.light).1).finish (by rintro _ ⟨⟩)
  | lightVm mode flags cache fastError =>
    simp only [State.resume] at hs
    split at hs
    · rename_i hvm
      cases hs
      exact h.attach_light (Vm.light_eq_ok hvm) hkeyed
    · rename_i optimizedError hvm
      cases hs
      have hpoint : (Point.portableLightVm mode cache optimizedError fastError).Keyed call.key :=
        hkeyed
      exact h.goto_held h.manager rfl (by rintro _ ⟨⟩) (by rintro ⟨⟩) hpoint (by rintro ⟨⟩)
  | portableLightVm mode cache optimizedError fastError =>
    simp only [State.resume] at hs
    split at hs <;> rename_i hvm <;> cases hs
    · exact h.attach_light (Vm.light_eq_ok hvm) hkeyed
    · exact h.finish (by rintro _ ⟨⟩)
  | hashing => exact inv_hashing h hrun hs

theorem inv_step (native : Native) (forceLight : Bool) :
    Runs.Invariant (step (n := n) native forceLight) (Inv native) := by
  intro s a s' h hs
  cases a with
  | tick elapsed =>
    cases hs
    exact ⟨h.manager, h.light, h.building, h.workers, h.granted, h.returned⟩
  | randomxHash w call => exact inv_randomxHash forceLight h hs
  | resume w reply =>
    simp only [step] at hs
    split at hs
    · cases hs
    · rename_i hrun
      exact inv_resume h hrun hs

theorem inv_initial (native : Native) : Inv native ({} : State n) where
  manager := by simp
  light := by simp [LightKeyed]
  building := by simp
  workers w := ⟨by rintro _ ⟨⟩, by rintro ⟨⟩, by rintro ⟨⟩ _ _ ⟨⟩, by rintro _ _ ⟨⟩⟩
  granted := by simp
  returned := by simp

/-- The owners all point at the manager's dataset, and there is none while one is built. -/
theorem Inv.datasets_eq {s : State n} (h : Inv native s) {d d' : Dataset} (hd : d ∈ s.datasets)
    (hd' : d' ∈ s.datasets) : d = d' := by
  have howned : ∀ d ∈ s.handles, held s.fastDataset = some d := by
    intro d hd
    simp only [State.handles, List.mem_append, Option.mem_toList, List.mem_flatMap] at hd
    rcases hd with hd | ⟨w, -, hd⟩
    · exact hd
    · exact (h.workers w).attached d hd
  have hbuilt : ∀ d, (d ∈ (List.finRange n).flatMap fun w => (s.workers w).underConstruction) →
      ∃ w, s.lock = some w ∧ (s.workers w).underConstruction = [d] := by
    intro d hd
    rcases List.mem_flatMap.1 hd with ⟨w, -, hd⟩
    refine ⟨w, ?_⟩
    have hl := (h.workers w).locked
    simp only [Worker.underConstruction, Worker.holdsLock] at hd hl ⊢
    rcases hrun : (s.workers w).running with _ | ⟨call, point⟩
    · simp [hrun] at hd
    · cases point <;> simp_all [Point.underConstruction, Point.holdsLock]
  have hempty : ∀ w, s.lock = some w → held s.fastDataset = none :=
    fun w hw => h.building (by rw [hw]; exact Option.some_ne_none w)
  rcases List.mem_append.1 hd with hd | hd <;> rcases List.mem_append.1 hd' with hd' | hd'
  · exact Option.some.inj ((howned d hd).symm.trans (howned d' hd'))
  · rcases hbuilt d' hd' with ⟨w, hw, -⟩
    have := (howned d hd).symm.trans (hempty w hw)
    cases this
  · rcases hbuilt d hd with ⟨w, hw, -⟩
    have := (howned d' hd').symm.trans (hempty w hw)
    cases this
  · rcases hbuilt d hd with ⟨w, hw, hu⟩
    rcases hbuilt d' hd' with ⟨w', hw', hu'⟩
    have hww : w = w' := Option.some.inj (hw.symm.trans hw')
    subst hww
    exact List.singleton_injective (hu.symm.trans hu')

/-- After any interleaving: what was granted for a key was built from it, there are no two
datasets, and what was hashed for a key came from a machine built from it. -/
theorem shared_dataset_correct (native : Native) (forceLight : Bool) {n : Nat}
    (actions : List (Action n)) (s : State n)
    (hrun : Runs.run (step native forceLight) {} actions = some s) :
    (∀ g ∈ s.granted, g.2.builtFrom = g.1) ∧
    (∀ d ∈ s.datasets, ∀ d' ∈ s.datasets, d = d') ∧
    (∀ r ∈ s.returned, ∀ hashed, r.result = .ok hashed → hashed.For native r.call) := by
  have h := (inv_step native forceLight).run (inv_initial native) hrun
  exact ⟨h.granted, fun d hd d' hd' => h.datasets_eq hd hd', h.returned⟩

/-- Two workers change seeds: the first drains to a light machine while the second still hashes
on the old dataset, and rebuilds once the second has let go of it. -/
def seedChange : List (Action 2) :=
  let mine (w : Fin 2) (seed : UInt8) : Action 2 := .randomxHash w ⟨[seed], [7], true⟩
  [mine 0 1, .resume 0 {}, .resume 0 {}, .resume 0 {}, .resume 0 {}, .resume 0 {},
   mine 1 1, .resume 1 {}, .resume 1 {},
   mine 0 2, .resume 0 {}, .resume 0 {}, .resume 0 {}, .resume 0 {}, .resume 0 {},
   .resume 1 {}, mine 1 2, .tick fastRetryDelay,
   mine 0 2, .resume 0 {}, .resume 0 {}, .resume 0 {}, .resume 0 {}, .resume 0 {}]

theorem shared_dataset_correct_seedChange :
    let native : Native := ⟨0, fun key _ => ⟨(key ++ List.replicate 32 0).take 32, by simp⟩⟩
    ∃ s, Runs.run (step native false) {} seedChange = some s ∧
      s.granted.map Prod.fst = [[2], [1], [1]] ∧ s.returned.length = 4 ∧
      (∀ g ∈ s.granted, g.2.builtFrom = g.1) ∧
      (∀ d ∈ s.datasets, ∀ d' ∈ s.datasets, d = d') ∧
      (∀ r ∈ s.returned, ∀ hashed, r.result = .ok hashed → hashed.For native r.call) := by
  intro native
  have hrun := Option.eq_some_of_isSome
    (o := Runs.run (step native false) {} seedChange) (by decide)
  exact ⟨_, hrun, by decide, by decide, shared_dataset_correct _ _ _ _ hrun⟩

end XusMiner.RandomX

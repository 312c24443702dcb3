import XusMiner.Engine.Submissions

namespace XusMiner.Engine
open ByteCodec

/-! ## What the workers hash -/

/-- A call of `seal_blob`: on the job that the worker took up as its `taking`-th, and on what. -/
structure Evaluation (n : ℕ) where
  worker : Fin n
  taking : ℕ
  algo : PowAlgo
  key : Bytes
  blob : Bytes
  succeeded : Bool

namespace Worker

/-- The job a step hashes for, and whether the hash comes out. -/
def evaluates (wk : Worker) (e : WorkerEvent) : Option (ArcJob × Bool) :=
  match wk.pc, e with
  | .sealBlob, .sealed _ outcome _ =>
    wk.job.map fun arc => (arc, arc.job.algo = .sha256d || outcome.isOk)
  | _, _ => none

/-- The step reads a job from the slot. -/
def takes (wk : Worker) (s : State) : Bool :=
  match wk.pc with
  | .readJob .. => s.job.isSome
  | _ => false

end Worker

/-- The engine, and a record of what its workers have hashed so far. -/
structure Recorded (n : ℕ) where
  system : System n
  takings : Fin n → ℕ := fun _ => 0
  evaluations : List (Evaluation n) := []

namespace Recorded
variable {n : ℕ}

def init (n : ℕ) (config : Config) : Recorded n := { system := System.init n config }

/-- The engine takes its step, and what the step hashes is put down. -/
def step (params : Params) (config : Config) (t : Recorded n) (a : Action n) :
    Option (Recorded n) :=
  (t.system.step params config a).map fun system =>
    match a with
    | .worker w e =>
      let wk := t.system.workers w
      { system
        takings := if wk.takes t.system.state then Function.update t.takings w (t.takings w + 1)
          else t.takings
        evaluations := t.evaluations ++ ((wk.evaluates e).map fun x =>
          ⟨w, t.takings w, x.1.job.algo, x.1.job.powKey, wk.blob, x.2⟩).toList }
    | _ => { t with system }

/-- The nonces a worker has tried. -/
def tried (t : Recorded n) (w : Fin n) : ℕ := t.evaluations.countP fun e => e.worker = w

/-- The record does not change what the engine does. -/
theorem run_system {params : Params} {config : Config} {t : Recorded n} {as : List (Action n)} :
    (Runs.run (step params config) t as).map system = System.run params config t.system as := by
  induction as generalizing t with
  | nil => rfl
  | cons a as ih =>
    rw [Runs.run_cons, System.run, Runs.run_cons, Option.map_bind]
    cases hstep : t.system.step params config a with
    | none => simp [step, hstep]
    | some s =>
      obtain ⟨t', ht', hsystem⟩ : ∃ t', t.step params config a = some t' ∧ t'.system = s := by
        rw [step, hstep]
        cases a <;> exact ⟨_, rfl, rfl⟩
      rw [ht', Option.bind_some, Option.bind_some, Function.comp_apply, ih, hsystem]
      rfl

end Recorded

/-! ## What a step does to the nonce -/

/-- From the hash to the increment, the worker's nonce is one it has tried. -/
def Pc.spent : Pc → Bool
  | .loadGeneration | .readJob .. | .batch | .sealBlob | .addIntervalHashes | .addTotalHashes
  | .recordRound => false
  | _ => true

def Pc.seals : Pc → Bool
  | .sealBlob => true
  | _ => false

/-- The nonce is the last thing in the blob. -/
def Marked (nonce : ℕ) (blob : Bytes) : Prop := leBytes 8 nonce <:+ blob

theorem Marked.unique {nonce nonce' : ℕ} {blob : Bytes} (h : Marked nonce blob)
    (h' : Marked nonce' blob) (hlt : nonce < 2 ^ 64) (hlt' : nonce' < 2 ^ 64) : nonce = nonce' := by
  have hbytes : leBytes 8 nonce = leBytes 8 nonce' := by
    apply List.IsSuffix.eq_of_length
    · exact List.suffix_of_suffix_length_le h h' (by simp)
    · simp
  have hvalues := congrArg ofLeBytes hbytes
  rw [ofLeBytes_leBytes, ofLeBytes_leBytes] at hvalues
  omega

theorem marked_splice {blob : Bytes} {nonceOffset : ℕ} (h : nonceOffset + 8 = blob.length)
    (nonce : ℕ) : Marked nonce (splice blob nonceOffset (leBytes 8 nonce)) := by
  rw [Marked, splice, length_leBytes, h, List.drop_length, List.append_nil]
  exact List.suffix_append _ _

namespace Worker

/-- The kinds of steps, by what becomes of job, blob and nonce; `evaluated` and `taken` are what
the record is told of the step. -/
inductive Turn (w : ℕ) (s : State) (wk : Worker) : Option (ArcJob × Bool) → Bool → Worker → Prop
  | stay {wk' : Worker} (hjob : wk'.job = wk.job) (hblob : wk'.blob = wk.blob)
      (hnonce : wk'.nonce = wk.nonce) (hspent : wk'.pc.spent = wk.pc.spent)
      (hseals : wk'.pc.seals = false) : Turn w s wk none false wk'
  | advance (hspent : wk.pc.spent = true) : Turn w s wk none false wk.advance
  | splice {arc : ArcJob} (hpc : wk.pc = .batch) (harc : wk.job = some arc) :
      Turn w s wk none false { wk with
        blob := ByteCodec.splice wk.blob arc.job.nonceOffset (leBytes 8 wk.nonce.toNat)
        pc := .sealBlob }
  | take {arc : ArcJob} {wk' : Worker} (harc : s.job = some arc) (hjob : wk'.job = some arc)
      (hblob : wk'.blob = arc.job.blob) (hnonce : wk'.nonce = firstNonce w)
      (hspent : wk'.pc.spent = false) (hseals : wk'.pc.seals = false) : Turn w s wk none true wk'
  | lose {wk' : Worker} (hjob : wk'.job = none) (hnonce : wk'.nonce = wk.nonce)
      (hspent : wk'.pc.spent = false) (hspent' : wk.pc.spent = false)
      (hseals : wk'.pc.seals = false) : Turn w s wk none false wk'
  | restart {restarts : UInt64} : Turn w s wk none false (start w restarts)
  | hash {arc : ArcJob} {wk' : Worker} {succeeded : Bool} (hpc : wk.pc = .sealBlob)
      (harc : wk.job = some arc) (hjob : wk'.job = wk.job) (hblob : wk'.blob = wk.blob)
      (hnonce : wk'.nonce = if wk'.pc.spent then wk.nonce else wk.nonce + 1)
      (hseals : wk'.pc.seals = false) : Turn w s wk (some (arc, succeeded)) false wk'

variable {params : Params} {w : ℕ} {locks : Locks} {s s' : State} {wk wk' : Worker}

theorem pc_enterBatch_spent (wk : Worker) :
    wk.enterBatch.pc.spent = false ∧ wk.enterBatch.pc.seals = false := by
  rcases pc_enterBatch wk with hpc | hpc
  · simp [hpc, Pc.spent, Pc.seals]
  · simp [hpc, Pc.spent, Pc.seals]

theorem enterBatch_eq (wk : Worker) : wk.enterBatch.job = wk.job ∧ wk.enterBatch.blob = wk.blob ∧
    wk.enterBatch.nonce = wk.nonce := by
  unfold enterBatch
  split
  · exact ⟨rfl, rfl, rfl⟩
  · exact ⟨rfl, rfl, rfl⟩

/-- A call of `seal_blob` keeps job and blob, and the nonce unless it fails. -/
theorem turn_sealBlob {arc : ArcJob} (hpc : wk.pc = .sealBlob) (harc : wk.job = some arc)
    (builds : Bool) (outcome : Except String MiningMode) (now : ℕ) (succeeded : Bool) :
    Turn w s wk (some (arc, succeeded)) false
      (wk.sealBlob params w s arc.job builds outcome now).2 := by
  unfold sealBlob
  split
  · obtain ⟨stdout, ready, -, heq⟩ := powReady_eq (w := w) wk s arc.job
      (params.pow arc.job.algo arc.job.powKey wk.blob) .sha256d
    rw [heq]
    exact .hash hpc harc rfl rfl rfl rfl
  · obtain ⟨stdout, ready, announced, -, heq⟩ := announce_eq (w := w) wk s builds
    rw [heq]
    cases outcome with
    | error error =>
      obtain ⟨stdout', last, -, heq'⟩ := powError_eq (w := w)
        { wk with readyState := ready, preparationAnnounced := announced } { s with stdout }
        error now
      simp only [heq']
      exact .hash hpc harc rfl rfl rfl rfl
    | ok mode =>
      obtain ⟨stdout', ready', -, heq'⟩ := powReady_eq (w := w)
        { wk with readyState := ready, preparationAnnounced := announced } { s with stdout } arc.job
        (params.pow arc.job.algo arc.job.powKey wk.blob) mode
      simp only [heq']
      exact .hash hpc harc rfl rfl rfl rfl

theorem turn_readJob {increments : ℕ} (hpc : wk.pc = .readJob increments) :
    Turn w s wk none (wk.takes s) (wk.readJob w s increments) := by
  have hspent : wk.pc.spent = false := by simp [hpc, Pc.spent]
  cases hjob : s.job with
  | none =>
    have htakes : wk.takes s = false := by simp [takes, hpc, hjob]
    rw [htakes, readJob]
    simp only [hjob]
    obtain ⟨hjob', -, hnonce⟩ :=
      enterBatch_eq { wk with job := none, refreshed := some increments }
    exact .lose hjob' hnonce (pc_enterBatch_spent _).1 hspent (pc_enterBatch_spent _).2
  | some arc =>
    have htakes : wk.takes s = true := by simp [takes, hpc, hjob]
    rw [htakes, readJob]
    simp only [hjob]
    obtain ⟨hjob', hblob, hnonce⟩ := enterBatch_eq { wk with
      job := some arc, refreshed := some increments, blob := arc.job.blob, nonce := firstNonce w }
    exact .take hjob hjob' hblob hnonce (pc_enterBatch_spent _).1 (pc_enterBatch_spent _).2

/-- Everything but a call of `seal_blob`. -/
theorem Move.turn (h : Move params w locks s wk s' wk') (hseals : wk.pc.seals = false) :
    Turn w s wk none (wk.takes s) wk' := by
  have hstay : ∀ {x : Worker}, wk.takes s = false → x.job = wk.job → x.blob = wk.blob →
      x.nonce = wk.nonce → x.pc.spent = wk.pc.spent → x.pc.seals = false →
        Turn w s wk none (wk.takes s) x := by
    intro x htakes hjob hblob hnonce hspent hseals
    rw [htakes]
    exact .stay hjob hblob hnonce hspent hseals
  have hadvance : wk.takes s = false → wk.pc.spent = true →
      Turn w s wk none (wk.takes s) wk.advance := by
    intro htakes hspent
    rw [htakes]
    exact .advance hspent
  cases h with
  | readJob hpc => exact turn_readJob hpc
  | splice hpc harc =>
    have htakes : wk.takes s = false := by simp [takes, hpc]
    rw [htakes]
    exact .splice hpc harc
  | powReady hpc | powError hpc | panic hpc => simp [hpc, Pc.seals] at hseals
  | current hpc =>
    obtain ⟨hjob, hblob, hnonce⟩ := enterBatch_eq wk
    obtain ⟨hspent, hseals'⟩ := pc_enterBatch_spent wk
    exact hstay (by simp [takes, hpc]) hjob hblob hnonce (by rw [hspent, hpc]; rfl) hseals'
  | @submitBlock arc reply hpc harc =>
    have hfields : (wk.submitBlock params w s arc reply).2.job = wk.job ∧
        (wk.submitBlock params w s arc reply).2.blob = wk.blob ∧
        (wk.submitBlock params w s arc reply).2.nonce = wk.nonce := by
      unfold Worker.submitBlock
      simp only
      split
      · exact ⟨rfl, rfl, rfl⟩
      · exact ⟨rfl, rfl, rfl⟩
    obtain ⟨hjob, hblob, hnonce⟩ := hfields
    rcases pc_submitBlock params w s wk arc reply with hpc' | hpc'
    · exact hstay (by simp [takes, hpc]) hjob hblob hnonce (by rw [hpc, hpc']; rfl)
        (by rw [hpc']; rfl)
    · exact hstay (by simp [takes, hpc]) hjob hblob hnonce (by rw [hpc, hpc']; rfl)
        (by rw [hpc']; rfl)
  | unsolved hpc | keepJob hpc | emitCleared hpc | countRejected hpc | noConnection hpc | full hpc
  | countSubmitted hpc | writeFailed hpc =>
    exact hadvance (by simp [takes, hpc]) (by rw [hpc]; rfl)
  | loadGeneration hpc | leaveBatch hpc | solved hpc | direct hpc | pool hpc | countSubmission hpc
  | countAccepted hpc | recordSealed hpc | loadSubmitted hpc | loadAccepted hpc | loadRejected hpc
  | emitShare hpc | clearJob hpc | clearGeneration hpc | nextRequest hpc | readConnection hpc
  | reserve hpc | write hpc | writeError hpc | addIntervalHashes hpc | addTotalHashes hpc
  | recordRound hpc =>
    exact hstay (by simp [takes, hpc]) rfl rfl rfl (by rw [hpc]; rfl) rfl

/-- A step is a turn, and the record is told which. -/
theorem step_turn {e : WorkerEvent} {r : State × Worker} (h : wk.step params w locks s e = some r) :
    Turn w s wk (wk.evaluates e) (wk.takes s) r.2 := by
  cases hseals : wk.pc.seals with
  | false =>
    have hevaluates : wk.evaluates e = none := by
      unfold evaluates
      split
      · next hpc => simp [hpc, Pc.seals] at hseals
      · rfl
    rw [hevaluates]
    exact (step_moves h).turn hseals
  | true =>
    have hpc : wk.pc = .sealBlob := by
      cases hpc : wk.pc <;> simp [hpc, Pc.seals] at hseals ⊢
    have htakes : wk.takes s = false := by simp [takes, hpc]
    rw [htakes]
    simp only [Worker.step, hpc] at h
    cases e with
    | sealed builds outcome now =>
      obtain ⟨arc, harc, rfl⟩ := Option.map_eq_some_iff.1 h
      simp only [evaluates, hpc, harc, Option.map_some]
      exact turn_sealBlob hpc harc builds outcome now _
    | panic message =>
      cases h
      simp only [evaluates, hpc]
      exact .restart
    | _ => cases h

theorem Turn.seals {x : ArcJob × Bool} {taken : Bool} (h : Turn w s wk (some x) taken wk') :
    wk.pc = .sealBlob ∧ wk.job ≠ none := by
  cases h with
  | hash hpc harc => exact ⟨hpc, by rw [harc]; exact Option.some_ne_none _⟩

theorem firstNonce_toNat (hw : w < 64) : (firstNonce w).toNat = w * 2 ^ 56 := by
  have hofNat : (UInt64.ofNat w).toNat = w := by
    rw [UInt64.toNat_ofNat', Nat.mod_eq_of_lt (by omega)]
  have hlt : w * 2 ^ 56 < 2 ^ 64 := by omega
  have hshift : (56 : UInt64).toNat % 64 = 56 := rfl
  rw [firstNonce, UInt64.toNat_shiftLeft, hofNat, hshift, Nat.shiftLeft_eq, Nat.mod_eq_of_lt hlt]

/-- The first nonce the worker has not tried since it took its job. -/
def reach (wk : Worker) : ℕ := wk.nonce.toNat + wk.pc.spent.toNat

/-- After `tried` hashes worker `w` is that far into its part of the nonces at most, and `mine`,
what it has hashed of its job, is behind it. -/
structure Steady (w tried : ℕ) (mine : Bytes → Prop) (wk : Worker) : Prop where
  low : w * 2 ^ 56 ≤ wk.nonce.toNat
  high : wk.reach ≤ w * 2 ^ 56 + tried
  length : ∀ arc, wk.job = some arc → wk.blob.length = arc.job.blob.length
  past : wk.job ≠ none → ∀ blob, mine blob → ∃ nonce, Marked nonce blob ∧ nonce < wk.reach
  marked : wk.pc.seals = true → Marked wk.nonce.toNat wk.blob

namespace Steady
variable {tried : ℕ} {mine mine' : Bytes → Prop}

theorem mono (h : Steady w tried mine wk) (hmine : ∀ blob, mine' blob → mine blob) :
    Steady w tried mine' wk :=
  { h with past := fun hjob blob hblob => h.past hjob blob (hmine blob hblob) }

theorem start (hw : w < 64) (restarts : UInt64) : Steady w tried mine (start w restarts) where
  low := by
    have hnonce : (Worker.start w restarts).nonce = firstNonce w := rfl
    rw [hnonce, firstNonce_toNat hw]
  high := by
    have hreach : (Worker.start w restarts).reach = (firstNonce w).toNat + 0 := rfl
    rw [hreach, firstNonce_toNat hw]
    omega
  length _ harc := nomatch harc
  past hjob := absurd rfl hjob
  marked hseals := nomatch hseals

theorem nonce_succ (h : Steady w tried mine wk) (hw : w < 64) (htried : tried < 2 ^ 56) :
    (wk.nonce + 1).toNat = wk.nonce.toNat + 1 := by
  have hhigh : wk.nonce.toNat + wk.pc.spent.toNat ≤ w * 2 ^ 56 + tried := h.high
  have hlt : wk.nonce.toNat + 1 < 2 ^ 64 := by omega
  rw [UInt64.toNat_add, UInt64.toNat_one, Nat.mod_eq_of_lt hlt]

/-- A worker that keeps its place in the nonces keeps what is behind it. -/
theorem keep (h : Steady w tried mine wk) (hjob : wk'.job = wk.job) (hblob : wk'.blob = wk.blob)
    (hlow : w * 2 ^ 56 ≤ wk'.nonce.toNat) (hreach : wk'.reach = wk.reach)
    (hseals : wk'.pc.seals = false) : Steady w tried mine wk' where
  low := hlow
  high := hreach ▸ h.high
  length := hjob ▸ hblob ▸ h.length
  past hsome blob hmine := hreach ▸ h.past (hjob ▸ hsome) blob hmine
  marked hsealing := nomatch hseals.symm.trans hsealing

/-- The increment only makes good that the nonce is spent. -/
theorem advance (h : Steady w tried mine wk) (hw : w < 64) (htried : tried < 2 ^ 56)
    (hspent : wk.pc.spent = true) : Steady w tried mine wk.advance := by
  have hlow := h.low
  have hsucc := h.nonce_succ hw htried
  have hnonce : wk.advance.nonce.toNat = wk.nonce.toNat + 1 := hsucc
  refine h.keep rfl rfl (by omega) ?_ rfl
  calc wk.advance.reach
    _ = wk.advance.nonce.toNat := rfl
    _ = wk.nonce.toNat + 1 := hnonce
    _ = wk.reach := by rw [reach, hspent, Bool.toNat_true]

theorem splice (h : Steady w tried mine wk) {arc : ArcJob} (hpc : wk.pc = .batch)
    (harc : wk.job = some arc) : Steady w tried mine { wk with
      blob := ByteCodec.splice wk.blob arc.job.nonceOffset (leBytes 8 wk.nonce.toNat)
      pc := .sealBlob } := by
  have hlength := h.length arc harc
  have hoffset : arc.job.nonceOffset + 8 = wk.blob.length := by
    rw [hlength]
    exact arc.job.trailingNonce
  have hspent : wk.pc.spent = false := by rw [hpc]; rfl
  have hreach : wk.reach = wk.nonce.toNat := by rw [reach, hspent]; rfl
  have hhigh := h.high
  rw [hreach] at hhigh
  refine ⟨h.low, hhigh, fun arc' harc' => ?_, fun hsome blob hmine => ?_, fun _ => ?_⟩
  · cases harc.symm.trans harc'
    rw [← hlength]
    exact length_splice (by rw [length_leBytes]; omega)
  · obtain ⟨nonce, hmarked, hlt⟩ := h.past hsome blob hmine
    rw [hreach] at hlt
    exact ⟨nonce, hmarked, hlt⟩
  · exact marked_splice hoffset _

/-- With a job from the slot nothing of it has been hashed yet, and the nonce starts over. -/
theorem take {arc : ArcJob} (hw : w < 64) (hjob : wk'.job = some arc)
    (hblob : wk'.blob = arc.job.blob) (hnonce : wk'.nonce = firstNonce w)
    (hspent : wk'.pc.spent = false) (hseals : wk'.pc.seals = false) (hmine : ∀ blob, ¬mine blob) :
    Steady w tried mine wk' := by
  have hfirst : wk'.nonce.toNat = w * 2 ^ 56 := by rw [hnonce, firstNonce_toNat hw]
  have hreach : wk'.reach = w * 2 ^ 56 := by
    rw [reach, hspent, Bool.toNat_false, hfirst, add_zero]
  refine ⟨hfirst.symm.le, hreach.le.trans (Nat.le_add_right _ _), fun arc' harc' => ?_,
    fun _ blob hblob => absurd hblob (hmine blob),
    fun hsealing => nomatch hseals.symm.trans hsealing⟩
  cases hjob.symm.trans harc'
  rw [hblob]

/-- The blob that is hashed has the nonce in it that the worker moves on from. -/
theorem hash (h : Steady w tried mine wk) (hw : w < 64) (htried : tried + 1 < 2 ^ 56)
    (hpc : wk.pc = .sealBlob) (hjob : wk'.job = wk.job) (hblob : wk'.blob = wk.blob)
    (hnonce : wk'.nonce = if wk'.pc.spent then wk.nonce else wk.nonce + 1)
    (hseals : wk'.pc.seals = false) :
    Steady w (tried + 1) (fun blob => mine blob ∨ blob = wk.blob) wk' := by
  have hspent : wk.pc.spent = false := by rw [hpc]; rfl
  have hsucc := h.nonce_succ hw (by omega)
  have hlow := h.low
  have hhigh : wk.nonce.toNat + wk.pc.spent.toNat ≤ w * 2 ^ 56 + tried := h.high
  have hreach : wk.reach = wk.nonce.toNat := by rw [reach, hspent]; rfl
  -- a hash that fails has its nonce counted up at once, any other one later
  have hreach' : wk'.reach = wk.nonce.toNat + 1 := by
    rw [reach, hnonce]
    cases wk'.pc.spent with
    | true => rfl
    | false => exact hsucc
  refine ⟨?_, ?_, hjob ▸ hblob ▸ h.length, ?_, fun hsealing => nomatch hseals.symm.trans hsealing⟩
  · rw [hnonce]
    split_ifs
    · exact hlow
    · omega
  · rw [hreach']
    omega
  · rintro hsome blob (hmine | rfl)
    · obtain ⟨nonce, hmarked, hlt⟩ := h.past (hjob ▸ hsome) blob hmine
      exact ⟨nonce, hmarked, by omega⟩
    · exact ⟨_, h.marked (by rw [hpc]; rfl), by omega⟩

/-- What a turn adds to the record, the worker leaves behind. -/
theorem turn {evaluated : Option (ArcJob × Bool)} {taken : Bool} (h : Steady w tried mine wk)
    (hturn : Turn w s wk evaluated taken wk') (hw : w < 64)
    (htried : tried + evaluated.toList.length < 2 ^ 56) :
    Steady w (tried + evaluated.toList.length)
      (fun blob => taken = false ∧ (mine blob ∨ evaluated.isSome ∧ blob = wk.blob)) wk' := by
  have hold : ∀ {blob},
      mine blob ∨ (none : Option (ArcJob × Bool)).isSome ∧ blob = wk.blob → mine blob := by simp
  cases hturn with
  | stay hjob hblob hnonce hspent hseals =>
    have hkept := h.keep hjob hblob (hnonce ▸ h.low) (by rw [reach, reach, hnonce, hspent]) hseals
    exact hkept.mono fun blob hmine => hold hmine.2
  | advance hspent =>
    exact (h.advance hw htried hspent).mono fun blob hmine => hold hmine.2
  | splice hpc harc =>
    exact (h.splice hpc harc).mono fun blob hmine => hold hmine.2
  | take harc hjob hblob hnonce hspent hseals =>
    exact .take hw hjob hblob hnonce hspent hseals fun _ hmine => nomatch hmine.1
  | lose hjob hnonce hspent hspent' hseals =>
    have hreach : wk'.reach = wk.reach := by rw [reach, reach, hnonce, hspent, hspent']
    refine ⟨hnonce ▸ h.low, hreach ▸ h.high, fun arc harc => ?_, fun hsome => absurd hjob hsome,
      fun hsealing => nomatch hseals.symm.trans hsealing⟩
    exact nomatch hjob.symm.trans harc
  | restart => exact .start hw _
  | hash hpc harc hjob hblob hnonce hseals =>
    refine (h.hash hw htried hpc hjob hblob hnonce hseals).mono ?_
    exact fun blob hmine => hmine.2.imp_right (·.2)

end Steady

end Worker

/-! ## The nonces of all workers -/

namespace Recorded
variable {n : ℕ} {params : Params} {config : Config} {t t' : Recorded n}

/-- What worker `w` has hashed of the job it took up last. -/
def Mine (t : Recorded n) (w : Fin n) (blob : Bytes) : Prop :=
  ∃ e ∈ t.evaluations, e.worker = w ∧ e.taking = t.takings w ∧ e.blob = blob

/-- Every worker keeps to its own nonces, and to new ones until it takes a job again. -/
structure Partitioned (t : Recorded n) : Prop where
  workers : ∀ w, (t.system.workers w).Steady w (t.tried w) (t.Mine w)
  taking : ∀ e ∈ t.evaluations, e.taking ≤ t.takings e.worker
  nonces : ∀ e ∈ t.evaluations, ∃ nonce, Marked nonce e.blob ∧
    e.worker * 2 ^ 56 ≤ nonce ∧ nonce < (e.worker + 1) * 2 ^ 56
  unrepeated : t.evaluations.Pairwise fun e e' =>
    e.blob = e'.blob → e.worker = e'.worker ∧ e.taking < e'.taking

theorem Partitioned.init (hn : n ≤ 64) : (Recorded.init n config).Partitioned where
  workers w := .start (w.isLt.trans_le hn) 0
  taking _ he := nomatch he
  nonces _ he := nomatch he
  unrepeated := .nil

/-- What a worker's step puts down. -/
def evaluation (t : Recorded n) (w : Fin n) (x : ArcJob × Bool) : Evaluation n :=
  ⟨w, t.takings w, x.1.job.algo, x.1.job.powKey, (t.system.workers w).blob, x.2⟩

/-- A blob that is hashed now was not hashed since its worker took the job, nor by another one. -/
theorem Partitioned.fresh (h : t.Partitioned) (hn : n ≤ 64) {w : Fin n} {e : Evaluation n}
    (htried : t.tried w + 1 < 2 ^ 56) (hseals : (t.system.workers w).pc = .sealBlob)
    (hjob : (t.system.workers w).job ≠ none) (he : e ∈ t.evaluations)
    (hblob : e.blob = (t.system.workers w).blob) : e.worker = w ∧ e.taking < t.takings w := by
  have hsteady := h.workers w
  have hlow := hsteady.low
  have hmarked := hsteady.marked (by rw [hseals]; rfl)
  have hw : (w : ℕ) < 64 := w.isLt.trans_le hn
  have hreach : (t.system.workers w).reach = (t.system.workers w).nonce.toNat := by
    rw [Worker.reach, hseals]
    rfl
  have hhigh := hreach ▸ hsteady.high
  obtain ⟨nonce, hnonce, hfrom, hto⟩ := h.nonces e he
  have he' : (e.worker : ℕ) < 64 := e.worker.isLt.trans_le hn
  rw [hblob] at hnonce
  -- the blob ends in its nonce, and the nonce is in the part of one worker
  have hsame := hnonce.unique hmarked (by omega) (by omega)
  have hworker : e.worker = w := Fin.ext (by omega)
  -- hashed since the job was taken, its nonce would be behind the one that is hashed now
  refine ⟨hworker, lt_of_le_of_ne (hworker ▸ h.taking e he) fun htaking => ?_⟩
  obtain ⟨nonce', hnonce', hlt⟩ := hsteady.past hjob _ ⟨e, he, hworker, htaking, hblob⟩
  have hsame' := hnonce'.unique hmarked (by omega) (by omega)
  omega

theorem step_worker {w : Fin n} {e : WorkerEvent}
    (h : t.step params config (.worker w e) = some t') :
    ∃ r, (t.system.workers w).step params w t.system.locks t.system.state e = some r ∧
      t'.system = t.system.setWorker w r.1 r.2 ∧
      t'.takings = (if (t.system.workers w).takes t.system.state then
        Function.update t.takings w (t.takings w + 1) else t.takings) ∧
      t'.evaluations = t.evaluations ++
        (((t.system.workers w).evaluates e).map (t.evaluation w)).toList := by
  obtain ⟨system, hsystem, rfl⟩ := Option.map_eq_some_iff.1 h
  obtain ⟨r, hr, rfl⟩ := Option.map_eq_some_iff.1 hsystem
  exact ⟨r, hr, rfl, rfl, rfl⟩

section StepWorker
variable {w : Fin n} {e : WorkerEvent} (hstep : t.step params config (.worker w e) = some t')
include hstep

theorem takings_le_step (v : Fin n) : t.takings v ≤ t'.takings v := by
  obtain ⟨-, -, -, htakings, -⟩ := step_worker hstep
  rw [htakings]
  split_ifs
  · by_cases hv : v = w
    · rw [hv, Function.update_self]
      exact Nat.le_succ _
    · rw [Function.update_of_ne hv]
  · exact le_rfl

theorem takings_step_of_ne {v : Fin n} (hv : v ≠ w) : t'.takings v = t.takings v := by
  obtain ⟨-, -, -, htakings, -⟩ := step_worker hstep
  rw [htakings]
  split_ifs
  · exact Function.update_of_ne hv _ _
  · rfl

theorem mem_evaluations_step {x : Evaluation n} (hx : x ∈ t'.evaluations) :
    x ∈ t.evaluations ∨
      ∃ y, (t.system.workers w).evaluates e = some y ∧ x = t.evaluation w y := by
  obtain ⟨-, -, -, -, hevaluations⟩ := step_worker hstep
  rw [hevaluations, List.mem_append, Option.mem_toList] at hx
  refine hx.imp_right fun hx => ?_
  obtain ⟨y, hy, rfl⟩ := Option.map_eq_some_iff.1 hx
  exact ⟨y, hy, rfl⟩

theorem tried_step (v : Fin n) : t'.tried v =
    t.tried v + if v = w then ((t.system.workers w).evaluates e).toList.length else 0 := by
  obtain ⟨-, -, -, -, hevaluations⟩ := step_worker hstep
  rw [tried, hevaluations, List.countP_append]
  congr 1
  cases (t.system.workers w).evaluates e with
  | none => simp
  | some x =>
    by_cases hv : v = w
    · simp [evaluation, hv]
    · simp [evaluation, hv, Ne.symm hv]

/-- Taking a job makes a new count: what was hashed before does not belong to it. -/
theorem Partitioned.mine_step (h : t.Partitioned) {blob : Bytes} (hmine : t'.Mine w blob) :
    (t.system.workers w).takes t.system.state = false ∧
      (t.Mine w blob ∨ ((t.system.workers w).evaluates e).isSome ∧
        blob = (t.system.workers w).blob) := by
  obtain ⟨x, hx, hxw, htaking, rfl⟩ := hmine
  obtain ⟨-, -, -, htakings, -⟩ := step_worker hstep
  have hold := mem_evaluations_step hstep hx
  have hle : x.taking ≤ t.takings w := by
    rcases hold with hold | ⟨y, -, rfl⟩
    · exact hxw ▸ h.taking x hold
    · exact le_rfl
  have htaken : (t.system.workers w).takes t.system.state = false := by
    by_contra htakes
    rw [Bool.not_eq_false] at htakes
    rw [htakings, if_pos htakes, Function.update_self] at htaking
    omega
  rw [htakings, htaken, if_neg Bool.false_ne_true] at htaking
  refine ⟨htaken, hold.imp (fun hold => ⟨x, hold, hxw, htaking, rfl⟩) ?_⟩
  rintro ⟨y, hy, rfl⟩
  exact ⟨by rw [hy]; rfl, rfl⟩

theorem Partitioned.steady_step (h : t.Partitioned) (hn : n ≤ 64)
    (htried : ∀ w, t'.tried w < 2 ^ 56) (v : Fin n) :
    (t'.system.workers v).Steady v (t'.tried v) (t'.Mine v) := by
  obtain ⟨r, hr, hsystem, -, -⟩ := step_worker hstep
  by_cases hv : v = w
  · subst hv
    have hbound := htried v
    rw [tried_step hstep, if_pos rfl] at hbound
    have hworker : t'.system.workers v = r.2 := by rw [hsystem]; exact Function.update_self ..
    have hsteady := (h.workers v).turn (Worker.step_turn hr) (v.isLt.trans_le hn) hbound
    rw [hworker, tried_step hstep, if_pos rfl]
    exact hsteady.mono fun blob hmine => h.mine_step hstep hmine
  · have hworker : t'.system.workers v = t.system.workers v := by
      rw [hsystem]
      exact Function.update_of_ne hv _ _
    rw [hworker, tried_step hstep, if_neg hv, add_zero]
    refine (h.workers v).mono ?_
    rintro blob ⟨x, hx, hxw, htaking, hblob⟩
    rcases mem_evaluations_step hstep hx with hx | ⟨y, -, rfl⟩
    · exact ⟨x, hx, hxw, by rw [htaking, takings_step_of_ne hstep hv], hblob⟩
    · exact absurd hxw.symm hv

/-- A worker that hashes holds a job and has room for one more nonce. -/
theorem sealing_step {x : ArcJob × Bool} (hx : (t.system.workers w).evaluates e = some x)
    (htried : ∀ w, t'.tried w < 2 ^ 56) : (t.system.workers w).pc = .sealBlob ∧
      (t.system.workers w).job ≠ none ∧ t.tried w + 1 < 2 ^ 56 := by
  obtain ⟨r, hr, -, -, -⟩ := step_worker hstep
  have hturn := Worker.step_turn hr
  have hbound := htried w
  rw [hx] at hturn
  rw [tried_step hstep, if_pos rfl, hx] at hbound
  exact ⟨hturn.seals.1, hturn.seals.2, hbound⟩

theorem Partitioned.nonces_step (h : t.Partitioned) (htried : ∀ w, t'.tried w < 2 ^ 56)
    {x : Evaluation n} (hx : x ∈ t'.evaluations) : ∃ nonce, Marked nonce x.blob ∧
      x.worker * 2 ^ 56 ≤ nonce ∧ nonce < (x.worker + 1) * 2 ^ 56 := by
  rcases mem_evaluations_step hstep hx with hx | ⟨y, hy, rfl⟩
  · exact h.nonces x hx
  · obtain ⟨hseals, -, hone⟩ := sealing_step hstep hy htried
    have hlow : (w : ℕ) * 2 ^ 56 ≤ (t.system.workers w).nonce.toNat := (h.workers w).low
    have hhigh : (t.system.workers w).nonce.toNat + (t.system.workers w).pc.spent.toNat ≤
        w * 2 ^ 56 + t.tried w := (h.workers w).high
    have hmarked := (h.workers w).marked (by rw [hseals]; rfl)
    have hbelow : (t.system.workers w).nonce.toNat < (w + 1) * 2 ^ 56 := by omega
    exact ⟨_, hmarked, hlow, hbelow⟩

theorem Partitioned.unrepeated_step (h : t.Partitioned) (hn : n ≤ 64)
    (htried : ∀ w, t'.tried w < 2 ^ 56) : t'.evaluations.Pairwise fun x x' =>
      x.blob = x'.blob → x.worker = x'.worker ∧ x.taking < x'.taking := by
  obtain ⟨-, -, -, -, hevaluations⟩ := step_worker hstep
  rw [hevaluations, List.pairwise_append]
  refine ⟨h.unrepeated, ?_, fun x hx x' hx' hblob => ?_⟩
  · cases (t.system.workers w).evaluates e with
    | none => exact .nil
    | some y => exact List.pairwise_singleton _ _
  · rw [Option.mem_toList] at hx'
    obtain ⟨y, hy, rfl⟩ := Option.map_eq_some_iff.1 hx'
    obtain ⟨hseals, hjob, hone⟩ := sealing_step hstep hy htried
    exact h.fresh hn hone hseals hjob hx hblob

theorem Partitioned.step_worker (h : t.Partitioned) (hn : n ≤ 64)
    (htried : ∀ w, t'.tried w < 2 ^ 56) : t'.Partitioned where
  workers := h.steady_step hstep hn htried
  taking x hx := by
    rcases mem_evaluations_step hstep hx with hx | ⟨y, -, rfl⟩
    · exact (h.taking x hx).trans (takings_le_step hstep _)
    · exact takings_le_step hstep w
  nonces _ hx := h.nonces_step hstep htried hx
  unrepeated := h.unrepeated_step hstep hn htried

end StepWorker

/-- The other threads hash nothing and leave the workers alone. -/
theorem step_other {a : Action n} (ha : ∀ w e, a ≠ .worker w e)
    (h : t.step params config a = some t') : t'.system.workers = t.system.workers ∧
      t'.takings = t.takings ∧ t'.evaluations = t.evaluations := by
  obtain ⟨system, hsystem, rfl⟩ := Option.map_eq_some_iff.1 h
  cases a with
  | worker w e => exact absurd rfl (ha w e)
  | session e =>
    obtain ⟨r, -, rfl⟩ := Option.map_eq_some_iff.1 hsystem
    exact ⟨rfl, rfl, rfl⟩
  | reporter bits =>
    obtain ⟨r, -, rfl⟩ := Option.map_eq_some_iff.1 hsystem
    exact ⟨rfl, rfl, rfl⟩

theorem Partitioned.congr (h : t.Partitioned) (hworkers : t'.system.workers = t.system.workers)
    (htakings : t'.takings = t.takings) (hevaluations : t'.evaluations = t.evaluations) :
    t'.Partitioned where
  workers w := by
    have htried : t'.tried w = t.tried w := by rw [tried, hevaluations, tried]
    rw [hworkers, htried]
    refine (h.workers w).mono fun blob => ?_
    rw [Mine, Mine, hevaluations, htakings]
    exact id
  taking := hevaluations ▸ htakings ▸ h.taking
  nonces := hevaluations ▸ h.nonces
  unrepeated := hevaluations ▸ h.unrepeated

theorem tried_le (h : ∃ new, t'.evaluations = t.evaluations ++ new) (w : Fin n) :
    t.tried w ≤ t'.tried w := by
  obtain ⟨new, hnew⟩ := h
  rw [tried, tried, hnew, List.countP_append]
  exact Nat.le_add_right _ _

/-- As long as no worker runs out of its nonces. -/
theorem partitioned_step (hn : n ≤ 64) : Runs.Invariant (step params config)
    fun t : Recorded n => (∀ w, t.tried w < 2 ^ 56) → t.Partitioned := by
  intro t a t' ih hstep htried
  by_cases hworker : ∃ w e, a = .worker w e
  · obtain ⟨w, e, rfl⟩ := hworker
    obtain ⟨-, -, -, -, hevaluations⟩ := step_worker hstep
    refine (ih fun v => ?_).step_worker hstep hn htried
    exact (tried_le ⟨_, hevaluations⟩ v).trans_lt (htried v)
  · push Not at hworker
    obtain ⟨hworkers, htakings, hevaluations⟩ := step_other hworker hstep
    refine (ih fun v => ?_).congr hworkers htakings hevaluations
    exact (tried_le ⟨[], by rw [hevaluations, List.append_nil]⟩ v).trans_lt (htried v)

/-- No blob is hashed by two workers, and none again by one worker before it has taken a job
from the slot again. -/
theorem hashed_again_after_taking (hn : n ≤ 64) {as : List (Action n)}
    (hrun : Runs.run (step params config) (init n config) as = some t)
    (htried : ∀ w, t.tried w < 2 ^ 56) : t.evaluations.Pairwise fun e e' =>
      (e.algo, e.key, e.blob) = (e'.algo, e'.key, e'.blob) →
        e.worker = e'.worker ∧ e.taking < e'.taking := by
  have hpartitioned : t.Partitioned := (partitioned_step hn).run (fun _ => .init hn) hrun htried
  refine hpartitioned.unrepeated.imp fun h heq => h ?_
  exact (Prod.mk.inj (Prod.mk.inj heq).2).2

theorem length_evaluations_le {as : List (Action n)}
    (hrun : Runs.run (step params config) t as = some t') :
    t'.evaluations.length ≤ t.evaluations.length + as.length := by
  induction as generalizing t with
  | nil =>
    cases hrun
    exact le_rfl
  | cons a as ih =>
    obtain ⟨next, hstep, hrun⟩ := Runs.run_cons_eq_some.1 hrun
    have hone : next.evaluations.length ≤ t.evaluations.length + 1 := by
      by_cases hworker : ∃ w e, a = .worker w e
      · obtain ⟨w, e, rfl⟩ := hworker
        obtain ⟨-, -, -, -, hevaluations⟩ := step_worker hstep
        rw [hevaluations, List.length_append]
        exact Nat.add_le_add_left Option.length_toList_le _
      · push Not at hworker
        obtain ⟨-, -, hevaluations⟩ := step_other hworker hstep
        rw [hevaluations]
        exact Nat.le_succ _
    have hrest := ih hrun
    rw [List.length_cons]
    omega

/-- In every run of the engine that is short of 2^56 steps, each worker keeps to its own part of
the nonces. -/
theorem nonce_in_part (hn : n ≤ 64) {as : List (Action n)} (hlength : as.length < 2 ^ 56)
    {s : System n} (hrun : System.run params config (System.init n config) as = some s)
    (w : Fin n) : w * 2 ^ 56 ≤ (s.workers w).nonce.toNat ∧
      (s.workers w).nonce.toNat < (w + 1) * 2 ^ 56 := by
  have hrecorded : (Runs.run (step params config) (init n config) as).map system =
      System.run params config (System.init n config) as := run_system
  rw [hrun] at hrecorded
  obtain ⟨t, ht, rfl⟩ := Option.map_eq_some_iff.1 hrecorded
  have hevaluations : t.evaluations.length ≤ 0 + as.length := length_evaluations_le ht
  have htried (v : Fin n) : t.tried v ≤ t.evaluations.length := List.countP_le_length
  have hpartitioned : t.Partitioned := (partitioned_step hn).run (fun _ => .init hn) ht fun v =>
    (htried v).trans_lt (by omega)
  have hhigh : (t.system.workers w).nonce.toNat + (t.system.workers w).pc.spent.toNat ≤
      w * 2 ^ 56 + t.tried w := (hpartitioned.workers w).high
  have hbound := htried w
  exact ⟨(hpartitioned.workers w).low, by omega⟩

/-- A share is written, and the pool pushes the same job once more. -/
def pushAgain : List (Action 1) :=
  openPool "a" ++ solveShare 0 ++ writeShare 0 ++
    arrives (jobPush "a") :: List.replicate 4 (.session .tick) ++
      List.replicate 5 (.worker 0 .tick) ++ solveShare 0

theorem run_pushAgain : ∃ t, Runs.run (step plainParams poolConfig) (init 1 poolConfig) pushAgain =
      some t ∧ (∀ w, t.tried w < 2 ^ 56) ∧
    t.evaluations.map (fun e => (e.algo, e.key, e.blob, e.succeeded)) =
      List.replicate 2 (.sha256d, [], List.replicate 8 0, true) := by
  have hsome : ((Runs.run (step plainParams poolConfig) (init 1 poolConfig) pushAgain).map fun t =>
      t.evaluations.map fun e => (e.algo, e.key, e.blob, e.succeeded)) =
        some (List.replicate 2 (.sha256d, [], List.replicate 8 0, true)) := by decide +kernel
  obtain ⟨t, hrun, hevaluations⟩ := Option.map_eq_some_iff.1 hsome
  have hlength : t.evaluations.length = 2 := by
    simpa using congrArg List.length hevaluations
  refine ⟨t, hrun, fun w => ?_, hevaluations⟩
  have hle : t.tried w ≤ t.evaluations.length := List.countP_le_length
  omega

theorem hashed_again_after_taking_pushAgain : ∃ t : Recorded 1, t.evaluations.length = 2 ∧
    t.evaluations.Pairwise fun e e' =>
      (e.algo, e.key, e.blob) = (e'.algo, e'.key, e'.blob) →
        e.worker = e'.worker ∧ e.taking < e'.taking := by
  obtain ⟨t, hrun, htried, hevaluations⟩ := run_pushAgain
  exact ⟨t, by simpa using congrArg List.length hevaluations,
    hashed_again_after_taking (by decide) hrun htried⟩

/-- The nonce starts over with the generation, whatever the job is. -/
theorem nonce_starts_over : ∃ t, Runs.run (step plainParams poolConfig) (init 1 poolConfig)
      pushAgain = some t ∧ (∀ w, t.tried w < 2 ^ 56) ∧
    ¬ ((t.evaluations.filter (·.succeeded)).map fun e => (e.algo, e.key, e.blob)).Nodup := by
  obtain ⟨t, hrun, htried, hevaluations⟩ := run_pushAgain
  refine ⟨t, hrun, htried, fun hnodup => ?_⟩
  have hall : ∀ e ∈ t.evaluations, e.succeeded = true := by
    intro e he
    have hmem := List.mem_map_of_mem (f := fun e : Evaluation 1 =>
      (e.algo, e.key, e.blob, e.succeeded)) he
    rw [hevaluations] at hmem
    exact congrArg (·.2.2.2) (List.eq_of_mem_replicate hmem)
  have hhashes := congrArg (List.map fun x => (x.1, x.2.1, x.2.2.1)) hevaluations
  rw [List.map_map] at hhashes
  rw [List.filter_eq_self.2 hall] at hnodup
  exact absurd (hhashes ▸ hnodup) (by decide)

end Recorded

end XusMiner.Engine

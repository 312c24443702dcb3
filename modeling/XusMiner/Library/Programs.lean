import XusMiner.Library.Runs

/-! Programs that make calls of a system they share, any of which may stop for good between two
calls, and the rely and guarantee rules for them. -/

/-- A program makes a call, goes on with the reply, and in the end returns. -/
inductive Program (Call : Type) (Reply : Call → Type) (α : Type) where
  | done (a : α)
  | call (c : Call) (next : Reply c → Program Call Reply α)

namespace Program

variable {Call : Type} {Reply : Call → Type} {α β ε ε' : Type}

def bind : Program Call Reply α → (α → Program Call Reply β) → Program Call Reply β
  | .done a, f => f a
  | .call c next, f => .call c fun r => (next r).bind f

instance : Monad (Program Call Reply) where
  pure := .done
  bind := bind

def perform (c : Call) : Program Call Reply (Reply c) := .call c .done

/-- A program whose errors are of another kind. -/
def mapError (g : ε → ε') (x : ExceptT ε (Program Call Reply) α) :
    ExceptT ε' (Program Call Reply) α := x.run.bind fun r => .done (r.mapError g)

variable {σ Fate : Type}

/-- How a program and the others behave on the state they share: what holds of it at all times, and
what the others, and what the program itself, may change. -/
structure Conduct (σ : Type) where
  invariant : σ → Prop
  rely : σ → σ → Prop
  guarantee : σ → σ → Prop
  rely_refl : ∀ s, rely s s
  rely_trans : ∀ s t u, rely s t → rely t u → rely s u

/-- The others do not make `P` false. -/
def Conduct.Stable (co : Conduct σ) (P : σ → Prop) : Prop :=
  ∀ s t, co.rely s t → co.invariant t → P s → P t

theorem Conduct.Stable.and {co : Conduct σ} {P Q : σ → Prop} (hP : co.Stable P)
    (hQ : co.Stable Q) : co.Stable fun s => P s ∧ Q s :=
  fun s t hst ht h => ⟨hP s t hst ht h.1, hQ s t hst ht h.2⟩

theorem Conduct.Stable.imp {co : Conduct σ} {p : Prop} {P : σ → Prop} (hP : co.Stable P) :
    co.Stable fun s => p → P s :=
  fun s t hst ht h hp => hP s t hst ht (h hp)

variable (answer : σ → Fate → (c : Call) → Reply c × σ) (co : Conduct σ)

/-- From `s` on the program keeps to its conduct, and `Q` holds of what it returns. -/
def Ensures : Program Call Reply α → (α → σ → Prop) → σ → Prop
  | .done a, Q, s => ∀ t, co.rely s t → co.invariant t → Q a t
  | .call c next, Q, s => ∀ t, co.rely s t → co.invariant t → ∀ fate,
      co.invariant (answer t fate c).2 ∧ co.guarantee t (answer t fate c).2 ∧
        Ensures (next (answer t fate c).1) Q (answer t fate c).2

variable {answer co} {Q : α → σ → Prop} {s t : σ}

theorem Ensures.of_rely {p : Program Call Reply α} (h : Ensures answer co p Q s)
    (hrely : co.rely s t) : Ensures answer co p Q t := by
  cases p with
  | done a => exact fun u hu => h u (co.rely_trans s t u hrely hu)
  | call c next => exact fun u hu => h u (co.rely_trans s t u hrely hu)

theorem Ensures.mono {p : Program Call Reply α} {R : α → σ → Prop} (h : Ensures answer co p Q s)
    (hQ : ∀ a t, co.invariant t → Q a t → R a t) : Ensures answer co p R s := by
  induction p generalizing s with
  | done a => exact fun t ht hinv => hQ a t hinv (h t ht hinv)
  | call c next ih =>
    intro t ht hinv fate
    obtain ⟨hinv', hguar, hnext⟩ := h t ht hinv fate
    exact ⟨hinv', hguar, ih _ hnext⟩

theorem Ensures.and {p : Program Call Reply α} {R : α → σ → Prop} (h : Ensures answer co p Q s)
    (h' : Ensures answer co p R s) : Ensures answer co p (fun a t => Q a t ∧ R a t) s := by
  induction p generalizing s with
  | done a => exact fun t ht hinv => ⟨h t ht hinv, h' t ht hinv⟩
  | call c next ih =>
    intro t ht hinv fate
    obtain ⟨hinv', hguar, hnext⟩ := h t ht hinv fate
    exact ⟨hinv', hguar, ih _ hnext (h' t ht hinv fate).2.2⟩

/-- The others, and the others alone, leave it at that. -/
theorem Ensures.of_done {a : α} (h : Ensures answer co (.done a : Program Call Reply α) Q s)
    (hinv : co.invariant s) : Q a s := h s (co.rely_refl s) hinv

variable (answer co) in
/-- From where `P` holds the program keeps to its conduct and returns what `Q` says. -/
def Meets (P : σ → Prop) (p : Program Call Reply α) (Q : α → σ → Prop) : Prop :=
  ∀ s, co.invariant s → P s → Ensures answer co p Q s

variable {P : σ → Prop}

theorem Meets.consequence {p : Program Call Reply α} {P' : σ → Prop} {Q' : α → σ → Prop}
    (h : Meets answer co P p Q) (hP : ∀ s, co.invariant s → P' s → P s)
    (hQ : ∀ a s, co.invariant s → Q a s → Q' a s) : Meets answer co P' p Q' :=
  fun s hinv hs => (h s hinv (hP s hinv hs)).mono hQ

theorem meets_done {a : α} (hstable : co.Stable (Q a)) (h : ∀ s, co.invariant s → P s → Q a s) :
    Meets answer co P (.done a) Q :=
  fun s hs hP t ht hinv => hstable s t ht hinv (h s hs hP)

/-- The rule for a call: what is known before it bears what the others do. -/
theorem meets_call {c : Call} {next : Reply c → Program Call Reply α} {R : Reply c → σ → Prop}
    (hstable : co.Stable P)
    (hcall : ∀ s fate, co.invariant s → P s → co.invariant (answer s fate c).2 ∧
      co.guarantee s (answer s fate c).2 ∧ R (answer s fate c).1 (answer s fate c).2)
    (hnext : ∀ r, Meets answer co (R r) (next r) Q) : Meets answer co P (.call c next) Q := by
  intro s _ hP t ht hinv fate
  obtain ⟨hkept, hguar, hR⟩ := hcall t fate hinv (hstable s t ht hinv hP)
  exact ⟨hkept, hguar, hnext _ _ hkept hR⟩

theorem meets_perform {c : Call} {R : Reply c → σ → Prop} (hP : co.Stable P)
    (hR : ∀ r, co.Stable (R r))
    (hcall : ∀ s fate, co.invariant s → P s → co.invariant (answer s fate c).2 ∧
      co.guarantee s (answer s fate c).2 ∧ R (answer s fate c).1 (answer s fate c).2) :
    Meets answer co P (perform c) R :=
  meets_call hP hcall fun r => meets_done (hR r) fun _ _ h => h

theorem ensures_bind {p : Program Call Reply α} {f : α → Program Call Reply β} {Q : β → σ → Prop}
    (hinv : co.invariant s) (h : Ensures answer co p (fun a => Ensures answer co (f a) Q) s) :
    Ensures answer co (p.bind f) Q s := by
  induction p generalizing s with
  | done a => exact h.of_done hinv
  | call c next ih =>
    intro t ht hinv' fate
    obtain ⟨hkept, hguar, hnext⟩ := h t ht hinv' fate
    exact ⟨hkept, hguar, ih _ hkept hnext⟩

theorem Meets.bind {p : Program Call Reply α} {f : α → Program Call Reply β} {R : α → σ → Prop}
    {Q : β → σ → Prop} (hp : Meets answer co P p R) (hf : ∀ a, Meets answer co (R a) (f a) Q) :
    Meets answer co P (p.bind f) Q :=
  fun s hinv hP => ensures_bind hinv ((hp s hinv hP).mono fun a t ht hR => hf a t ht hR)

/-- All calls of the program satisfy `p`. -/
def Only (p : Call → Prop) : Program Call Reply α → Prop
  | .done _ => True
  | .call c next => p c ∧ ∀ r, (next r).Only p

theorem only_pure {p : Call → Prop} {a : α} :
    (pure a : ExceptT ε (Program Call Reply) α).run.Only p := trivial

theorem only_throw {p : Call → Prop} {e : ε} :
    (throw e : ExceptT ε (Program Call Reply) α).run.Only p := trivial

theorem only_bind {p : Call → Prop} {x : Program Call Reply α} {f : α → Program Call Reply β}
    (hx : x.Only p) (hf : ∀ a, (f a).Only p) : (x.bind f).Only p := by
  induction x with
  | done a => exact hf a
  | call c next ih => exact ⟨hx.1, fun r => ih r (hx.2 r)⟩

theorem only_bindExcept {p : Call → Prop} {x : ExceptT ε (Program Call Reply) α}
    {f : α → ExceptT ε (Program Call Reply) β} (hx : x.run.Only p) (hf : ∀ a, (f a).run.Only p) :
    (x >>= f).run.Only p := by
  apply only_bind hx
  intro r
  cases r with
  | ok a => exact hf a
  | error e => exact trivial

theorem only_mapError {p : Call → Prop} {g : ε → ε'} {x : ExceptT ε (Program Call Reply) α}
    (hx : x.run.Only p) : (mapError g x).run.Only p := only_bind hx fun _ => trivial

/-- Calls that only look at the state keep what is known of it. -/
theorem meets_of_only {p : Call → Prop} {x : Program Call Reply α} (hx : x.Only p)
    (hreads : ∀ c, p c → ∀ s fate, (answer s fate c).2 = s) (hguar : ∀ s, co.guarantee s s)
    (hP : co.Stable P) : Meets answer co P x (fun _ => P) := by
  induction x with
  | done a => exact meets_done hP fun s _ h => h
  | call c next ih =>
    refine meets_call hP (fun s fate hinv h => ?_) fun r => ih r (hx.2 r)
    rw [hreads c hx.1]
    exact ⟨hinv, hguar s, h⟩

variable (answer co) in
/-- As `Meets`, for what a program returns when it returns no error. -/
def Yields (P : σ → Prop) (x : ExceptT ε (Program Call Reply) α) (Q : α → σ → Prop) : Prop :=
  Meets answer co P x.run fun r s => ∀ a, r = .ok a → Q a s

theorem Yields.consequence {x : ExceptT ε (Program Call Reply) α} {P' : σ → Prop}
    {Q' : α → σ → Prop} (h : Yields answer co P x Q) (hP : ∀ s, co.invariant s → P' s → P s)
    (hQ : ∀ a s, co.invariant s → Q a s → Q' a s) : Yields answer co P' x Q' :=
  Meets.consequence h hP fun _ s hinv hr a ha => hQ a s hinv (hr a ha)

/-- What does not depend on the state may be assumed. -/
theorem yields_of_imp {p : Prop} {x : ExceptT ε (Program Call Reply) α}
    (h : p → Yields answer co P x Q) : Yields answer co (fun s => P s ∧ p) x Q :=
  fun s hinv hs => h hs.2 s hinv hs.1

/-- What is known to exist may be given a name. -/
theorem yields_exists {ι : Sort*} {P : ι → σ → Prop} {x : ExceptT ε (Program Call Reply) α}
    (h : ∀ i, Yields answer co (P i) x Q) : Yields answer co (fun s => ∃ i, P i s) x Q :=
  fun s hinv ⟨i, hi⟩ => h i s hinv hi

theorem yields_pure {a : α} (hstable : co.Stable (Q a)) (h : ∀ s, co.invariant s → P s → Q a s) :
    Yields answer co P (pure a : ExceptT ε (Program Call Reply) α) Q :=
  meets_done (fun s t ht hinv hs b hb => by cases hb; exact hstable s t ht hinv (hs a rfl))
    fun s hinv hP b hb => by cases hb; exact h s hinv hP

theorem yields_throw {e : ε} :
    Yields answer co P (throw e : ExceptT ε (Program Call Reply) α) Q :=
  meets_done (fun _ _ _ _ _ _ hb => nomatch hb) fun _ _ _ _ hb => nomatch hb

theorem Yields.bind {x : ExceptT ε (Program Call Reply) α}
    {f : α → ExceptT ε (Program Call Reply) β} {R : α → σ → Prop} {Q : β → σ → Prop}
    (hx : Yields answer co P x R) (hf : ∀ a, Yields answer co (R a) (f a) Q) :
    Yields answer co P (x >>= f) Q := by
  apply Meets.bind hx
  intro r
  cases r with
  | ok a => exact (hf a).consequence (fun s _ hs => hs a rfl) fun _ _ _ h => h
  | error e => exact yields_throw

theorem yields_pureBind {a : α} {f : α → ExceptT ε (Program Call Reply) β} {Q : β → σ → Prop}
    (h : Yields answer co P (f a) Q) : Yields answer co P (pure a >>= f) Q := h

theorem Yields.mapError {g : ε → ε'} {x : ExceptT ε (Program Call Reply) α}
    (hstable : ∀ a, co.Stable (Q a)) (hx : Yields answer co P x Q) :
    Yields answer co P (mapError g x) Q := by
  apply Meets.bind hx
  intro r
  cases r with
  | ok a => exact yields_pure (hstable a) fun s _ hs => hs a rfl
  | error e => exact yields_throw

/-- A program whose errors are looked at. -/
def observe (x : ExceptT ε (Program Call Reply) α) :
    ExceptT ε' (Program Call Reply) (Except ε α) := ExceptT.lift x.run

theorem only_observe {p : Call → Prop} {x : ExceptT ε (Program Call Reply) α} (hx : x.run.Only p) :
    (observe x : ExceptT ε' (Program Call Reply) (Except ε α)).run.Only p :=
  only_bind hx fun _ => trivial

theorem yields_observe {x : ExceptT ε (Program Call Reply) α} {R : Except ε α → σ → Prop}
    (hstable : ∀ r, co.Stable (R r)) (hx : Meets answer co P x.run R) :
    Yields answer co P (observe x : ExceptT ε' (Program Call Reply) (Except ε α)) R :=
  Meets.bind hx fun r => yields_pure (hstable r) fun _ _ h => h

/-- The conduct of a program that has the state to itself. -/
def Conduct.solo (invariant : σ → Prop) (guarantee : σ → σ → Prop) : Conduct σ where
  invariant := invariant
  rely := Eq
  guarantee := guarantee
  rely_refl _ := rfl
  rely_trans _ _ _ := Eq.trans

theorem Conduct.solo_stable {invariant : σ → Prop} {guarantee : σ → σ → Prop} :
    (Conduct.solo invariant guarantee).Stable P := by
  intro s t hst _ hs
  cases hst
  exact hs

theorem meets_solo {invariant : σ → Prop} {guarantee : σ → σ → Prop} {c : Call}
    {R : Reply c → σ → Prop}
    (hcall : ∀ s fate, invariant s → P s → invariant (answer s fate c).2 ∧
      guarantee s (answer s fate c).2 ∧ R (answer s fate c).1 (answer s fate c).2) :
    Meets answer (.solo invariant guarantee) P (perform c) R :=
  meets_perform Conduct.solo_stable (fun _ => Conduct.solo_stable) hcall

section succeeds
variable (answer) in
/-- Alone and with calls that meet such a fate, the program returns, returns no error, and what `Q`
says. -/
def Succeeds (calm : Fate → Prop) (P : σ → Prop) (x : ExceptT ε (Program Call Reply) α)
    (Q : α → σ → Prop) : Prop :=
  Meets (fun s (fate : {fate // calm fate}) => answer s fate.1)
    (.solo (fun _ => True) fun _ _ => True) P x.run fun r s => ∃ a, r = .ok a ∧ Q a s

variable {calm : Fate → Prop} {x : ExceptT ε (Program Call Reply) α}

theorem Succeeds.consequence {P' : σ → Prop} {Q' : α → σ → Prop}
    (h : Succeeds answer calm P x Q) (hP : ∀ s, P' s → P s) (hQ : ∀ a s, Q a s → Q' a s) :
    Succeeds answer calm P' x Q' :=
  Meets.consequence h (fun s _ => hP s) fun _ s _ ⟨a, ha, hs⟩ => ⟨a, ha, hQ a s hs⟩

/-- What returns no error, and what its result is otherwise. -/
theorem Succeeds.of_yields {S : σ → Prop} (h : Succeeds answer calm P x fun _ _ => True)
    (hP : ∀ s, P s → S s)
    (hx : Yields (fun s (fate : {fate // calm fate}) => answer s fate.1)
      (.solo (fun _ => True) fun _ _ => True) S x Q) : Succeeds answer calm P x Q := by
  intro s hinv hs
  refine ((h s hinv hs).and (hx s hinv (hP s hs))).mono ?_
  rintro r t - ⟨⟨a, ha, -⟩, hQ⟩
  exact ⟨a, ha, hQ a ha⟩

theorem succeeds_pure {a : α} (h : ∀ s, P s → Q a s) :
    Succeeds answer calm P (pure a : ExceptT ε (Program Call Reply) α) Q :=
  meets_done Conduct.solo_stable fun s _ hs => ⟨a, rfl, h s hs⟩

theorem Succeeds.bind {f : α → ExceptT ε (Program Call Reply) β} {R : α → σ → Prop}
    {Q : β → σ → Prop} (hx : Succeeds answer calm P x R)
    (hf : ∀ a, Succeeds answer calm (R a) (f a) Q) : Succeeds answer calm P (x >>= f) Q := by
  apply Meets.bind hx
  intro r s hinv ⟨a, ha, hs⟩
  cases ha
  exact hf a s hinv hs

theorem Succeeds.mapError {g : ε → ε'} (hx : Succeeds answer calm P x Q) :
    Succeeds answer calm P (mapError g x) Q := by
  apply Meets.bind hx
  intro r s hinv ⟨a, ha, hs⟩
  cases ha
  exact succeeds_pure (fun _ h => h) s hinv hs

theorem succeeds_observe {R : Except ε α → σ → Prop}
    (hx : Meets (fun s (fate : {fate // calm fate}) => answer s fate.1)
      (.solo (fun _ => True) fun _ _ => True) P x.run R) :
    Succeeds answer calm P (observe x : ExceptT ε' (Program Call Reply) (Except ε α)) R :=
  Meets.bind hx fun _ => succeeds_pure fun _ h => h

theorem Succeeds.observe (hx : Succeeds answer calm P x Q) :
    Succeeds answer calm P (observe x : ExceptT ε' (Program Call Reply) (Except ε α))
      fun r s => ∃ a, r = .ok a ∧ Q a s := succeeds_observe hx

end succeeds

variable (answer) in
/-- The program alone, one call after another, each with its fate. -/
def alone : Program Call Reply α → (ℕ → Fate) → σ → α × σ
  | .done a, _, s => (a, s)
  | .call c next, fates, s =>
    (next (answer s (fates 0) c).1).alone (fun n => fates (n + 1)) (answer s (fates 0) c).2

theorem Ensures.alone {calm : Fate → Prop} {p : Program Call Reply α} {fates : ℕ → Fate}
    (h : Ensures (fun s (fate : {fate // calm fate}) => answer s fate.1)
      (.solo (fun _ => True) fun _ _ => True) p Q s) (hcalm : ∀ n, calm (fates n)) :
    Q (p.alone answer fates s).1 (p.alone answer fates s).2 := by
  induction p generalizing s fates with
  | done a => exact h.of_done trivial
  | call c next ih => exact ih _ (h s rfl trivial ⟨fates 0, hcalm 0⟩).2.2 fun n => hcalm (n + 1)

/-- What succeeds whatever calm fate its calls meet, succeeds when it is run so. -/
theorem Succeeds.alone {calm : Fate → Prop} {x : ExceptT ε (Program Call Reply) α}
    {fates : ℕ → Fate} (h : Succeeds answer calm P x Q) (hcalm : ∀ n, calm (fates n)) (hs : P s) :
    ∃ a, (x.run.alone answer fates s).1 = .ok a ∧ Q a (x.run.alone answer fates s).2 :=
  (h s trivial hs).alone hcalm

end Program

/-- The live programs of several processes, the state they share, and what has been returned. -/
structure Pool (ι σ Job Call : Type) (Reply : Call → Type) (α : Type) where
  live : ι → Option (Job × Program Call Reply α)
  state : σ
  returned : List (ι × Job × α)

namespace Pool

inductive Action (ι Job Fate Loss : Type)
  | launch (i : ι) (job : Job)
  | call (i : ι) (fate : Fate)
  | finish (i : ι)
  | kill (i : ι)
  | lose (loss : Loss)  -- the power fails: nothing is left running

variable {ι σ Job Call Fate Loss α : Type} {Reply : Call → Type} [DecidableEq ι]
variable (answer : ι → σ → Fate → (c : Call) → Reply c × σ) (lose : σ → Loss → σ)
variable (program : ι → Job → Program Call Reply α)

def start (s : σ) : Pool ι σ Job Call Reply α := ⟨fun _ => none, s, []⟩

def setLive (pool : Pool ι σ Job Call Reply α) (i : ι)
    (p : Option (Job × Program Call Reply α)) : Pool ι σ Job Call Reply α :=
  { pool with live := Function.update pool.live i p }

def step (pool : Pool ι σ Job Call Reply α) :
    Action ι Job Fate Loss → Option (Pool ι σ Job Call Reply α)
  | .launch i job =>
    match pool.live i with
    | none => some (pool.setLive i (some (job, program i job)))
    | some _ => none
  | .call i fate =>
    match pool.live i with
    | some (job, .call c next) =>
      let (reply, state) := answer i pool.state fate c
      some { pool.setLive i (some (job, next reply)) with state }
    | _ => none
  | .finish i =>
    match pool.live i with
    | some (job, .done a) =>
      some { pool.setLive i none with returned := pool.returned ++ [(i, job, a)] }
    | _ => none
  | .kill i => some (pool.setLive i none)
  | .lose loss => some { pool with live := fun _ => none, state := lose pool.state loss }

@[simp] theorem setLive_self (pool : Pool ι σ Job Call Reply α) (i : ι)
    (p : Option (Job × Program Call Reply α)) : (pool.setLive i p).live i = p :=
  Function.update_self ..

theorem step_launch {pool pool' : Pool ι σ Job Call Reply α} {i : ι} {job : Job}
    (h : pool.step answer lose program (.launch i job : Action ι Job Fate Loss) = some pool') :
    pool.live i = none ∧ pool' = pool.setLive i (some (job, program i job)) := by
  simp only [step] at h
  split at h
  · exact ⟨‹_›, (Option.some.inj h).symm⟩
  · cases h

theorem step_finish {pool : Pool ι σ Job Call Reply α} {i : ι} {job : Job} {a : α}
    (h : pool.live i = some (job, .done a)) :
    pool.step answer lose program (.finish i : Action ι Job Fate Loss) =
      some { pool.setLive i none with returned := pool.returned ++ [(i, job, a)] } := by
  simp only [step, h]

/-- A live program that is left alone gets to what it returns. -/
theorem run_alone (fates : ℕ → Fate) {i : ι} {job : Job} {p : Program Call Reply α}
    {pool : Pool ι σ Job Call Reply α} (hlive : pool.live i = some (job, p)) :
    ∃ calls : List Fate, Runs.run (step answer lose program) pool
      (calls.map fun fate => (.call i fate : Action ι Job Fate Loss)) =
        some { pool.setLive i (some (job, .done (p.alone (answer i) fates pool.state).1)) with
          state := (p.alone (answer i) fates pool.state).2 } := by
  induction p generalizing pool fates with
  | done a =>
    refine ⟨[], congrArg some ?_⟩
    have hsame : pool.setLive i (some (job, .done a)) = pool := by
      rw [setLive, ← hlive, Function.update_eq_self]
    exact hsame.symm
  | call c next ih =>
    set reply := answer i pool.state (fates 0) c with hreply
    set pool' : Pool ι σ Job Call Reply α :=
      { pool.setLive i (some (job, next reply.1)) with state := reply.2 } with hpool
    have hlive' : pool'.live i = some (job, next reply.1) := Function.update_self ..
    obtain ⟨calls, hcalls⟩ := ih reply.1 (fun n => fates (n + 1)) hlive'
    have hstep : step answer lose program pool (.call i (fates 0)) = some pool' := by
      simp only [step, hlive]
      rfl
    refine ⟨fates 0 :: calls, ?_⟩
    rw [List.map_cons, Runs.run_cons_eq_some]
    refine ⟨pool', hstep, hcalls.trans (congrArg some ?_)⟩
    simp only [hpool, setLive, Function.update_idem]
    rfl

/-- Programs that keep to their conduct and bear that of the others: `Launched` are the jobs that
may be launched from now on, `Allowed` also those that are live already. -/
structure Sound (co : ι → Job → Program.Conduct σ) (Launched Allowed : ι → Job → Prop)
    (Q : ι → Job → α → σ → Prop) (invariant : σ → Prop) : Prop where
  allowed : ∀ i job, Launched i job → Allowed i job
  same : ∀ i job, (co i job).invariant = invariant
  bears : ∀ i j, i ≠ j → ∀ job job' s t, Allowed j job' → invariant s → invariant t →
    (co j job').guarantee s t → (co i job).rely s t
  program : ∀ i job, Launched i job → ∀ s, invariant s →
    Program.Ensures (answer i) (co i job) (program i job) (Q i job) s
  lose : ∀ s loss, invariant s → invariant (lose s loss)

/-- What holds of a pool of such programs at all times. -/
structure Keeps (co : ι → Job → Program.Conduct σ) (Allowed : ι → Job → Prop)
    (Q : ι → Job → α → σ → Prop) (invariant : σ → Prop) (pool : Pool ι σ Job Call Reply α) :
    Prop where
  state : invariant pool.state
  allowed : ∀ i job p, pool.live i = some (job, p) → Allowed i job
  live : ∀ i job p, pool.live i = some (job, p) →
    Program.Ensures (answer i) (co i job) p (Q i job) pool.state

/-- Only such jobs are launched. -/
def Action.Launches (Launched : ι → Job → Prop) : Action ι Job Fate Loss → Prop
  | .launch i job => Launched i job
  | _ => True

variable {answer lose program}
variable {co : ι → Job → Program.Conduct σ} {Launched Allowed : ι → Job → Prop}
  {Q : ι → Job → α → σ → Prop} {invariant : σ → Prop} {pool pool' : Pool ι σ Job Call Reply α}

theorem setLive_live (i j : ι) (p : Option (Job × Program Call Reply α)) :
    (pool.setLive i p).live j = if j = i then p else pool.live j := Function.update_apply ..

omit [DecidableEq ι] in
theorem keeps_start {s : σ} (h : invariant s) :
    Keeps answer co Allowed Q invariant (start s : Pool ι σ Job Call Reply α) :=
  ⟨h, nofun, nofun⟩

/-- The program of a process that is not live any more has nothing left to keep. -/
theorem Keeps.stop (h : Keeps answer co Allowed Q invariant pool) (i : ι)
    (returned : List (ι × Job × α)) :
    Keeps answer co Allowed Q invariant { pool.setLive i none with returned } := by
  have hlive (j : ι) (job : Job) (p : Program Call Reply α)
      (hj : (pool.setLive i none).live j = some (job, p)) : pool.live j = some (job, p) := by
    rw [setLive_live] at hj
    split_ifs at hj
    exact hj
  exact ⟨h.state, fun j job p hj => h.allowed j job p (hlive j job p hj),
    fun j job p hj => h.live j job p (hlive j job p hj)⟩

/-- A process gets a program that keeps to its conduct. -/
theorem keeps_setLive {i : ι} {job : Job} {p : Program Call Reply α}
    (hstate : invariant pool.state) (hallowed : Allowed i job)
    (hp : Program.Ensures (answer i) (co i job) p (Q i job) pool.state)
    (hothers : ∀ j, j ≠ i → ∀ job p, pool.live j = some (job, p) →
      Allowed j job ∧ Program.Ensures (answer j) (co j job) p (Q j job) pool.state) :
    Keeps answer co Allowed Q invariant (pool.setLive i (some (job, p))) := by
  refine ⟨hstate, fun j job' p' hj => ?_, fun j job' p' hj => ?_⟩
  all_goals
    rw [setLive_live] at hj
    split_ifs at hj with hji
  · cases hj
    exact hji ▸ hallowed
  · exact (hothers j hji job' p' hj).1
  · cases hj
    exact hji ▸ hp
  · exact (hothers j hji job' p' hj).2

omit [DecidableEq ι] in
/-- Other jobs may be allowed and other things said of what is returned, as long as that holds of
the programs that are live. -/
theorem Keeps.mono {Allowed' : ι → Job → Prop} {Q' : ι → Job → α → σ → Prop}
    (h : Keeps answer co Allowed Q invariant pool)
    (hallowed : ∀ i job p, pool.live i = some (job, p) → Allowed' i job)
    (hQ : ∀ i job p, pool.live i = some (job, p) → ∀ a s, Q i job a s → Q' i job a s) :
    Keeps answer co Allowed' Q' invariant pool :=
  ⟨h.state, hallowed, fun i job p hi => (h.live i job p hi).mono fun a s _ => hQ i job p hi a s⟩

/-- What a step does to the state: nothing, or what one call of a live program may do, or what the
loss of power may do. -/
theorem Keeps.step (hsound : Sound answer lose program co Launched Allowed Q invariant)
    (h : Keeps answer co Allowed Q invariant pool) {a : Action ι Job Fate Loss}
    (hlaunched : a.Launches Launched) (hstep : pool.step answer lose program a = some pool') :
    Keeps answer co Allowed Q invariant pool' ∧ (pool'.state = pool.state ∨
      (∃ i job, Allowed i job ∧ (co i job).guarantee pool.state pool'.state) ∨
      ∃ loss, a = .lose loss ∧ pool'.state = lose pool.state loss) := by
  cases a with
  | launch i job =>
    simp only [Pool.step] at hstep
    split at hstep
    · cases hstep
      exact ⟨keeps_setLive h.state (hsound.allowed i job hlaunched)
        (hsound.program i job hlaunched _ h.state)
        fun j _ job' p hj => ⟨h.allowed j job' p hj, h.live j job' p hj⟩, .inl rfl⟩
    · cases hstep
  | call i fate =>
    simp only [Pool.step] at hstep
    split at hstep
    · rename_i job c next hlive
      cases hstep
      have hinv : (co i job).invariant pool.state := (hsound.same i job).symm ▸ h.state
      have hi := h.allowed i job _ hlive
      obtain ⟨hkept, hguar, hnext⟩ :=
        h.live i job _ hlive pool.state ((co i job).rely_refl _) hinv fate
      rw [hsound.same i] at hkept
      -- the others bear what the call does
      have hothers (j : ι) (hji : j ≠ i) (job' : Job) (p : Program Call Reply α)
          (hj : pool.live j = some (job', p)) :
          Allowed j job' ∧ Program.Ensures (answer j) (co j job') p (Q j job') _ :=
        ⟨h.allowed j job' p hj, (h.live j job' p hj).of_rely
          (hsound.bears j i hji _ _ _ _ hi h.state hkept hguar)⟩
      have hset : Keeps answer co Allowed Q invariant
          (setLive { pool with state := (answer i pool.state fate c).2 } i
            (some (job, next (answer i pool.state fate c).1))) :=
        keeps_setLive hkept hi hnext hothers
      exact ⟨hset, .inr (.inl ⟨i, job, hi, hguar⟩)⟩
    · cases hstep
  | finish i =>
    simp only [Pool.step] at hstep
    split at hstep
    · cases hstep
      exact ⟨h.stop i _, .inl rfl⟩
    · cases hstep
  | kill i =>
    cases hstep
    exact ⟨h.stop i _, .inl rfl⟩
  | lose loss =>
    cases hstep
    exact ⟨⟨hsound.lose _ loss h.state, nofun, nofun⟩, .inr (.inr ⟨loss, rfl, rfl⟩)⟩

/-- Whatever is launched, killed and interleaved: the invariant is kept, each program keeps on to
its conduct, and so does what all conducts keep. -/
theorem Keeps.run (hsound : Sound answer lose program co Launched Allowed Q invariant)
    {actions : List (Action ι Job Fate Loss)} (hlaunched : ∀ a ∈ actions, a.Launches Launched)
    (h : Keeps answer co Allowed Q invariant pool) {J : σ → Prop} (hJ : J pool.state)
    (hguar : ∀ i job s t, Allowed i job → (co i job).guarantee s t → J s → J t)
    (hlose : ∀ s loss, .lose loss ∈ actions → J s → J (lose s loss))
    (hrun : Runs.run (Pool.step answer lose program) pool actions = some pool') :
    Keeps answer co Allowed Q invariant pool' ∧ J pool'.state := by
  induction actions generalizing pool with
  | nil =>
    cases hrun
    exact ⟨h, hJ⟩
  | cons a actions ih =>
    rw [List.forall_mem_cons] at hlaunched
    obtain ⟨next, hstep, hrun⟩ := Runs.run_cons_eq_some.1 hrun
    obtain ⟨hnext, hstate⟩ := h.step hsound hlaunched.1 hstep
    refine ih hlaunched.2 hnext ?_ (fun s loss h => hlose s loss (List.mem_cons_of_mem _ h)) hrun
    rcases hstate with hsame | ⟨i, job, hi, hguarantee⟩ | ⟨loss, rfl, hlost⟩
    · rwa [hsame]
    · exact hguar i job _ _ hi hguarantee hJ
    · rw [hlost]
      exact hlose _ loss List.mem_cons_self hJ

omit [DecidableEq ι] in
/-- What a process is about to return is what its conduct says. -/
theorem Keeps.of_done (hsound : Sound answer lose program co Launched Allowed Q invariant)
    (h : Keeps answer co Allowed Q invariant pool) {i : ι} {job : Job} {a : α}
    (hlive : pool.live i = some (job, .done a)) : Q i job a pool.state :=
  (h.live i job _ hlive).of_done ((hsound.same i job).symm ▸ h.state)

/-- What does not depend on the moment holds of everything that has been returned. -/
theorem Keeps.run_returned (hsound : Sound answer lose program co Launched Allowed Q invariant)
    {actions : List (Action ι Job Fate Loss)} (hlaunched : ∀ a ∈ actions, a.Launches Launched)
    (h : Keeps answer co Allowed Q invariant pool) {R : ι → Job → α → Prop}
    (hR : ∀ i job a s, Q i job a s → R i job a)
    (hreturned : ∀ x ∈ pool.returned, R x.1 x.2.1 x.2.2)
    (hrun : Runs.run (Pool.step answer lose program) pool actions = some pool') :
    ∀ x ∈ pool'.returned, R x.1 x.2.1 x.2.2 := by
  induction actions generalizing pool with
  | nil =>
    cases hrun
    exact hreturned
  | cons a actions ih =>
    rw [List.forall_mem_cons] at hlaunched
    obtain ⟨next, hstep, hrun⟩ := Runs.run_cons_eq_some.1 hrun
    refine ih hlaunched.2 (h.step hsound hlaunched.1 hstep).1 ?_ hrun
    cases a with
    | finish i =>
      simp only [Pool.step] at hstep
      split at hstep
      · rename_i job a hlive
        cases hstep
        intro x hx
        rw [List.mem_append, List.mem_singleton] at hx
        rcases hx with hx | rfl
        · exact hreturned x hx
        · exact hR i job a _ (h.of_done hsound hlive)
      · cases hstep
    | launch i job =>
      simp only [Pool.step] at hstep
      split at hstep <;> cases hstep
      exact hreturned
    | call i fate =>
      simp only [Pool.step] at hstep
      split at hstep <;> cases hstep
      exact hreturned
    | kill i =>
      cases hstep
      exact hreturned
    | lose loss =>
      cases hstep
      exact hreturned

end Pool

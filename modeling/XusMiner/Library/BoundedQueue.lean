import Mathlib.Tactic

/-- A thread that makes items out of a state of its own and hands them on one at a time. -/
inductive Producer (σ α : Type*)
  | working (state : σ)
  | sending (item : α) (next : Option σ)
  | ended

/-- A queue of bounded length from several producers to one consumer. Each item carries its
producer's name; `taken` is what the consumer took so far, oldest first. -/
structure BoundedQueue (ι σ α : Type*) where
  producers : ι → Producer σ α
  queue : List (ι × α) := []
  taken : List (ι × α) := []

variable {ι σ α : Type*}

namespace Producer

def isEnded : Producer σ α → Bool
  | .ended => true
  | _ => false

def resume : Option σ → Producer σ α
  | some state => .working state
  | none => .ended

/-- One round of work: the item it makes, if any, and the state it goes on with. -/
def round (work : σ → Option α × Option σ) (state : σ) : Producer σ α :=
  match work state with
  | (some item, next) => .sending item next
  | (none, next) => resume next

/-- All that is made from a state on, by a producer that comes to an end. -/
inductive Makes (work : σ → Option α × Option σ) : σ → List α → Prop
  | last {state : σ} {item : Option α} (h : work state = (item, none)) :
      Makes work state item.toList
  | more {state next : σ} {item : Option α} {items : List α} (h : work state = (item, some next))
      (hnext : Makes work next items) : Makes work state (item.toList ++ items)

/-- What a producer has still to hand on. -/
def Owes (work : σ → Option α × Option σ) : Producer σ α → List α → Prop
  | .working state, items => Makes work state items
  | .sending item next, items => ∃ rest, items = item :: rest ∧
      next.elim (rest = []) (Makes work · rest)
  | .ended, items => items = []

variable {work : σ → Option α × Option σ}

theorem owes_resume {next : Option σ} {items : List α}
    (h : next.elim (items = []) (Makes work · items)) : (resume next).Owes work items := by
  cases next with
  | none => exact h
  | some state => exact h

theorem Makes.owes_round {state : σ} {items : List α} (h : Makes work state items) :
    (round work state).Owes work items := by
  cases h with
  | @last _ item h =>
    rw [round, h]
    cases item with
    | none => rfl
    | some a => exact ⟨[], rfl, rfl⟩
  | @more _ next item items h hnext =>
    rw [round, h]
    cases item with
    | none => exact hnext
    | some a => exact ⟨items, rfl, hnext⟩

theorem Makes.unique {state : σ} {items items' : List α} (h : Makes work state items)
    (h' : Makes work state items') : items = items' := by
  induction h generalizing items' with
  | last hwork =>
    cases h' with
    | last hwork' => rw [(Prod.mk.inj (hwork.symm.trans hwork')).1]
    | more hwork' _ => cases (Prod.mk.inj (hwork.symm.trans hwork')).2
  | more hwork _ ih =>
    cases h' with
    | last hwork' => cases (Prod.mk.inj (hwork.symm.trans hwork')).2
    | more hwork' hnext =>
      obtain ⟨rfl, hstate⟩ := Prod.mk.inj (hwork.symm.trans hwork')
      obtain rfl := Option.some.inj hstate
      rw [ih hnext]

/-- The items made in a number of rounds. -/
def made (work : σ → Option α × Option σ) : ℕ → σ → List α
  | 0, _ => []
  | rounds + 1, state =>
    match work state with
    | (item, none) => item.toList
    | (item, some next) => item.toList ++ made work rounds next

/-- Work that uses up its state comes to an end. -/
theorem makes_made {size : σ → ℕ}
    (hsize : ∀ state item next, work state = (item, some next) → size next < size state) :
    ∀ {rounds : ℕ} {state : σ}, size state < rounds → Makes work state (made work rounds state)
  | 0, _, h => absurd h (Nat.not_lt_zero _)
  | rounds + 1, state, h => by
    rw [made]
    split
    · next item hwork => exact .last hwork
    · next item next hwork =>
      have hnext := hsize state item next hwork
      exact .more hwork (makes_made hsize (by omega))

section Potential

/-- Bounds the turns that a producer may still take and the receives of what it makes; `size` is
what its work uses up. -/
def potential (size : σ → ℕ) : Producer σ α → ℕ
  | .working state => 3 * size state + 3
  | .sending _ next => 2 + next.elim 0 fun state => 3 * size state + 3
  | .ended => 0

variable {size : σ → ℕ}

theorem potential_resume (next : Option σ) :
    (resume next : Producer σ α).potential size = next.elim 0 fun state => 3 * size state + 3 := by
  cases next <;> rfl

theorem potential_round
    (hsize : ∀ state item next, work state = (item, some next) → size next < size state)
    (state : σ) : (round work state).potential size < 3 * size state + 3 := by
  unfold round
  split
  · next item next hwork =>
    cases next with
    | none => simp [potential]
    | some next =>
      have hnext := hsize state (some item) next hwork
      simp only [potential, Option.elim_some]
      omega
  · next next hwork =>
    rw [potential_resume]
    cases next with
    | none => simp
    | some next =>
      have hnext := hsize state none next hwork
      rw [Option.elim_some]
      omega

end Potential

end Producer

namespace BoundedQueue

section Operations
variable [DecidableEq ι]

/-- The items of one producer. -/
def of (i : ι) (items : List (ι × α)) : List α :=
  items.filterMap fun entry => if entry.1 = i then some entry.2 else none

@[simp] theorem of_nil (i : ι) : of i ([] : List (ι × α)) = [] := rfl

@[simp] theorem of_append (i : ι) (xs ys : List (ι × α)) : of i (xs ++ ys) = of i xs ++ of i ys :=
  List.filterMap_append

@[simp] theorem of_singleton_self (i : ι) (a : α) : of i [(i, a)] = [a] := by simp [of]

theorem of_singleton_ne {i j : ι} (h : j ≠ i) (a : α) : of i [(j, a)] = [] := by simp [of, h]

theorem mem_of {i : ι} {a : α} {items : List (ι × α)} : a ∈ of i items ↔ (i, a) ∈ items := by
  simp [of, List.mem_filterMap, ite_eq_iff]

def setProducer (q : BoundedQueue ι σ α) (i : ι) (p : Producer σ α) : BoundedQueue ι σ α :=
  { q with producers := Function.update q.producers i p }

theorem producers_setProducer {q : BoundedQueue ι σ α} {i j : ι} {p : Producer σ α} (h : j ≠ i) :
    (q.setProducer i p).producers j = q.producers j := Function.update_of_ne h ..

/-- A producer proceeds. Its send waits for room, and fails for good once nobody receives. -/
def turn (work : ι → σ → Option α × Option σ) (capacity : ℕ) (received : Bool) (i : ι)
    (q : BoundedQueue ι σ α) : BoundedQueue ι σ α :=
  match q.producers i with
  | .working state => q.setProducer i (.round (work i) state)
  | .sending item next =>
    if !received then q.setProducer i .ended
    else if q.queue.length < capacity then
      { q.setProducer i (.resume next) with queue := q.queue ++ [(i, item)] }
    else q
  | .ended => q

end Operations

/-- What `try_recv` finds. -/
inductive Received (α : Type*)
  | item (a : α)
  | empty
  | disconnected

def tryRecv [Fintype ι] (q : BoundedQueue ι σ α) : Received α × BoundedQueue ι σ α :=
  match q.queue with
  | entry :: queue => (.item entry.2, { q with queue := queue, taken := q.taken ++ [entry] })
  | [] => (if ∀ i, (q.producers i).isEnded then .disconnected else .empty, q)

/-- At most `limit` receives, before each of which the producers take the turns of the schedule:
the items received, and whether the last answer was that all producers have ended. -/
def drain [Fintype ι] (turn : ι → BoundedQueue ι σ α → BoundedQueue ι σ α) :
    ℕ → List (List ι) → BoundedQueue ι σ α → List α × Bool × BoundedQueue ι σ α
  | 0, _, q => ([], false, q)
  | limit + 1, schedule, q =>
    match ((schedule.headD []).foldl (fun q i => turn i q) q).tryRecv with
    | (.item a, q) =>
      let (items, disconnected, q) := drain turn limit schedule.tail q
      (a :: items, disconnected, q)
    | (.empty, q) => ([], false, q)
    | (.disconnected, q) => ([], true, q)

variable {work : ι → σ → Option α × Option σ} {made : ι → List α} {capacity : ℕ}
  {q q' : BoundedQueue ι σ α}

section Accounts
variable [DecidableEq ι]

/-- Each producer's items are taken, in the queue, or still to come, in this order. -/
def Accounts (work : ι → σ → Option α × Option σ) (made : ι → List α) (q : BoundedQueue ι σ α) :
    Prop :=
  ∀ i, ∃ rest, (q.producers i).Owes (work i) rest ∧ made i = of i (q.taken ++ q.queue) ++ rest

theorem Accounts.taken_prefix (h : Accounts work made q) (i : ι) : of i q.taken <+: made i := by
  obtain ⟨rest, -, hmade⟩ := h i
  rw [hmade, of_append, List.append_assoc]
  exact List.prefix_append _ _

/-- Once all producers have ended and the queue is empty, all of their items were taken. -/
theorem Accounts.all_taken (h : Accounts work made q) (hqueue : q.queue = [])
    (hended : ∀ i, (q.producers i).isEnded) (i : ι) : of i q.taken = made i := by
  obtain ⟨rest, howes, hmade⟩ := h i
  have hi := hended i
  cases hp : q.producers i with
  | ended =>
    rw [hp] at howes
    rw [hmade, hqueue, show rest = [] from howes, List.append_nil, List.append_nil]
  | working state => simp [hp, Producer.isEnded] at hi
  | sending item next => simp [hp, Producer.isEnded] at hi

theorem Accounts.setProducer (h : Accounts work made q) {i : ι} {p : Producer σ α}
    (hp : ∀ rest, (q.producers i).Owes (work i) rest → p.Owes (work i) rest) :
    Accounts work made (q.setProducer i p) := by
  intro j
  obtain ⟨rest, howes, hmade⟩ := h j
  refine ⟨rest, ?_, hmade⟩
  by_cases hj : j = i
  · subst hj
    simp only [BoundedQueue.setProducer, Function.update_self]
    exact hp rest howes
  · simp only [BoundedQueue.setProducer, Function.update_of_ne hj]
    exact howes

/-- An item that enters the queue is no longer owed. -/
theorem Accounts.push (h : Accounts work made q) {i : ι} {item : α} {next : Option σ}
    (hp : q.producers i = .sending item next) :
    Accounts work made
      { q.setProducer i (.resume next) with queue := q.queue ++ [(i, item)] } := by
  intro j
  obtain ⟨rest, howes, hmade⟩ := h j
  simp only [BoundedQueue.setProducer, ← List.append_assoc]
  rw [of_append]
  by_cases hj : j = i
  · subst hj
    rw [hp] at howes
    obtain ⟨rest', rfl, hnext⟩ := howes
    rw [Function.update_self, of_singleton_self]
    exact ⟨rest', Producer.owes_resume hnext, by simp [hmade]⟩
  · rw [Function.update_of_ne hj, of_singleton_ne (Ne.symm hj), List.append_nil]
    exact ⟨rest, howes, hmade⟩

theorem Accounts.turn (h : Accounts work made q) (i : ι) :
    Accounts work made (q.turn work capacity true i) := by
  unfold BoundedQueue.turn
  split
  · next state hp =>
    apply h.setProducer
    intro rest howes
    rw [hp] at howes
    exact howes.owes_round
  · next item next hp =>
    rw [if_neg (by simp)]
    split_ifs
    · exact h.push hp
    · exact h
  · exact h

end Accounts

/-- The consumer takes the oldest item; nothing else changes. -/
structure Receives (q q' : BoundedQueue ι σ α) (items : List (ι × α)) : Prop where
  producers : q'.producers = q.producers
  taken : q'.taken = q.taken ++ items
  queue : items ++ q'.queue = q.queue

theorem Receives.accounts [DecidableEq ι] {items : List (ι × α)} (h : Receives q q' items)
    (haccounts : Accounts work made q) : Accounts work made q' := by
  intro i
  obtain ⟨rest, howes, hmade⟩ := haccounts i
  refine ⟨rest, by rwa [h.producers], ?_⟩
  rw [hmade, ← h.queue, h.taken, List.append_assoc]

variable {turn : ι → BoundedQueue ι σ α → BoundedQueue ι σ α}

theorem taken_foldl (hturn : ∀ i q, (turn i q).taken = q.taken) (is : List ι) :
    ∀ q, (is.foldl (fun q i => turn i q) q).taken = q.taken := by
  induction is with
  | nil => exact fun q => rfl
  | cons i is ih => exact fun q => (ih _).trans (hturn i q)

section Consumer
variable [Fintype ι]

theorem tryRecv_item {a : α} (h : q.tryRecv = (.item a, q')) : ∃ i, Receives q q' [(i, a)] := by
  unfold tryRecv at h
  split at h
  · next entry queue hqueue =>
    simp only [Prod.mk.injEq, Received.item.injEq] at h
    obtain ⟨rfl, rfl⟩ := h
    exact ⟨entry.1, rfl, rfl, hqueue.symm⟩
  · split_ifs at h <;> simp at h

theorem tryRecv_empty (h : q.tryRecv = (.empty, q')) : q' = q := by
  unfold tryRecv at h
  split at h
  · simp at h
  · simp only [Prod.mk.injEq] at h
    exact h.2.symm

theorem tryRecv_waits (h : q.tryRecv = (.empty, q')) :
    q.queue = [] ∧ ∃ i, (q.producers i).isEnded = false := by
  unfold tryRecv at h
  split at h
  · simp at h
  · next hqueue =>
    split_ifs at h with hended
    · simp at h
    · obtain ⟨i, hi⟩ := not_forall.1 hended
      exact ⟨hqueue, i, Bool.eq_false_iff.2 hi⟩

theorem tryRecv_disconnected (h : q.tryRecv = (.disconnected, q')) :
    q' = q ∧ q.queue = [] ∧ ∀ i, (q.producers i).isEnded := by
  unfold tryRecv at h
  split at h
  · simp at h
  · next hqueue =>
    split_ifs at h with hended
    · simp only [Prod.mk.injEq, true_and] at h
      exact ⟨h.symm, hqueue, hended⟩
    · simp at h

/-- What a drain hands over, and what it means that the producers are gone. -/
structure Drained (q : BoundedQueue ι σ α) (drained : List α × Bool × BoundedQueue ι σ α) :
    Prop where
  taken : ∃ entries, drained.2.2.taken = q.taken ++ entries ∧ entries.map Prod.snd = drained.1
  complete : drained.2.1 = true →
    drained.2.2.queue = [] ∧ ∀ i, (drained.2.2.producers i).isEnded

theorem drained_drain (hturn : ∀ i q, (turn i q).taken = q.taken) (limit : ℕ) :
    ∀ schedule (q : BoundedQueue ι σ α), Drained q (drain turn limit schedule q) := by
  induction limit with
  | zero =>
    intro schedule q
    exact ⟨⟨[], (List.append_nil _).symm, rfl⟩, fun h => absurd h Bool.false_ne_true⟩
  | succ limit ih =>
    intro schedule q
    have htaken := taken_foldl hturn (schedule.headD []) q
    rw [drain]
    split
    · next a q' hrecv =>
      obtain ⟨i, hreceives⟩ := tryRecv_item hrecv
      have hrest := ih schedule.tail q'
      obtain ⟨entries, hentries, hitems⟩ := hrest.taken
      refine ⟨⟨(i, a) :: entries, ?_, congrArg (a :: ·) hitems⟩, hrest.complete⟩
      rw [hentries, hreceives.taken, htaken, List.append_assoc, List.singleton_append]
    · next q' hrecv =>
      rw [tryRecv_empty hrecv]
      refine ⟨⟨[], htaken.trans (List.append_nil _).symm, rfl⟩, ?_⟩
      exact fun h => absurd h Bool.false_ne_true
    · next q' hrecv =>
      obtain ⟨rfl, hqueue, hended⟩ := tryRecv_disconnected hrecv
      exact ⟨⟨[], htaken.trans (List.append_nil _).symm, rfl⟩, fun _ => ⟨hqueue, hended⟩⟩

theorem length_drain (limit : ℕ) : ∀ schedule (q : BoundedQueue ι σ α),
    (drain turn limit schedule q).1.length ≤ limit := by
  induction limit with
  | zero => exact fun _ _ => Nat.zero_le _
  | succ limit ih =>
    intro schedule q
    rw [drain]
    split
    · next a q' _ => exact Nat.succ_le_succ (ih schedule.tail q')
    · exact Nat.zero_le _
    · exact Nat.zero_le _

/-- What the producers' turns and the receives keep, a drain keeps. -/
theorem drain_keeps {I : BoundedQueue ι σ α → Prop} (hturn : ∀ i q, I q → I (turn i q))
    (hreceives : ∀ q q' items, Receives q q' items → I q → I q') (limit : ℕ) :
    ∀ schedule (q : BoundedQueue ι σ α), I q → I (drain turn limit schedule q).2.2 := by
  have hfold : ∀ (is : List ι) q, I q → I (is.foldl (fun q i => turn i q) q) := by
    intro is
    induction is with
    | nil => exact fun q h => h
    | cons i is ih => exact fun q h => ih _ (hturn i q h)
  induction limit with
  | zero => exact fun _ q h => h
  | succ limit ih =>
    intro schedule q h
    have hturned := hfold (schedule.headD []) q h
    rw [drain]
    split
    · next a q' hrecv =>
      obtain ⟨i, hreceived⟩ := tryRecv_item hrecv
      exact ih schedule.tail q' (hreceives _ _ _ hreceived hturned)
    · next q' hrecv =>
      rw [tryRecv_empty hrecv]
      exact hturned
    · next q' hrecv =>
      rw [(tryRecv_disconnected hrecv).1]
      exact hturned

end Consumer

section Turns
variable [DecidableEq ι]

@[simp] theorem taken_turn (received : Bool) (i : ι) (q : BoundedQueue ι σ α) :
    (q.turn work capacity received i).taken = q.taken := by
  unfold turn
  split
  · rfl
  · split_ifs <;> rfl
  · rfl

theorem length_queue_turn (received : Bool) (i : ι) (h : q.queue.length ≤ capacity) :
    (q.turn work capacity received i).queue.length ≤ capacity := by
  unfold turn
  split
  · exact h
  · split_ifs with _ hroom
    · exact h
    · rw [List.length_append, List.length_singleton]
      exact hroom
    · exact h
  · exact h

theorem isEnded_turn (received : Bool) (i j : ι) (q : BoundedQueue ι σ α)
    (h : (q.producers j).isEnded = true) :
    ((q.turn work capacity received i).producers j).isEnded = true := by
  have hset (p : Producer σ α) (hp : i = j → (q.producers i).isEnded = false) :
      ((q.setProducer i p).producers j).isEnded = true := by
    by_cases hij : i = j
    · have hi := hp hij
      rw [hij] at hi
      exact absurd (hi.symm.trans h) Bool.false_ne_true
    · rw [producers_setProducer (Ne.symm hij)]
      exact h
  unfold turn
  split
  · next state hp => exact hset _ fun _ => by rw [hp]; rfl
  · next item next hp =>
    split_ifs
    · exact hset _ fun _ => by rw [hp]; rfl
    · exact hset _ fun _ => by rw [hp]; rfl
    · exact h
  · exact h

theorem length_queue_le_turn (received : Bool) (i : ι) (q : BoundedQueue ι σ α) :
    q.queue.length ≤ (q.turn work capacity received i).queue.length := by
  unfold turn
  split
  · exact le_rfl
  · split_ifs
    · exact le_rfl
    · rw [List.length_append]
      exact Nat.le_add_right _ _
    · exact le_rfl
  · exact le_rfl

variable (work capacity) in
/-- The turns of a list of producers, while there is a receiver. -/
def turns (is : List ι) (q : BoundedQueue ι σ α) : BoundedQueue ι σ α :=
  is.foldl (fun q i => q.turn work capacity true i) q

variable (work capacity) in
theorem isEnded_turns (j : ι) (is : List ι) : ∀ q : BoundedQueue ι σ α,
    (q.producers j).isEnded = true → ((turns work capacity is q).producers j).isEnded = true := by
  induction is with
  | nil => exact fun q h => h
  | cons i is ih => exact fun q h => ih _ (isEnded_turn true i j q h)

theorem length_queue_le_turns (is : List ι) : ∀ q : BoundedQueue ι σ α,
    q.queue.length ≤ (turns work capacity is q).queue.length := by
  induction is with
  | nil => exact fun q => le_rfl
  | cons i is ih => exact fun q => (length_queue_le_turn true i q).trans (ih _)

end Turns

theorem Receives.length_queue {items : List (ι × α)} (h : Receives q q' items)
    (hq : q.queue.length ≤ capacity) : q'.queue.length ≤ capacity := by
  rw [← h.queue, List.length_append] at hq
  omega

/-- Bounds what is left to do until all is taken. -/
def potential [Fintype ι] (size : σ → ℕ) (q : BoundedQueue ι σ α) : ℕ :=
  ∑ i, (q.producers i).potential size + q.queue.length

section Potential
variable [Fintype ι] {size : σ → ℕ} {work : ι → σ → Option α × Option σ} {capacity : ℕ}
  {q q' : BoundedQueue ι σ α}

theorem Receives.potential {items : List (ι × α)} (h : Receives q q' items) (size : σ → ℕ) :
    q'.potential size + items.length = q.potential size := by
  unfold BoundedQueue.potential
  rw [h.producers, ← h.queue, List.length_append]
  omega

variable [DecidableEq ι]

theorem potential_setProducer (size : σ → ℕ) (q : BoundedQueue ι σ α) (i : ι)
    (p : Producer σ α) :
    (q.setProducer i p).potential size + (q.producers i).potential size =
      q.potential size + p.potential size := by
  have hold := Finset.add_sum_erase Finset.univ (fun j => (q.producers j).potential size)
    (Finset.mem_univ i)
  have hnew := Finset.add_sum_erase Finset.univ
    (fun j => ((q.setProducer i p).producers j).potential size) (Finset.mem_univ i)
  have hrest : ∑ j ∈ Finset.univ.erase i, ((q.setProducer i p).producers j).potential size =
      ∑ j ∈ Finset.univ.erase i, (q.producers j).potential size := by
    apply Finset.sum_congr rfl
    intro j hj
    rw [producers_setProducer (Finset.ne_of_mem_erase hj)]
  have hself : (q.setProducer i p).producers i = p := Function.update_self ..
  have hqueue : (q.setProducer i p).queue = q.queue := rfl
  rw [hself] at hnew
  unfold potential
  rw [hqueue]
  omega

/-- A turn uses up some of what is left, unless its producer waits for room or has ended. -/
theorem potential_turn (capacity : ℕ)
    (hsize : ∀ i state item next, work i state = (item, some next) → size next < size state)
    (received : Bool) (i : ι) (q : BoundedQueue ι σ α) :
    (q.turn work capacity received i).potential size ≤ q.potential size ∧
      ((q.producers i).isEnded = false → q.queue.length < capacity →
        (q.turn work capacity received i).potential size < q.potential size) := by
  unfold turn
  split
  · next state hp =>
    have hround := Producer.potential_round (hsize i) state
    have hset := potential_setProducer size q i (.round (work i) state)
    rw [hp, Producer.potential] at hset
    exact ⟨by omega, fun _ _ => by omega⟩
  · next item next hp =>
    split_ifs with hgone hroom
    · have hset := potential_setProducer size q i .ended
      rw [hp] at hset
      simp only [Producer.potential] at hset
      exact ⟨by omega, fun _ _ => by omega⟩
    · -- the item moves to the queue, where it counts for one
      have hset := potential_setProducer size q i (.resume next)
      rw [hp, Producer.potential_resume] at hset
      simp only [Producer.potential] at hset
      unfold potential at hset ⊢
      have hqueue : (q.setProducer i (.resume next)).queue = q.queue := rfl
      rw [hqueue] at hset
      dsimp only
      rw [List.length_append, List.length_singleton]
      exact ⟨by omega, fun _ _ => by omega⟩
    · -- the send waits
      exact ⟨le_rfl, fun _ hless => absurd hless hroom⟩
  · next hp =>
    refine ⟨le_rfl, fun hnot => ?_⟩
    rw [hp] at hnot
    exact absurd hnot.symm Bool.false_ne_true

/-- A producer that had its turn and is not through with its work has got on with it, if there was
room for what it had to hand on. -/
theorem potential_turns (capacity : ℕ)
    (hsize : ∀ i state item next, work i state = (item, some next) → size next < size state)
    (is : List ι) : ∀ q : BoundedQueue ι σ α,
    (turns work capacity is q).potential size ≤ q.potential size ∧
      ∀ i ∈ is, ((turns work capacity is q).producers i).isEnded = false →
        (turns work capacity is q).queue.length < capacity →
          (turns work capacity is q).potential size < q.potential size := by
  induction is with
  | nil => exact fun q => ⟨le_rfl, fun i hi => by cases hi⟩
  | cons j is ih =>
    intro q
    obtain ⟨hle, hless⟩ := ih (q.turn work capacity true j)
    obtain ⟨hleTurn, hlessTurn⟩ := potential_turn capacity hsize true j q
    refine ⟨hle.trans hleTurn, fun i hi hnot hroom => ?_⟩
    rcases List.mem_cons.1 hi with rfl | hi
    · -- it was not through before its turn either, and there was more room then
      apply hle.trans_lt
      apply hlessTurn
      · by_contra hended
        rw [Bool.not_eq_false] at hended
        have hstill := isEnded_turns work capacity i (i :: is) q hended
        exact Bool.false_ne_true (hnot.symm.trans hstill)
      · exact (length_queue_le_turns (i :: is) q).trans_lt hroom
    · exact (hless i hi hnot hroom).trans_le hleTurn

/-- A drain uses up what it takes, and some if every producer had its turn, until all is taken. -/
theorem potential_drain
    (hsize : ∀ i state item next, work i state = (item, some next) → size next < size state)
    (hcapacity : 0 < capacity) (limit : ℕ) : ∀ (schedule : List (List ι)) (q : BoundedQueue ι σ α),
    (drain (fun i q => q.turn work capacity true i) limit schedule q).2.2.potential size ≤
        q.potential size ∧
      (0 < limit → (∀ i, i ∈ schedule.headD []) →
        (drain (fun i q => q.turn work capacity true i) limit schedule q).2.1 = false →
        (drain (fun i q => q.turn work capacity true i) limit schedule q).2.2.potential size <
          q.potential size) := by
  induction limit with
  | zero => exact fun _ q => ⟨le_rfl, fun h => absurd h (lt_irrefl 0)⟩
  | succ limit ih =>
    intro schedule q
    obtain ⟨hle, hless⟩ := potential_turns capacity hsize (schedule.headD []) q
    unfold turns at hle hless
    rw [drain]
    split
    · next a q' hrecv =>
      obtain ⟨i, hreceives⟩ := tryRecv_item hrecv
      have htaken := hreceives.potential size
      rw [List.length_singleton] at htaken
      have hrest := (ih schedule.tail q').1
      exact ⟨hrest.trans (by omega), fun _ _ _ => hrest.trans_lt (by omega)⟩
    · next q' hrecv =>
      obtain rfl := tryRecv_empty hrecv
      refine ⟨hle, fun _ hall _ => ?_⟩
      -- a producer that is not through had its turn, with an empty queue
      obtain ⟨hqueue, i, hi⟩ := tryRecv_waits hrecv
      apply hless i (hall i) hi
      rw [hqueue]
      exact hcapacity
    · next q' hrecv =>
      rw [(tryRecv_disconnected hrecv).1]
      exact ⟨hle, fun _ _ hnot => absurd hnot.symm Bool.false_ne_true⟩

end Potential

end BoundedQueue

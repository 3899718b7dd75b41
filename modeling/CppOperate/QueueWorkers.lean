import CppOperate.StepRuns
import Mathlib

/-! `worker` and `main` of thread_queue.cpp: every worker has a queue and a result
of its own; all share one mutex, one condition variable and `finished`. -/
namespace CppOperate.Queues
open StepRuns

/-- An `int` whose square is an `int`. -/
structure Item where
  value : ℤ
  fits : value^2 ≤ 2147483647
deriving DecidableEq, Repr

-- `std::pow(data, 2)` is exact on these
def Item.pow (data : Item) : ℤ := data.value^2

inductive Pc
  -- at the head of the loop, or woken up inside `wait`
  | lock
  -- from here to `check` the mutex is held
  | test
  -- the predicate was false, the worker is not asleep yet
  | gap
  | check
  | blocked
  | compute (data : Item)
  | store (data : Item) (result : ℤ)
  | exit
deriving DecidableEq, Repr

def Pc.holds : Pc → Bool
  | .test | .gap | .check => true
  | .lock | .blocked | .compute _ | .store _ _ | .exit => false

/-- The item taken from the queue whose result is not stored. -/
def Pc.inHand : Pc → List Item
  | .compute data | .store data _ => [data]
  | .lock | .test | .gap | .check | .blocked | .exit => []

/-- A worker with its queue and its result; the lists are the items pushed to its
queue so far and those whose results it has stored. -/
structure Worker where
  pc : Pc := .lock
  dataQueue : List Item := []
  result : ℤ
  pushed : List Item := []
  processed : List Item := []
deriving DecidableEq, Repr

structure State (W : Type*) where
  worker : W → Worker
  -- who holds `mtx`
  owner : Option W := none
  finished : Bool := false

variable {W : Type*} [DecidableEq W]

namespace State

def set (s : State W) (w : W) (x : Worker) (owner : Option W) : State W :=
  { s with worker := Function.update s.worker w x, owner := owner }

/-- The next step of `worker`. -/
def work (s : State W) (w : W) : Option (State W) :=
  let x := s.worker w
  match x.pc with
  | .lock => if s.owner = none then some (s.set w { x with pc := .test } (some w)) else none
  -- the predicate of `cv.wait`
  | .test =>
    let pc := if x.dataQueue ≠ [] ∨ s.finished then .check else .gap
    some (s.set w { x with pc := pc } s.owner)
  -- falls asleep and gives the mutex back in one step
  | .gap => some (s.set w { x with pc := .blocked } none)
  | .check =>
    match x.dataQueue with
    | [] => some (s.set w { x with pc := if s.finished then .exit else .lock } none)
    | data :: rest => some (s.set w { x with pc := .compute data, dataQueue := rest } none)
  | .blocked => none
  | .compute data => some (s.set w { x with pc := .store data data.pow } s.owner)
  -- one critical section
  | .store data result =>
    if s.owner = none then
      some (s.set w { x with pc := .lock, result := result,
                             processed := x.processed ++ [data] } none)
    else none
  | .exit => none

end State

inductive Event (W : Type*)
  | push (w : W) (data : Item)
  -- sets `finished` and notifies all
  | finish
  | work (w : W)
  -- `wait` wakes up without a notification
  | spurious (w : W)
deriving DecidableEq, Repr

def wake (x : Worker) : Worker := { x with pc := if x.pc = .blocked then .lock else x.pc }

def step (s : State W) : Event W → Option (State W)
  | .push w data =>
    if s.owner = none ∧ s.finished = false then
      some (s.set w { s.worker w with dataQueue := (s.worker w).dataQueue ++ [data],
                                      pushed := (s.worker w).pushed ++ [data] } none)
    else none
  | .finish =>
    if s.owner = none ∧ s.finished = false then
      some { s with worker := fun w => wake (s.worker w), finished := true }
    else none
  | .work w => s.work w
  | .spurious w =>
    if (s.worker w).pc = .blocked then some (s.set w (wake (s.worker w)) s.owner) else none

/-- The state before the first step: queues empty, `results` as given. -/
def start (results : W → ℤ) : State W := { worker := fun w => { result := results w } }

/-- What holds of one worker: its items are processed, in its hand or in its
queue, in the order they were pushed; its result is that of the last processed. -/
structure Serves (initial : ℤ) (finished : Bool) (x : Worker) : Prop where
  ledger : x.pushed = x.processed ++ (x.pc.inHand ++ x.dataQueue)
  result : x.result = (x.processed.getLast?.map Item.pow).getD initial
  stored : ∀ data result, x.pc = .store data result → result = data.pow
  -- what the worker saw under the mutex it still holds
  empty : x.pc = .gap → finished = false ∧ x.dataQueue = []
  blocked : x.pc = .blocked → finished = false
  exit : x.pc = .exit → finished = true ∧ x.dataQueue = []

structure Inv (initial : W → ℤ) (s : State W) : Prop where
  owner : ∀ w, (s.worker w).pc.holds = true → s.owner = some w
  worker : ∀ w, Serves (initial w) s.finished (s.worker w)

omit [DecidableEq W] in
theorem start_inv (results : W → ℤ) : Inv results (start results) := by
  refine ⟨?_, fun w => ?_⟩
  · intro w h
    contradiction
  · constructor <;> simp [start, Pc.inHand]

/-- A step that changes one worker, while nobody but it holds the mutex. -/
theorem Inv.set (initial : W → ℤ) (s : State W) (w : W) (x : Worker) (owner : Option W)
    (hinv : Inv initial s) (hx : Serves (initial w) s.finished x)
    (hself : x.pc.holds = true → owner = some w)
    (hother : ∀ v, v ≠ w → s.owner = some v → owner = some v) :
    Inv initial (s.set w x owner) := by
  refine ⟨?_, ?_⟩
  · intro v hv
    by_cases hvw : v = w
    · subst hvw
      simp only [State.set, Function.update_self] at hv ⊢
      exact hself hv
    · simp only [State.set, Function.update_of_ne hvw] at hv ⊢
      exact hother v hvw (hinv.owner v hv)
  · intro v
    by_cases hvw : v = w
    · subst hvw
      simpa only [State.set, Function.update_self] using hx
    · simpa only [State.set, Function.update_of_ne hvw] using hinv.worker v

/-- A worker that neither takes nor stores an item. -/
theorem Serves.goto (initial : ℤ) (finished : Bool) (x : Worker) (pc : Pc)
    (hx : Serves initial finished x) (hhand : pc.inHand = x.pc.inHand)
    (hstored : ∀ data result, pc = .store data result → result = data.pow)
    (hempty : pc = .gap → finished = false ∧ x.dataQueue = [])
    (hblocked : pc = .blocked → finished = false)
    (hexit : pc = .exit → finished = true ∧ x.dataQueue = []) :
    Serves initial finished { x with pc := pc } :=
  ⟨hhand ▸ hx.ledger, hx.result, hstored, hempty, hblocked, hexit⟩

-- the holder lets the mutex go, and nobody else held it
theorem Inv.release (initial : W → ℤ) (s : State W) (w : W) (x : Worker) (hinv : Inv initial s)
    (hx : Serves (initial w) s.finished x) (hx' : x.pc.holds = false)
    (howner : s.owner = none ∨ s.owner = some w) : Inv initial (s.set w x none) := by
  apply hinv.set initial s w x none hx
  · intro h
    rw [hx'] at h
    contradiction
  · intro v hv hvowner
    rcases howner with h | h
    · rw [h] at hvowner
      contradiction
    · rw [h, Option.some.injEq] at hvowner
      exact absurd hvowner.symm hv

theorem Inv.work (initial : W → ℤ) (s t : State W) (w : W) (hinv : Inv initial s)
    (h : s.work w = some t) : Inv initial t := by
  have hx := hinv.worker w
  have howner : (s.worker w).pc.holds = true → s.owner = none ∨ s.owner = some w :=
    fun h => Or.inr (hinv.owner w h)
  unfold State.work at h
  cases hpc : (s.worker w).pc with
  | lock =>
    simp only [hpc] at h
    split_ifs at h with hfree
    cases h
    apply hinv.set initial s w _ _ ?_ (fun _ => rfl)
    · intro v _ hv
      rw [hfree] at hv
      contradiction
    · exact hx.goto _ _ _ .test (by simp only [hpc, Pc.inHand]) (by simp) nofun nofun nofun
  | test =>
    simp only [hpc, Option.some.injEq] at h
    subst h
    have hholds := hinv.owner w (by rw [hpc, Pc.holds])
    apply hinv.set initial s w _ _ ?_ (fun _ => hholds) (fun _ _ h => h)
    by_cases htrue : (s.worker w).dataQueue ≠ [] ∨ s.finished = true
    · rw [if_pos htrue]
      exact hx.goto _ _ _ .check (by simp only [hpc, Pc.inHand]) (by simp) nofun nofun nofun
    · rw [if_neg htrue]
      rw [not_or, not_not, Bool.not_eq_true] at htrue
      exact hx.goto _ _ _ .gap (by simp only [hpc, Pc.inHand]) (by simp) (fun _ => htrue.symm)
        nofun nofun
  | gap =>
    simp only [hpc, Option.some.injEq] at h
    subst h
    apply hinv.release initial s w _ ?_ rfl (howner (by rw [hpc, Pc.holds]))
    exact hx.goto _ _ _ .blocked (by simp only [hpc, Pc.inHand]) (by simp) nofun
      (fun _ => (hx.empty hpc).1) nofun
  | check =>
    have hmine := howner (by rw [hpc, Pc.holds])
    cases hqueue : (s.worker w).dataQueue with
    | nil =>
      simp only [hpc, hqueue, Option.some.injEq] at h
      subst h
      cases hfinished : s.finished with
      | true =>
        apply hinv.release initial s w _ ?_ rfl hmine
        have hexit := hx.goto _ _ _ .exit (by simp only [hpc, Pc.inHand]) (by simp) nofun nofun
          (fun _ => ⟨hfinished, hqueue⟩)
        simpa only [hqueue, if_true] using hexit
      | false =>
        apply hinv.release initial s w _ ?_ rfl hmine
        have hlock := hx.goto _ _ _ .lock (by simp only [hpc, Pc.inHand]) (by simp) nofun nofun
          nofun
        simpa only [hqueue, Bool.false_eq_true, if_false] using hlock
    | cons data rest =>
      simp only [hpc, hqueue, Option.some.injEq] at h
      subst h
      apply hinv.release initial s w _ ?_ rfl hmine
      refine ⟨?_, hx.result, by simp, nofun, nofun, nofun⟩
      have hledger := hx.ledger
      simpa only [hpc, hqueue, Pc.inHand, List.nil_append, List.singleton_append] using hledger
  | blocked => simp [hpc] at h
  | compute data =>
    simp only [hpc, Option.some.injEq] at h
    subst h
    apply hinv.set initial s w _ _ ?_ (by simp [Pc.holds]) (fun _ _ h => h)
    refine hx.goto _ _ _ (.store data data.pow) (by simp only [hpc, Pc.inHand]) ?_ nofun nofun
      nofun
    intro data' result hstore
    cases hstore
    rfl
  | store data result =>
    simp only [hpc] at h
    split_ifs at h with hfree
    cases h
    apply hinv.release initial s w _ ?_ rfl (Or.inl hfree)
    refine ⟨?_, ?_, by simp, nofun, nofun, nofun⟩
    · have hledger := hx.ledger
      simpa only [hpc, Pc.inHand, List.nil_append, List.append_assoc] using hledger
    · rw [hx.stored data result hpc, List.getLast?_concat, Option.map_some, Option.getD_some]
  | exit => simp [hpc] at h

/-- A wake-up sends the worker back to the mutex. -/
theorem Serves.wake (initial : ℤ) (finished : Bool) (x : Worker) (hx : Serves initial finished x)
    (hholds : x.pc.holds = false) : Serves initial true (wake x) := by
  unfold Queues.wake
  split_ifs with hblocked
  · refine ⟨?_, hx.result, by simp, nofun, nofun, nofun⟩
    simpa only [hblocked, Pc.inHand] using hx.ledger
  · refine ⟨hx.ledger, hx.result, hx.stored, ?_, ?_, fun h => ⟨rfl, (hx.exit h).2⟩⟩
    · intro hgap
      simp only at hgap
      rw [hgap, Pc.holds] at hholds
      contradiction
    · intro h
      exact absurd h hblocked

omit [DecidableEq W] in
theorem Inv.unheld (initial : W → ℤ) (s : State W) (w : W) (hinv : Inv initial s)
    (hfree : s.owner = none) : (s.worker w).pc.holds = false := by
  by_contra hholds
  have howner := hinv.owner w (by simpa using hholds)
  rw [hfree] at howner
  contradiction

theorem Inv.step (initial : W → ℤ) (s : State W) (e : Event W) (t : State W)
    (hinv : Inv initial s) (h : step s e = some t) : Inv initial t := by
  cases e with
  | push w data =>
    simp only [Queues.step] at h
    split_ifs at h with hfree
    cases h
    have hx := hinv.worker w
    have hholds := hinv.unheld initial s w hfree.1
    refine hinv.release initial s w _ ?_ hholds (Or.inl hfree.1)
    refine ⟨?_, hx.result, hx.stored, ?_, hx.blocked, ?_⟩
    · simp only [hx.ledger, List.append_assoc]
    · intro hgap
      simp only at hgap
      rw [hgap, Pc.holds] at hholds
      contradiction
    · intro hexit
      have hfinished := (hx.exit hexit).1
      rw [hfree.2] at hfinished
      contradiction
  | finish =>
    simp only [Queues.step] at h
    split_ifs at h with hfree
    cases h
    have hholds := fun w => hinv.unheld initial s w hfree.1
    refine ⟨fun w hw => ?_, fun w => (hinv.worker w).wake _ _ _ (hholds w)⟩
    simp only [wake] at hw
    split_ifs at hw with hblocked
    · contradiction
    · rw [hholds w] at hw
      contradiction
  | work w => exact hinv.work initial s t w h
  | spurious w =>
    simp only [Queues.step] at h
    split_ifs at h with hblocked
    cases h
    have hlock := (hinv.worker w).goto _ _ _ .lock (by simp only [hblocked, Pc.inHand]) (by simp)
      nofun nofun nofun
    rw [wake, if_pos hblocked]
    exact hinv.set initial s w _ _ hlock nofun (fun _ _ h => h)

/-- In every state of every run: the items pushed to a queue are processed in
that order by its worker, each once, save those still in its hand or queue;
`results` holds the square of the last one; nobody exits with items left, and
once `finished` is set and notified nobody is asleep. When all have exited the
results are those of the last items pushed. -/
theorem queues_processed (initial : W → ℤ) (events : List (Event W)) (s : State W)
    (hrun : run step (start initial) events = some s) :
    (∀ w, (s.worker w).pushed =
        (s.worker w).processed ++ ((s.worker w).pc.inHand ++ (s.worker w).dataQueue)) ∧
      (∀ w, (s.worker w).result =
        ((s.worker w).processed.getLast?.map fun data => data.value^2).getD (initial w)) ∧
      (∀ w, (s.worker w).pc = .exit → (s.worker w).dataQueue = []) ∧
      (s.finished = true → ∀ w, (s.worker w).pc ≠ .blocked) ∧
      ((∀ w, (s.worker w).pc = .exit) → ∀ w, (s.worker w).processed = (s.worker w).pushed ∧
        (s.worker w).result =
          ((s.worker w).pushed.getLast?.map fun data => data.value^2).getD (initial w)) := by
  have hinv : Inv initial s :=
    run_invariant step (Inv initial) (Inv.step initial) _ s events (start_inv initial) hrun
  refine ⟨fun w => (hinv.worker w).ledger, fun w => (hinv.worker w).result,
    fun w h => ((hinv.worker w).exit h).2, ?_, ?_⟩
  · intro hfinished w hblocked
    have hunset := (hinv.worker w).blocked hblocked
    rw [hfinished] at hunset
    contradiction
  · intro hall w
    have hx := hinv.worker w
    have hledger := hx.ledger
    rw [hall w, (hx.exit (hall w)).2, Pc.inHand, List.append_nil, List.append_nil] at hledger
    exact ⟨hledger.symm, hledger ▸ hx.result⟩

-- worker 1 falls asleep before its items come, worker 0 gets none
theorem queues_processed_two : ∃ s : State (Fin 2),
    run step (start fun _ => 7) [.work 1, .work 1, .work 1, .push 1 ⟨3, by decide⟩,
      .push 1 ⟨-4, by decide⟩, .finish, .work 1, .work 1, .work 1, .work 1, .work 1, .work 1,
      .work 1, .work 1, .work 1, .work 1, .work 1, .work 1, .work 1, .work 0, .work 0,
      .work 0] = some s ∧
    (s.worker 0).result = 7 ∧ (s.worker 1).result = 16 := by
  obtain ⟨s,hrun⟩ : ∃ s : State (Fin 2),
      run step (start fun _ => 7) [.work 1, .work 1, .work 1, .push 1 ⟨3, by decide⟩,
        .push 1 ⟨-4, by decide⟩, .finish, .work 1, .work 1, .work 1, .work 1, .work 1, .work 1,
        .work 1, .work 1, .work 1, .work 1, .work 1, .work 1, .work 1, .work 0, .work 0,
        .work 0] = some s := ⟨_, rfl⟩
  have hresults := (queues_processed _ _ s hrun).2.2.2.2
  have hs := hrun
  cases hs
  have hall := hresults (by decide)
  exact ⟨_, hrun, (hall 0).2, (hall 1).2⟩

end CppOperate.Queues

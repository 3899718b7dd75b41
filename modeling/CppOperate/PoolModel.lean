import CppOperate.StepRuns
import Mathlib.Data.Fintype.Basic
import Mathlib.Logic.Function.Basic

/-! `ThreadPool` as a step function: any number of workers and of threads in
`submit`, one `shutdown`. A critical section of `SafeQueue` is one step; the
condition mutex is held across several. -/
namespace CppOperate.Threads
open StepRuns

/-- The number of the `submit` call that made the task. -/
abbrev Task := ℕ

inductive WorkerPc
  -- at the head of the loop, before `m_shutdown` is read
  | check
  | lock
  -- from here to `unlock` the mutex is held, but for `blocked` and `relock`
  | test
  -- the queue was found empty, `wait` is not entered yet
  | gap
  | blocked
  -- woken up inside `wait`
  | relock
  | dequeue
  | unlock
  | call
  | exit
deriving DecidableEq, Repr

structure Worker where
  pc : WorkerPc := .check
  func : Option Task := none
  dequeued : Bool := false
  -- how often the loop body was entered
  iteration : ℕ := 0
deriving DecidableEq, Repr

/-- A thread outside or inside `submit`. -/
inductive Submitter
  | idle
  | enqueue (t : Task)
  | notify
deriving DecidableEq, Repr

/-- How far `shutdown` has come; `m_shutdown` is false as long as it is not called. -/
inductive Shutdown
  | notCalled
  | flagSet
  | notified
deriving DecidableEq, Repr

/-- A task taken from the queue, or the `func` a worker called, and when. -/
structure Entry (W : Type*) where
  worker : W
  iteration : ℕ
  task : Option Task
deriving DecidableEq, Repr

structure ThreadPool (W S : Type*) where
  worker : W → Worker
  submitter : S → Submitter
  queue : List Task
  -- the holder of `m_conditional_mutex`
  owner : Option W
  shutdown : Shutdown
  submits : ℕ
  -- history: tasks put into the queue, tasks taken out, calls of `func`
  enqueued : List Task
  left : List (Entry W)
  executed : List (Entry W)

variable {W S : Type*}

namespace ThreadPool

/-- The pool after `init`. -/
def init : ThreadPool W S where
  worker := fun _ => {}
  submitter := fun _ => .idle
  queue := []
  owner := none
  shutdown := .notCalled
  submits := 0
  enqueued := []
  left := []
  executed := []

section actions
variable [DecidableEq W]

def setWorker (s : ThreadPool W S) (w : W) (x : Worker) : ThreadPool W S :=
  { s with worker := Function.update s.worker w x }

def goto (s : ThreadPool W S) (w : W) (pc : WorkerPc) : ThreadPool W S :=
  s.setWorker w { s.worker w with pc := pc }

def holding (s : ThreadPool W S) (owner : Option W) : ThreadPool W S := { s with owner := owner }

/-- `m_queue.dequeue(func)`: without a task `func` keeps what it had. -/
def takeTask (s : ThreadPool W S) (w : W) : ThreadPool W S :=
  match s.queue with
  | [] => s.setWorker w { s.worker w with pc := .unlock, dequeued := false }
  | t :: queue =>
    { s.setWorker w { s.worker w with pc := .unlock, dequeued := true, func := some t } with
      queue := queue
      left := s.left ++ [⟨w, (s.worker w).iteration, some t⟩] }

/-- The next step of worker `w` in `operator()`. -/
def work (s : ThreadPool W S) (w : W) : Option (ThreadPool W S) :=
  match (s.worker w).pc with
  -- `while (!m_shutdown)`
  | .check =>
    if s.shutdown = .notCalled then
      some (s.setWorker w { s.worker w with pc := .lock, iteration := (s.worker w).iteration+1 })
    else some (s.goto w .exit)
  -- `unique_lock` on the condition mutex
  | .lock => if s.owner = none then some ((s.goto w .test).holding (some w)) else none
  -- `m_queue.empty()`
  | .test => some (s.goto w (if s.queue = [] then .gap else .dequeue))
  -- `wait` blocks and gives the mutex back in one step
  | .gap => some ((s.goto w .blocked).holding none)
  | .blocked => none
  -- and takes it again before it returns
  | .relock => if s.owner = none then some ((s.goto w .dequeue).holding (some w)) else none
  | .dequeue => some (s.takeTask w)
  | .unlock => some ((s.goto w .call).holding none)
  -- `if (dequeued) func()`
  | .call =>
    if (s.worker w).dequeued then
      some { s.goto w .check with
        executed := s.executed ++ [⟨w, (s.worker w).iteration, (s.worker w).func⟩] }
    else some (s.goto w .check)
  | .exit => none

end actions

end ThreadPool

inductive Event (W S : Type*)
  | submit (p : S)
  | enqueue (p : S)
  -- `notify_one` wakes this worker, `none` when nobody is blocked
  | notifyOne (p : S) (wake : Option W)
  | work (w : W)
  -- `wait` returns without a notification
  | spurious (w : W)
  | setShutdown
  | notifyAll
deriving DecidableEq, Repr

section machine
variable [DecidableEq W] [Fintype W] [DecidableEq S]

def step (s : ThreadPool W S) : Event W S → Option (ThreadPool W S)
  -- the call makes its task before it enqueues it
  | .submit p =>
    match s.submitter p with
    | .idle =>
      some { s with submitter := Function.update s.submitter p (.enqueue s.submits),
                    submits := s.submits+1 }
    | _ => none
  | .enqueue p =>
    match s.submitter p with
    | .enqueue t =>
      some { s with submitter := Function.update s.submitter p .notify,
                    queue := s.queue ++ [t], enqueued := s.enqueued ++ [t] }
    | _ => none
  | .notifyOne p wake =>
    match s.submitter p, wake with
    | .notify, none =>
      if ∀ w, (s.worker w).pc ≠ .blocked then
        some { s with submitter := Function.update s.submitter p .idle }
      else none
    | .notify, some w =>
      if (s.worker w).pc = .blocked then
        some { s.goto w .relock with submitter := Function.update s.submitter p .idle }
      else none
    | _, _ => none
  | .work w => s.work w
  | .spurious w => if (s.worker w).pc = .blocked then some (s.goto w .relock) else none
  -- `m_shutdown = true`
  | .setShutdown => if s.shutdown = .notCalled then some { s with shutdown := .flagSet } else none
  | .notifyAll =>
    if s.shutdown = .flagSet then
      some { s with
        shutdown := .notified
        worker := fun w =>
          if (s.worker w).pc = .blocked then { s.worker w with pc := .relock } else s.worker w }
    else none

end machine

section inversion
variable [DecidableEq W]

/-- What one step of a worker can be. -/
inductive Works (s : ThreadPool W S) (w : W) : ThreadPool W S → Prop
  | enter (hpc : (s.worker w).pc = .check) (hrunning : s.shutdown = .notCalled) :
      Works s w (s.setWorker w
        { s.worker w with pc := .lock, iteration := (s.worker w).iteration+1 })
  | leave (hpc : (s.worker w).pc = .check) (hover : s.shutdown ≠ .notCalled) :
      Works s w (s.goto w .exit)
  | lock (hpc : (s.worker w).pc = .lock) (howner : s.owner = none) :
      Works s w ((s.goto w .test).holding (some w))
  | foundEmpty (hpc : (s.worker w).pc = .test) (hqueue : s.queue = []) : Works s w (s.goto w .gap)
  | foundTask (hpc : (s.worker w).pc = .test) (hqueue : s.queue ≠ []) :
      Works s w (s.goto w .dequeue)
  | wait (hpc : (s.worker w).pc = .gap) : Works s w ((s.goto w .blocked).holding none)
  | relock (hpc : (s.worker w).pc = .relock) (howner : s.owner = none) :
      Works s w ((s.goto w .dequeue).holding (some w))
  | miss (hpc : (s.worker w).pc = .dequeue) (hqueue : s.queue = []) :
      Works s w (s.setWorker w { s.worker w with pc := .unlock, dequeued := false })
  | take (t : Task) (queue : List Task) (hpc : (s.worker w).pc = .dequeue)
      (hqueue : s.queue = t :: queue) :
      Works s w
        { s.setWorker w { s.worker w with pc := .unlock, dequeued := true, func := some t } with
          queue := queue
          left := s.left ++ [⟨w, (s.worker w).iteration, some t⟩] }
  | unlock (hpc : (s.worker w).pc = .unlock) : Works s w ((s.goto w .call).holding none)
  | call (hpc : (s.worker w).pc = .call) (hdequeued : (s.worker w).dequeued = true) :
      Works s w
        { s.goto w .check with
          executed := s.executed ++ [⟨w, (s.worker w).iteration, (s.worker w).func⟩] }
  | skip (hpc : (s.worker w).pc = .call) (hdequeued : (s.worker w).dequeued = false) :
      Works s w (s.goto w .check)

theorem works_of_work (s t : ThreadPool W S) (w : W) (h : s.work w = some t) : Works s w t := by
  unfold ThreadPool.work at h
  cases hpc : (s.worker w).pc with
  | check =>
    simp only [hpc] at h
    split_ifs at h with hrunning
    · exact Option.some.inj h ▸ Works.enter hpc hrunning
    · exact Option.some.inj h ▸ Works.leave hpc hrunning
  | lock =>
    simp only [hpc] at h
    split_ifs at h with howner
    exact Option.some.inj h ▸ Works.lock hpc howner
  | test =>
    simp only [hpc] at h
    split_ifs at h with hqueue
    · exact Option.some.inj h ▸ Works.foundEmpty hpc hqueue
    · exact Option.some.inj h ▸ Works.foundTask hpc hqueue
  | gap =>
    simp only [hpc] at h
    exact Option.some.inj h ▸ Works.wait hpc
  | blocked => simp [hpc] at h
  | relock =>
    simp only [hpc] at h
    split_ifs at h with howner
    exact Option.some.inj h ▸ Works.relock hpc howner
  | dequeue =>
    simp only [hpc, ThreadPool.takeTask] at h
    cases hqueue : s.queue with
    | nil =>
      rw [hqueue] at h
      exact Option.some.inj h ▸ Works.miss hpc hqueue
    | cons t queue =>
      rw [hqueue] at h
      exact Option.some.inj h ▸ Works.take t queue hpc hqueue
  | unlock =>
    simp only [hpc] at h
    exact Option.some.inj h ▸ Works.unlock hpc
  | call =>
    simp only [hpc] at h
    split_ifs at h with hdequeued
    · exact Option.some.inj h ▸ Works.call hpc hdequeued
    · exact Option.some.inj h ▸ Works.skip hpc (by simpa using hdequeued)
  | exit => simp [hpc] at h

variable {s t : ThreadPool W S} {w : W}

theorem setWorker_self (x : Worker) : (s.setWorker w x).worker w = x := by
  simp [ThreadPool.setWorker]

theorem setWorker_other (x : Worker) (v : W) (h : v ≠ w) :
    (s.setWorker w x).worker v = s.worker v := by
  simp [ThreadPool.setWorker, h]

-- a worker's step changes no other worker, no submitter and not the shutdown

theorem Works.worker_other (h : Works s w t) (v : W) (hne : v ≠ w) :
    t.worker v = s.worker v := by
  cases h <;> exact setWorker_other _ v hne

theorem Works.submitter_eq (h : Works s w t) : t.submitter = s.submitter := by
  cases h <;> rfl

theorem Works.shutdown_eq (h : Works s w t) : t.shutdown = s.shutdown := by
  cases h <;> rfl

theorem Works.submits_eq (h : Works s w t) : t.submits = s.submits := by
  cases h <;> rfl

theorem Works.enqueued_eq (h : Works s w t) : t.enqueued = s.enqueued := by
  cases h <;> rfl

variable [Fintype W] [DecidableEq S]

/-- Only a worker's own step moves it, but for the wake-ups, which take a
blocked worker to `relock`; `notify_all` takes them all. -/
theorem step_workers (e : Event W S) (h : step s e = some t) :
    (∃ v, e = .work v ∧ Works s v t) ∨
      ∀ v, (t.worker v = s.worker v ∧ (e = .notifyAll → (s.worker v).pc ≠ .blocked)) ∨
        ((s.worker v).pc = .blocked ∧ t.worker v = { s.worker v with pc := .relock }) := by
  have hwake (v : W) (hv : (s.worker v).pc = .blocked) (u : W) :
      ((s.goto v .relock).worker u = s.worker u) ∨
        ((s.worker u).pc = .blocked ∧
          (s.goto v .relock).worker u = { s.worker u with pc := .relock }) := by
    rcases eq_or_ne u v with rfl | hne
    · exact Or.inr ⟨hv, setWorker_self _⟩
    · exact Or.inl (setWorker_other _ u hne)
  cases e with
  | work v => exact Or.inl ⟨v, rfl, works_of_work s t v h⟩
  | submit p =>
    simp only [step] at h
    split at h
    · cases h
      exact Or.inr fun v => Or.inl ⟨rfl, by simp⟩
    · contradiction
  | enqueue p =>
    simp only [step] at h
    split at h
    · cases h
      exact Or.inr fun v => Or.inl ⟨rfl, by simp⟩
    · contradiction
  | notifyOne p wake =>
    simp only [step] at h
    split at h
    · split_ifs at h
      cases h
      exact Or.inr fun v => Or.inl ⟨rfl, by simp⟩
    · split_ifs at h with hblocked
      cases h
      exact Or.inr fun v => (hwake _ hblocked v).imp_left fun hv => ⟨hv, by simp⟩
    · contradiction
  | spurious v =>
    simp only [step] at h
    split_ifs at h with hblocked
    cases h
    exact Or.inr fun u => (hwake v hblocked u).imp_left fun hu => ⟨hu, by simp⟩
  | setShutdown =>
    simp only [step] at h
    split_ifs at h
    cases h
    exact Or.inr fun v => Or.inl ⟨rfl, by simp⟩
  | notifyAll =>
    simp only [step] at h
    split_ifs at h
    cases h
    refine Or.inr fun v => ?_
    by_cases hblocked : (s.worker v).pc = .blocked
    · exact Or.inr ⟨hblocked, if_pos hblocked⟩
    · exact Or.inl ⟨if_neg hblocked, fun _ => hblocked⟩

end inversion
end CppOperate.Threads

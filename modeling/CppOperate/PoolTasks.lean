import CppOperate.PoolModel
import Mathlib.Data.List.Nodup
import Mathlib.Data.List.Perm.Basic

/-! Where the tasks of the pool are: every worker has called exactly what it took
from the queue, but for the task it still has in hand. -/
namespace CppOperate.Threads
open StepRuns

variable {W S : Type*}

def byWorker [DecidableEq W] (log : List (Entry W)) (w : W) : List (Entry W) := log.filter (·.worker = w)

/-- The task a worker took in this iteration and has not called yet. -/
def inHand (w : W) (x : Worker) : List (Entry W) :=
  if (x.pc = .unlock ∨ x.pc = .call) ∧ x.dequeued = true then [⟨w, x.iteration, x.func⟩] else []

/-- The worker took the task in this iteration and has not called it yet. -/
def Holds (s : ThreadPool W S) (w : W) (t : Task) : Prop :=
  ((s.worker w).pc = .unlock ∨ (s.worker w).pc = .call) ∧ (s.worker w).dequeued = true ∧
    (s.worker w).func = some t

def callsOf (s : ThreadPool W S) (t : Task) : List (Entry W) := s.executed.filter (·.task = some t)

section hands
variable {s : ThreadPool W S}

theorem inHand_of_holds (w : W) (t : Task) (h : Holds s w t) :
    ⟨w, (s.worker w).iteration, some t⟩ ∈ inHand w (s.worker w) := by
  obtain ⟨hpc,hdequeued,hfunc⟩ := h
  rw [inHand, if_pos ⟨hpc, hdequeued⟩, hfunc]
  exact List.mem_singleton_self _

theorem holds_of_inHand (w : W) (e : Entry W) (t : Task) (h : e ∈ inHand w (s.worker w))
    (htask : e.task = some t) : Holds s w t := by
  unfold inHand at h
  split_ifs at h with hpc
  · rw [List.mem_singleton] at h
    subst h
    exact ⟨hpc.1, hpc.2, htask⟩
  · contradiction

theorem mem_callsOf (e : Entry W) (t : Task) :
    e ∈ callsOf s t ↔ e ∈ s.executed ∧ e.task = some t := by
  simp [callsOf]

end hands

/-- Each task is enqueued by one `submit` call, once. -/
structure Submitted (s : ThreadPool W S) : Prop where
  nodup : s.enqueued.Nodup
  old : ∀ t ∈ s.enqueued, t < s.submits
  pending : ∀ p t, s.submitter p = .enqueue t → t < s.submits ∧ t ∉ s.enqueued
  distinct : ∀ p q t, s.submitter p = .enqueue t → s.submitter q = .enqueue t → p = q

/-- Tasks leave the queue in the order in which they came. -/
def InOrder (s : ThreadPool W S) : Prop :=
  s.left.map Entry.task ++ s.queue.map some = s.enqueued.map some

/-- What a worker took is what it called, and what it has in hand. -/
def Ledger [DecidableEq W] (s : ThreadPool W S) : Prop :=
  ∀ w, byWorker s.left w = byWorker s.executed w ++ inHand w (s.worker w)

structure TaskInv [DecidableEq W] (s : ThreadPool W S) : Prop where
  submitted : Submitted s
  inOrder : InOrder s
  ledger : Ledger s

section submitted
variable {s t : ThreadPool W S}

theorem Submitted.congr (hs : Submitted s) (hsubmitter : t.submitter = s.submitter)
    (hsubmits : t.submits = s.submits) (henqueued : t.enqueued = s.enqueued) : Submitted t := by
  obtain ⟨hnodup,hold,hpending,hdistinct⟩ := hs
  refine ⟨?_, ?_, ?_, ?_⟩
  · rwa [henqueued]
  · rwa [henqueued, hsubmits]
  · rwa [hsubmitter, hsubmits, henqueued]
  · rwa [hsubmitter]

variable [DecidableEq S]

theorem Submitted.submit (hs : Submitted s) (p : S)
    (hsubmitter : t.submitter = Function.update s.submitter p (.enqueue s.submits))
    (hsubmits : t.submits = s.submits+1) (henqueued : t.enqueued = s.enqueued) : Submitted t := by
  refine ⟨?_, ?_, ?_, ?_⟩
  · rw [henqueued]
    exact hs.nodup
  · intro task htask
    rw [henqueued] at htask
    rw [hsubmits]
    exact Nat.lt_succ_of_lt (hs.old task htask)
  · intro q task hq
    rw [hsubmitter] at hq
    rw [hsubmits, henqueued]
    rcases eq_or_ne q p with rfl | hne
    · rw [Function.update_self] at hq
      cases hq
      exact ⟨Nat.lt_succ_self _, fun hmem => lt_irrefl _ (hs.old _ hmem)⟩
    · rw [Function.update_of_ne hne] at hq
      obtain ⟨hlt,hnot⟩ := hs.pending q task hq
      exact ⟨Nat.lt_succ_of_lt hlt, hnot⟩
  · intro q r task hq hr
    rw [hsubmitter] at hq hr
    -- the new task is newer than every other one in hand
    rcases eq_or_ne q p with rfl | hqp
    · rcases eq_or_ne r q with rfl | hrq
      · rfl
      · rw [Function.update_self] at hq
        rw [Function.update_of_ne hrq] at hr
        cases hq
        exact absurd (hs.pending r _ hr).1 (lt_irrefl _)
    · rw [Function.update_of_ne hqp] at hq
      rcases eq_or_ne r p with rfl | hrp
      · rw [Function.update_self] at hr
        cases hr
        exact absurd (hs.pending q _ hq).1 (lt_irrefl _)
      · rw [Function.update_of_ne hrp] at hr
        exact hs.distinct q r task hq hr

/-- A submitter that stops holding a task, which may just have been enqueued. -/
theorem Submitted.update (hs : Submitted s) (p : S) (x : Submitter) (enqueued : List Task)
    (hx : ∀ task, x ≠ .enqueue task)
    (hsubmitter : t.submitter = Function.update s.submitter p x)
    (hsubmits : t.submits = s.submits) (henqueued : t.enqueued = s.enqueued ++ enqueued)
    (hnew : enqueued = [] ∨ ∃ task, s.submitter p = .enqueue task ∧ enqueued = [task]) :
    Submitted t := by
  have hother : ∀ q task, t.submitter q = .enqueue task →
      q ≠ p ∧ s.submitter q = .enqueue task := by
    intro q task hq
    rw [hsubmitter] at hq
    rcases eq_or_ne q p with rfl | hne
    · rw [Function.update_self] at hq
      exact absurd hq (hx task)
    · rw [Function.update_of_ne hne] at hq
      exact ⟨hne, hq⟩
  have hfresh : ∀ task ∈ enqueued, s.submitter p = .enqueue task := by
    intro task htask
    rcases hnew with rfl | ⟨new,hp,rfl⟩
    · contradiction
    · rwa [List.mem_singleton.mp htask]
  refine ⟨?_, ?_, ?_, ?_⟩
  · rw [henqueued]
    rcases hnew with rfl | ⟨task,hp,rfl⟩
    · rw [List.append_nil]
      exact hs.nodup
    · rw [← List.concat_eq_append]
      exact hs.nodup.concat (hs.pending p task hp).2
  · intro task htask
    rw [henqueued] at htask
    rw [hsubmits]
    rcases List.mem_append.mp htask with hmem | hmem
    · exact hs.old task hmem
    · exact (hs.pending p task (hfresh task hmem)).1
  · intro q task hq
    obtain ⟨hne,hq⟩ := hother q task hq
    obtain ⟨hlt,hnot⟩ := hs.pending q task hq
    rw [hsubmits, henqueued]
    refine ⟨hlt, ?_⟩
    intro hmem
    rcases List.mem_append.mp hmem with hmem | hmem
    · exact hnot hmem
    · exact hne (hs.distinct q p task hq (hfresh task hmem))
  · intro q r task hq hr
    exact hs.distinct q r task (hother q task hq).2 (hother r task hr).2

end submitted

variable [DecidableEq W]

theorem taskInv_init : TaskInv (ThreadPool.init : ThreadPool W S) := by
  refine ⟨⟨List.nodup_nil, ?_, ?_, ?_⟩, rfl, fun w => rfl⟩
  · intro t h
    contradiction
  · intro p t h
    contradiction
  · intro p q t h
    contradiction

theorem byWorker_snoc_self (log : List (Entry W)) (e : Entry W) :
    byWorker (log ++ [e]) e.worker = byWorker log e.worker ++ [e] := by
  simp [byWorker]

theorem byWorker_snoc_other (log : List (Entry W)) (e : Entry W) (w : W) (h : w ≠ e.worker) :
    byWorker (log ++ [e]) w = byWorker log w := by
  simp [byWorker, h.symm]

section steps
variable {s t : ThreadPool W S} {v : W}

theorem Works.byWorker_other (h : Works s v t) (w : W) (hne : w ≠ v) :
    byWorker t.left w = byWorker s.left w ∧ byWorker t.executed w = byWorker s.executed w := by
  cases h with
  | take task queue hpc hqueue => exact ⟨byWorker_snoc_other _ _ w hne, rfl⟩
  | call hpc hdequeued => exact ⟨rfl, byWorker_snoc_other _ _ w hne⟩
  | _ => exact ⟨rfl, rfl⟩

-- steps that log nothing and keep what is in hand
theorem ledger_keep (hs : Ledger s) (x : Worker) (hhand : inHand v x = inHand v (s.worker v)) :
    byWorker s.left v = byWorker s.executed v ++ inHand v ((s.setWorker v x).worker v) := by
  rw [setWorker_self, hhand]
  exact hs v

theorem Ledger.works (hs : Ledger s) (h : Works s v t) : Ledger t := by
  intro w
  rcases eq_or_ne w v with rfl | hne
  · cases h with
    | enter hpc _ => exact ledger_keep hs _ (by simp [inHand, hpc])
    | leave hpc _ => exact ledger_keep hs _ (by simp [inHand, hpc])
    | lock hpc _ => exact ledger_keep hs _ (by simp [inHand, hpc])
    | foundEmpty hpc _ => exact ledger_keep hs _ (by simp [inHand, hpc])
    | foundTask hpc _ => exact ledger_keep hs _ (by simp [inHand, hpc])
    | wait hpc => exact ledger_keep hs _ (by simp [inHand, hpc])
    | relock hpc _ => exact ledger_keep hs _ (by simp [inHand, hpc])
    | miss hpc _ => exact ledger_keep hs _ (by simp [inHand, hpc])
    | unlock hpc => exact ledger_keep hs _ (by simp [inHand, hpc])
    | skip hpc hdequeued => exact ledger_keep hs _ (by simp [inHand, hpc, hdequeued])
    | take task queue hpc hqueue =>
      have hbefore : byWorker s.left w = byWorker s.executed w := by
        simpa [inHand, hpc] using hs w
      have hafter : inHand w { s.worker w with pc := .unlock, dequeued := true, func := some task } =
          [⟨w, (s.worker w).iteration, some task⟩] := by simp [inHand]
      dsimp only
      rw [byWorker_snoc_self, hbefore, setWorker_self, hafter]
      rfl
    | call hpc hdequeued =>
      have hbefore : inHand w (s.worker w) =
          [⟨w, (s.worker w).iteration, (s.worker w).func⟩] := by simp [inHand, hpc, hdequeued]
      have hafter : inHand w { s.worker w with pc := .check } = [] := by simp [inHand]
      dsimp only
      rw [byWorker_snoc_self, ThreadPool.goto, setWorker_self, hafter, List.append_nil]
      exact (hs w).trans (by rw [hbefore])
  · obtain ⟨hleft,hexecuted⟩ := h.byWorker_other w hne
    rw [hleft, hexecuted, h.worker_other w hne]
    exact hs w

theorem InOrder.works (hs : InOrder s) (h : Works s v t) : InOrder t := by
  cases h with
  | take task queue hpc hqueue =>
    rw [InOrder, hqueue] at hs
    rw [InOrder]
    simpa [ThreadPool.setWorker] using hs
  | _ => exact hs

variable [Fintype W] [DecidableEq S]

-- a wake-up finds nothing in hand
theorem inHand_of_step (e : Event W S) (h : step s e = some t) (he : ∀ w, e ≠ .work w) (w : W) :
    inHand w (t.worker w) = inHand w (s.worker w) := by
  rcases step_workers e h with ⟨v,rfl,-⟩ | hstay
  · exact absurd rfl (he v)
  · rcases hstay w with ⟨heq,-⟩ | ⟨hblocked,heq⟩
    · rw [heq]
    · rw [heq]
      simp [inHand, hblocked]

theorem Ledger.stay (hs : Ledger s) (e : Event W S) (h : step s e = some t)
    (he : ∀ w, e ≠ .work w) (hleft : t.left = s.left) (hexecuted : t.executed = s.executed) :
    Ledger t := by
  intro w
  rw [hleft, hexecuted, inHand_of_step e h he w]
  exact hs w

theorem TaskInv.step (hs : TaskInv s) (e : Event W S) (h : step s e = some t) : TaskInv t := by
  have hcall := h
  cases e with
  | submit p =>
    simp only [Threads.step] at h
    split at h
    · cases h
      exact ⟨hs.submitted.submit p rfl rfl rfl, hs.inOrder, hs.ledger⟩
    · contradiction
  | enqueue p =>
    simp only [Threads.step] at h
    split at h
    · rename_i task hp
      cases h
      refine ⟨hs.submitted.update p .notify [task] (by simp) rfl rfl rfl (Or.inr ⟨task, hp, rfl⟩),
        ?_, hs.ledger⟩
      -- the new task goes to the end of both lists
      have hold := hs.inOrder
      simp only [InOrder] at hold ⊢
      rw [List.map_append, List.map_append, ← List.append_assoc, hold]
    · contradiction
  | notifyOne p wake =>
    simp only [Threads.step] at h
    split at h
    · split_ifs at h
      cases h
      exact ⟨hs.submitted.update p .idle [] (by simp) rfl rfl (List.append_nil _).symm (Or.inl rfl),
        hs.inOrder, hs.ledger⟩
    · split_ifs at h
      cases h
      exact ⟨hs.submitted.update p .idle [] (by simp) rfl rfl (List.append_nil _).symm (Or.inl rfl),
        hs.inOrder, hs.ledger.stay _ hcall (by simp) rfl rfl⟩
    · contradiction
  | work w =>
    have hworks := works_of_work s t w h
    exact ⟨hs.submitted.congr hworks.submitter_eq hworks.submits_eq hworks.enqueued_eq,
      hs.inOrder.works hworks, hs.ledger.works hworks⟩
  | spurious w =>
    simp only [Threads.step] at h
    split_ifs at h
    cases h
    exact ⟨hs.submitted.congr rfl rfl rfl, hs.inOrder, hs.ledger.stay _ hcall (by simp) rfl rfl⟩
  | setShutdown =>
    simp only [Threads.step] at h
    split_ifs at h
    cases h
    exact ⟨hs.submitted.congr rfl rfl rfl, hs.inOrder, hs.ledger⟩
  | notifyAll =>
    simp only [Threads.step] at h
    split_ifs at h
    cases h
    exact ⟨hs.submitted.congr rfl rfl rfl, hs.inOrder, hs.ledger.stay _ hcall (by simp) rfl rfl⟩

end steps

/-- In the queue once; or in the hands of the one worker that took it; or called
once, by the worker that took it and in the same iteration. -/
def InOnePlace (s : ThreadPool W S) (t : Task) : Prop :=
  (s.queue.count t = 1 ∧ (∀ w, ¬ Holds s w t) ∧ callsOf s t = []) ∨
    (t ∉ s.queue ∧ (∃ w, Holds s w t ∧ ⟨w, (s.worker w).iteration, some t⟩ ∈ s.left ∧
      ∀ v, Holds s v t → v = w) ∧ callsOf s t = []) ∨
    (t ∉ s.queue ∧ (∀ w, ¬ Holds s w t) ∧ ∃ e ∈ s.left, callsOf s t = [e])

section places
variable {s : ThreadPool W S}

theorem mem_byWorker (log : List (Entry W)) (e : Entry W) :
    e ∈ byWorker log e.worker ↔ e ∈ log := by
  simp [byWorker]

theorem TaskInv.left_of_holds (hs : TaskInv s) (w : W) (t : Task) (h : Holds s w t) :
    ⟨w, (s.worker w).iteration, some t⟩ ∈ s.left := by
  rw [← mem_byWorker, hs.ledger w]
  exact List.mem_append_right _ (inHand_of_holds w t h)

theorem TaskInv.left_of_executed (hs : TaskInv s) (e : Entry W) (h : e ∈ s.executed) :
    e ∈ s.left := by
  rw [← mem_byWorker, hs.ledger e.worker]
  exact List.mem_append_left _ ((mem_byWorker s.executed e).mpr h)

theorem TaskInv.tasks_nodup (hs : TaskInv s) :
    (s.left.map Entry.task ++ s.queue.map some).Nodup := by
  rw [hs.inOrder]
  exact hs.submitted.nodup.map (Option.some_injective Task)

/-- A task is taken from the queue once. -/
theorem TaskInv.left_unique (hs : TaskInv s) (e e' : Entry W) (he : e ∈ s.left) (he' : e' ∈ s.left)
    (htask : e.task = e'.task) : e = e' :=
  List.inj_on_of_nodup_map (List.nodup_append.mp hs.tasks_nodup).1 he he' htask

theorem TaskInv.byWorker_nodup (hs : TaskInv s) (w : W) :
    (byWorker s.executed w ++ inHand w (s.worker w)).Nodup := by
  rw [← hs.ledger w]
  exact ((List.nodup_append.mp hs.tasks_nodup).1.of_map _).filter _

-- a worker does not hold what it has called already
theorem TaskInv.not_executed_of_holds (hs : TaskInv s) (w : W) (t : Task) (h : Holds s w t) :
    ⟨w, (s.worker w).iteration, some t⟩ ∉ s.executed := by
  intro hexecuted
  exact (List.nodup_append.mp (hs.byWorker_nodup w)).2.2 _
    ((mem_byWorker s.executed _).mpr hexecuted) _ (inHand_of_holds w t h) rfl

theorem TaskInv.executed_nodup (hs : TaskInv s) : s.executed.Nodup := by
  rw [List.nodup_iff_count_le_one]
  intro e
  calc
    s.executed.count e = (byWorker s.executed e.worker).count e :=
      (List.count_filter (by simp)).symm
    _ ≤ 1 := List.nodup_iff_count_le_one.mp (List.nodup_append.mp (hs.byWorker_nodup _)).1 e

/-- What is still in the queue nobody holds and nobody has called. -/
theorem TaskInv.inOnePlace_of_queue (hs : TaskInv s) (t : Task) (ht : t ∈ s.queue) :
    InOnePlace s t := by
  obtain ⟨-,hqueue,hdisjoint⟩ := List.nodup_append.mp hs.tasks_nodup
  have hnot : ∀ e ∈ s.left, e.task ≠ some t := by
    intro e he
    exact hdisjoint _ (List.mem_map_of_mem he) _ (List.mem_map_of_mem ht)
  refine Or.inl ⟨List.count_eq_one_of_mem (hqueue.of_map _) ht, ?_, ?_⟩
  · intro w hw
    exact hnot _ (hs.left_of_holds w t hw) rfl
  · apply List.eq_nil_iff_forall_not_mem.mpr
    intro e he
    obtain ⟨hexecuted,htask⟩ := (mem_callsOf e t).mp he
    exact hnot e (hs.left_of_executed e hexecuted) htask

/-- What was taken from the queue is with the worker that took it, or called by it. -/
theorem TaskInv.inOnePlace_of_left (hs : TaskInv s) (t : Task) (e : Entry W) (he : e ∈ s.left)
    (htask : e.task = some t) : InOnePlace s t := by
  have hqueue : t ∉ s.queue := by
    intro hmem
    exact (List.nodup_append.mp hs.tasks_nodup).2.2 _ (List.mem_map_of_mem he) _
      (List.mem_map_of_mem hmem) htask
  have hone : ∀ e' ∈ s.left, e'.task = some t → e' = e :=
    fun e' he' htask' => hs.left_unique e' e he' he (htask'.trans htask.symm)
  have hholder : ∀ w, Holds s w t → ⟨w, (s.worker w).iteration, some t⟩ = e :=
    fun w hw => hone _ (hs.left_of_holds w t hw) rfl
  by_cases hexecuted : e ∈ s.executed
  · refine Or.inr (Or.inr ⟨hqueue, ?_, e, he, ?_⟩)
    · intro w hw
      apply hs.not_executed_of_holds w t hw
      rw [hholder w hw]
      exact hexecuted
    · rw [← List.perm_singleton]
      apply (List.perm_ext_iff_of_nodup (hs.executed_nodup.filter _) (List.nodup_singleton e)).mpr
      intro e'
      rw [← callsOf, mem_callsOf, List.mem_singleton]
      constructor
      · intro ⟨he',htask'⟩
        exact hone e' (hs.left_of_executed e' he') htask'
      · rintro rfl
        exact ⟨hexecuted, htask⟩
  · -- the entry is not in the worker's calls, so it is the one in hand
    have hhand : e ∈ inHand e.worker (s.worker e.worker) := by
      have hmem := (mem_byWorker s.left e).mpr he
      rw [hs.ledger e.worker, List.mem_append, mem_byWorker] at hmem
      exact hmem.resolve_left hexecuted
    have hheld := holds_of_inHand e.worker e t hhand htask
    refine Or.inr (Or.inl ⟨hqueue, ⟨e.worker, hheld, hs.left_of_holds _ t hheld, ?_⟩, ?_⟩)
    · intro v hv
      exact congrArg Entry.worker (hholder v hv)
    · apply List.eq_nil_iff_forall_not_mem.mpr
      intro e' he'
      obtain ⟨hcalled,htask'⟩ := (mem_callsOf e' t).mp he'
      rw [hone e' (hs.left_of_executed e' hcalled) htask'] at hcalled
      exact hexecuted hcalled

theorem TaskInv.inOnePlace (hs : TaskInv s) (t : Task) (ht : t ∈ s.enqueued) : InOnePlace s t := by
  have hmem : some t ∈ s.left.map Entry.task ++ s.queue.map some := by
    rw [hs.inOrder]
    exact List.mem_map_of_mem ht
  rcases List.mem_append.mp hmem with hleft | hqueue
  · obtain ⟨e,he,htask⟩ := List.mem_map.mp hleft
    exact hs.inOnePlace_of_left t e he htask
  · obtain ⟨t',ht',heq⟩ := List.mem_map.mp hqueue
    cases heq
    exact hs.inOnePlace_of_queue t ht'

end places

/-- In every state of every run each task that was enqueued is in one place,
tasks leave the queue in order, and a worker calls only what it took from the
queue in the same iteration. -/
theorem tasks_in_one_place [Fintype W] [DecidableEq S] (events : List (Event W S))
    (s : ThreadPool W S) (hrun : run step ThreadPool.init events = some s) :
    (∀ t ∈ s.enqueued, InOnePlace s t) ∧
      s.left.map Entry.task ++ s.queue.map some = s.enqueued.map some ∧ s.enqueued.Nodup ∧
      ∀ e ∈ s.executed, e ∈ s.left ∧ ∃ t ∈ s.enqueued, e.task = some t := by
  have hinv : TaskInv s :=
    run_invariant step TaskInv (fun s e t hs h => hs.step e h) _ s events taskInv_init hrun
  refine ⟨hinv.inOnePlace, hinv.inOrder, hinv.submitted.nodup, ?_⟩
  intro e he
  have hleft := hinv.left_of_executed e he
  have hmem : e.task ∈ s.enqueued.map some := by
    rw [← hinv.inOrder]
    exact List.mem_append_left _ (List.mem_map_of_mem hleft)
  obtain ⟨t,ht,htask⟩ := List.mem_map.mp hmem
  exact ⟨hleft, t, ht, htask.symm⟩

-- the second worker wakes up without a notification and finds nothing
theorem tasks_in_one_place_spurious : ∃ s : ThreadPool (Fin 2) (Fin 1),
    run step ThreadPool.init [.work 1, .work 1, .work 1, .work 1, .spurious 1, .submit 0, .enqueue 0,
      .work 0, .work 0, .work 0, .work 0, .work 0, .work 1, .work 1, .work 1, .work 1] = some s ∧
      InOnePlace s 0 := by
  obtain ⟨s,hrun⟩ : ∃ s : ThreadPool (Fin 2) (Fin 1),
      run step ThreadPool.init [.work 1, .work 1, .work 1, .work 1, .spurious 1, .submit 0,
        .enqueue 0, .work 0, .work 0, .work 0, .work 0, .work 0, .work 1, .work 1, .work 1,
        .work 1] = some s := ⟨_, rfl⟩
  have hplaces := (tasks_in_one_place _ s hrun).1 0
  have hs := hrun
  cases hs
  exact ⟨_, hrun, hplaces (by decide)⟩

end CppOperate.Threads

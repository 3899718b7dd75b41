import CppOperate.PoolModel

/-! Wake-ups of the pool. `submit` and `shutdown` notify without the mutex under
which a worker tests the queue and then waits, so a notification can fall
between the two. -/
namespace CppOperate.Threads
open StepRuns

namespace WorkerPc

/-- Holding `m_conditional_mutex`. -/
def HoldsMutex : WorkerPc → Prop
  | .test => True
  | .gap => True
  | .dequeue => True
  | .unlock => True
  | _ => False

/-- On the way to another test of the queue. -/
def Awake : WorkerPc → Prop
  | .gap => False
  | .blocked => False
  | .exit => False
  | _ => True

end WorkerPc

variable {W S : Type*}

/-- A task waits in the queue, nobody is in `submit`, and all workers sleep. -/
def Stuck (s : ThreadPool W S) : Prop :=
  s.shutdown = .notCalled ∧ (∀ p, s.submitter p = .idle) ∧ s.queue ≠ [] ∧
    ∀ w, (s.worker w).pc = .blocked

/-- `shutdown` has notified, nobody else is about to, and a worker sleeps. -/
def Asleep (s : ThreadPool W S) : Prop :=
  s.shutdown = .notified ∧ (∀ p, s.submitter p ≠ .notify) ∧ ∃ w, (s.worker w).pc = .blocked

/-- The event is no `notify_one` that finds tasks in the queue while every
worker is between the test that found it empty and its `wait`. -/
def NotifyOk (s : ThreadPool W S) : Event W S → Prop
  | .notifyOne _ _ => s.queue = [] ∨ ∃ w, (s.worker w).pc ≠ .gap
  | _ => True

/-- At `notify_all` no worker is between its test and its `wait`, and after it
no worker finds the queue empty. -/
def ShutdownOk (s : ThreadPool W S) : Event W S → Prop
  | .notifyAll => ∀ w, (s.worker w).pc ≠ .gap
  | .work w => s.shutdown = .notified → (s.worker w).pc = .test → s.queue ≠ []
  | _ => True

instance decidableShutdownOk [Fintype W] (s : ThreadPool W S) :
    ∀ e, Decidable (ShutdownOk s e)
  | .notifyAll => inferInstanceAs (Decidable (∀ w, (s.worker w).pc ≠ .gap))
  | .work w =>
    inferInstanceAs (Decidable (s.shutdown = .notified → (s.worker w).pc = .test → s.queue ≠ []))
  | .submit _ | .enqueue _ | .notifyOne _ _ | .spurious _ | .setShutdown => isTrue trivial

structure Inv (s : ThreadPool W S) : Prop where
  -- so at most one worker is between its test and its `wait`
  owns : ∀ w, (s.worker w).pc.HoldsMutex → s.owner = some w
  inside : s.shutdown = .notCalled → ∀ w, (s.worker w).pc ≠ .exit
  served : s.shutdown = .notCalled → s.queue ≠ [] →
    (∃ p, s.submitter p = .notify) ∨ ∃ w, (s.worker w).pc.Awake

theorem init_inv : Inv (ThreadPool.init : ThreadPool W S) := by
  refine ⟨?_, ?_, ?_⟩
  · intro w h
    exact h.elim
  · intro _ w h
    contradiction
  · intro _ h
    contradiction

theorem awake_iff (pc : WorkerPc) : pc.Awake ↔ pc ≠ .gap ∧ pc ≠ .blocked ∧ pc ≠ .exit := by
  cases pc <;> simp [WorkerPc.Awake]

/-- At most one worker is between its test and its `wait`. -/
theorem Inv.gap_unique {s : ThreadPool W S} (hinv : Inv s) (w v : W)
    (hw : (s.worker w).pc = .gap) (hv : (s.worker v).pc = .gap) : v = w := by
  have hv' := hinv.owns v (by rw [hv]; trivial)
  rw [hinv.owns w (by rw [hw]; trivial)] at hv'
  exact (Option.some.inj hv').symm

theorem Inv.not_stuck {s : ThreadPool W S} [Nonempty W] (hinv : Inv s) : ¬ Stuck s := by
  intro ⟨hrunning,hidle,hne,hblocked⟩
  rcases hinv.served hrunning hne with ⟨p,hp⟩ | ⟨w,hw⟩
  · rw [hidle p] at hp
    contradiction
  · exact ((awake_iff _).mp hw).2.1 (hblocked w)

/-- With a second worker some worker is always outside the gap. -/
theorem Inv.notifyOk {s : ThreadPool W S} [Nontrivial W] (hinv : Inv s) (e : Event W S) : NotifyOk s e := by
  cases e with
  | notifyOne p wake =>
    obtain ⟨v,w,hne⟩ := exists_pair_ne W
    refine Or.inr ?_
    by_contra! hgap
    exact hne (hinv.gap_unique w v (hgap w) (hgap v))
  | _ => trivial

section steps
variable [DecidableEq W] {s t : ThreadPool W S} {w : W}

/-- A step of one worker keeps the invariant when it is awake afterwards, or
when it was not the one awake and left queue and submitters alone. -/
theorem Inv.move (hinv : Inv s) (x : Worker) (hworker : t.worker = Function.update s.worker w x)
    (hshutdown : t.shutdown = s.shutdown) (hmutex : x.pc.HoldsMutex → t.owner = some w)
    (hothers : ∀ v, v ≠ w → (s.worker v).pc.HoldsMutex → t.owner = some v)
    (hexit : s.shutdown = .notCalled → x.pc ≠ .exit)
    (hserved : x.pc.Awake ∨ t.submitter = s.submitter ∧ t.queue = s.queue ∧
      (s.shutdown = .notCalled → s.queue ≠ [] → ¬ (s.worker w).pc.Awake)) : Inv t := by
  refine ⟨?_, ?_, ?_⟩
  · rw [hworker]
    exact (Function.forall_update_iff s.worker
      fun v y => y.pc.HoldsMutex → t.owner = some v).mpr ⟨hmutex, hothers⟩
  · intro hrunning
    rw [hshutdown] at hrunning
    rw [hworker]
    exact (Function.forall_update_iff s.worker fun _ y => y.pc ≠ .exit).mpr
      ⟨hexit hrunning, fun v _ => hinv.inside hrunning v⟩
  · intro hrunning hne
    rw [hshutdown] at hrunning
    rcases hserved with hx | ⟨hsubmitter,hqueue,hasleep⟩
    · exact Or.inr ⟨w, by rwa [hworker, Function.update_self]⟩
    · rw [hqueue] at hne
      rcases hinv.served hrunning hne with ⟨p,hp⟩ | ⟨v,hv⟩
      · exact Or.inl ⟨p, by rw [hsubmitter, hp]⟩
      · -- the awake worker is another one
        have hvw : v ≠ w := fun h => hasleep hrunning hne (h ▸ hv)
        exact Or.inr ⟨v, by rwa [hworker, Function.update_of_ne hvw]⟩

theorem Inv.awake_step (hinv : Inv s) (x : Worker)
    (hworker : t.worker = Function.update s.worker w x) (hx : x.pc.Awake)
    (hshutdown : t.shutdown = s.shutdown) (hmutex : x.pc.HoldsMutex → t.owner = some w)
    (hothers : ∀ v, v ≠ w → (s.worker v).pc.HoldsMutex → t.owner = some v) : Inv t :=
  hinv.move x hworker hshutdown hmutex hothers (fun _ => ((awake_iff x.pc).mp hx).2.2) (Or.inl hx)

theorem Inv.works (hinv : Inv s) (h : Works s w t) : Inv t := by
  have hkeep : ∀ v, v ≠ w → (s.worker v).pc.HoldsMutex → s.owner = some v :=
    fun v _ => hinv.owns v
  -- who takes the mutex found it free, who gives it back held it
  have hfree (howner : s.owner = none) :
      ∀ v, v ≠ w → (s.worker v).pc.HoldsMutex → some w = some v := by
    intro v _ hv
    rw [hinv.owns v hv] at howner
    contradiction
  have halone (hmine : (s.worker w).pc.HoldsMutex) :
      ∀ v, v ≠ w → (s.worker v).pc.HoldsMutex → none = some v := by
    intro v hne hv
    have := (hinv.owns v hv).symm.trans (hinv.owns w hmine)
    exact absurd (Option.some.inj this) hne
  have hmine (hmutex : (s.worker w).pc.HoldsMutex) : s.owner = some w := hinv.owns w hmutex
  cases h with
  | enter hpc hrunning => exact hinv.awake_step _ rfl trivial rfl (fun h => h.elim) hkeep
  | leave hpc hover =>
    exact hinv.move _ rfl rfl (fun h => h.elim) hkeep (fun hrunning => absurd hrunning hover)
      (Or.inr ⟨rfl, rfl, fun hrunning => absurd hrunning hover⟩)
  | lock hpc howner => exact hinv.awake_step _ rfl trivial rfl (fun _ => rfl) (hfree howner)
  | foundEmpty hpc hqueue =>
    exact hinv.move _ rfl rfl (fun _ => hmine (by rw [hpc]; trivial)) hkeep (by simp)
      (Or.inr ⟨rfl, rfl, fun _ hne => absurd hqueue hne⟩)
  | foundTask hpc hqueue =>
    exact hinv.awake_step _ rfl trivial rfl (fun _ => hmine (by rw [hpc]; trivial)) hkeep
  | wait hpc =>
    refine hinv.move _ rfl rfl (fun h => h.elim) (halone (by rw [hpc]; trivial)) (by simp)
      (Or.inr ⟨rfl, rfl, ?_⟩)
    intro _ _
    rw [hpc]
    exact id
  | relock hpc howner => exact hinv.awake_step _ rfl trivial rfl (fun _ => rfl) (hfree howner)
  | miss hpc hqueue =>
    exact hinv.awake_step _ rfl trivial rfl (fun _ => hmine (by rw [hpc]; trivial)) hkeep
  | take task queue hpc hqueue =>
    exact hinv.awake_step _ rfl trivial rfl (fun _ => hmine (by rw [hpc]; trivial)) hkeep
  | unlock hpc =>
    exact hinv.awake_step _ rfl trivial rfl (fun h => h.elim) (halone (by rw [hpc]; trivial))
  | call hpc hdequeued => exact hinv.awake_step _ rfl trivial rfl (fun h => h.elim) hkeep
  | skip hpc hdequeued => exact hinv.awake_step _ rfl trivial rfl (fun h => h.elim) hkeep

variable [Fintype W] [DecidableEq S]

theorem Inv.step (hinv : Inv s) (e : Event W S) (hok : NotifyOk s e) (h : step s e = some t) :
    Inv t := by
  have hkeep (w : W) : ∀ v, v ≠ w → (s.worker v).pc.HoldsMutex → s.owner = some v :=
    fun v _ => hinv.owns v
  cases e with
  | submit p =>
    simp only [Threads.step] at h
    split at h
    · rename_i hidle
      cases h
      refine ⟨hinv.owns, hinv.inside, ?_⟩
      intro hrunning hne
      rcases hinv.served hrunning hne with ⟨q,hq⟩ | hawake
      · have hqp : q ≠ p := by
          rintro rfl
          rw [hidle] at hq
          contradiction
        exact Or.inl ⟨q, (Function.update_of_ne hqp _ _).trans hq⟩
      · exact Or.inr hawake
    · contradiction
  | enqueue p =>
    simp only [Threads.step] at h
    split at h
    · cases h
      -- the submitter itself is about to notify
      exact ⟨hinv.owns, hinv.inside, fun _ _ => Or.inl ⟨p, Function.update_self _ _ _⟩⟩
    · contradiction
  | notifyOne p wake =>
    simp only [Threads.step] at h
    split at h
    · split_ifs at h with hnobody
      cases h
      refine ⟨hinv.owns, hinv.inside, ?_⟩
      intro hrunning hne
      -- nobody to wake: the worker outside the gap is awake
      obtain ⟨w,hgap⟩ := hok.resolve_left hne
      exact Or.inr ⟨w, (awake_iff _).mpr ⟨hgap, hnobody w, hinv.inside hrunning w⟩⟩
    · split_ifs at h with hblocked
      cases h
      exact hinv.awake_step _ rfl trivial rfl (fun h => h.elim) (hkeep _)
    · contradiction
  | work w => exact hinv.works (works_of_work s t w h)
  | spurious w =>
    simp only [Threads.step] at h
    split_ifs at h
    cases h
    exact hinv.awake_step _ rfl trivial rfl (fun h => h.elim) (hkeep w)
  | setShutdown =>
    simp only [Threads.step] at h
    split_ifs at h
    cases h
    exact ⟨hinv.owns, fun h => by contradiction, fun h => by contradiction⟩
  | notifyAll =>
    simp only [Threads.step] at h
    split_ifs at h
    cases h
    refine ⟨?_, fun h => by contradiction, fun h => by contradiction⟩
    intro w hw
    dsimp only at hw
    split_ifs at hw with hblocked
    · exact hw.elim
    · exact hinv.owns w hw

/-- A lost notification, and the `wait` that follows it. -/
theorem Inv.stuck_of_lost [Nonempty W] (hinv : Inv s) (p : S) (hrunning : s.shutdown = .notCalled)
    (hp : s.submitter p = .notify) (hothers : ∀ q, q ≠ p → s.submitter q = .idle)
    (hlost : ¬ NotifyOk s (.notifyOne p none : Event W S)) :
    ∃ w t, run Threads.step s [.notifyOne p none, .work w] = some t ∧ Stuck t := by
  simp only [NotifyOk, not_or, not_exists, not_not] at hlost
  obtain ⟨hne,hgap⟩ := hlost
  obtain ⟨w⟩ := ‹Nonempty W›
  have hnobody : ∀ v, (s.worker v).pc ≠ .blocked := by
    intro v
    rw [hgap v]
    decide
  refine ⟨w, ({ s with submitter := Function.update s.submitter p .idle }.goto w .blocked).holding
    none, ?_, hrunning, ?_, hne, ?_⟩
  · simp [run, Threads.step, hp, hnobody, ThreadPool.work, hgap w]
  · intro q
    rcases eq_or_ne q p with rfl | hqp
    · exact Function.update_self _ _ _
    · exact (Function.update_of_ne hqp _ _).trans (hothers q hqp)
  · intro v
    -- only one worker can be in the gap
    rw [hinv.gap_unique w v (hgap w) (hgap v)]
    exact congrArg Worker.pc (setWorker_self _)

end steps

section shutdown
variable [DecidableEq W] {s t : ThreadPool W S}

theorem Works.gap {v : W} (h : Works s v t) (w : W) (hw : (t.worker w).pc = .gap) :
    (s.worker w).pc = .gap ∨ (w = v ∧ (s.worker w).pc = .test ∧ s.queue = []) := by
  rcases eq_or_ne w v with rfl | hne
  · cases h with
    | foundEmpty hpc hqueue => exact Or.inr ⟨rfl, hpc, hqueue⟩
    | _ => simp [ThreadPool.goto, ThreadPool.holding, ThreadPool.setWorker] at hw
  · rw [h.worker_other w hne] at hw
    exact Or.inl hw

theorem Works.blocked {v : W} (h : Works s v t) (w : W) (hw : (t.worker w).pc = .blocked) :
    (s.worker w).pc = .blocked ∨ (s.worker w).pc = .gap := by
  rcases eq_or_ne w v with rfl | hne
  · cases h with
    | wait hpc => exact Or.inr hpc
    | _ => simp [ThreadPool.goto, ThreadPool.holding, ThreadPool.setWorker] at hw
  · rw [h.worker_other w hne] at hw
    exact Or.inl hw

variable [Fintype W] [DecidableEq S]

/-- A worker gets into the gap only by finding the queue empty. -/
theorem gap_of_step (e : Event W S) (h : step s e = some t) (w : W)
    (hw : (t.worker w).pc = .gap) :
    (s.worker w).pc = .gap ∨ (e = .work w ∧ (s.worker w).pc = .test ∧ s.queue = []) := by
  rcases step_workers e h with ⟨v,rfl,hworks⟩ | hstay
  · rcases hworks.gap w hw with hgap | ⟨rfl,hfound⟩
    · exact Or.inl hgap
    · exact Or.inr ⟨rfl, hfound⟩
  · rcases hstay w with ⟨heq,-⟩ | ⟨-,heq⟩
    · exact Or.inl (heq ▸ hw)
    · rw [heq] at hw
      contradiction

/-- A worker gets blocked only out of the gap, and `notify_all` leaves none blocked. -/
theorem blocked_of_step (e : Event W S) (h : step s e = some t) (w : W)
    (hw : (t.worker w).pc = .blocked) :
    ((s.worker w).pc = .blocked ∧ e ≠ .notifyAll) ∨ (s.worker w).pc = .gap := by
  rcases step_workers e h with ⟨v,rfl,hworks⟩ | hstay
  · exact (hworks.blocked w hw).imp_left fun hblocked => ⟨hblocked, by simp⟩
  · rcases hstay w with ⟨heq,hall⟩ | ⟨-,heq⟩
    · rw [heq] at hw
      exact Or.inl ⟨hw, fun h => hall h hw⟩
    · rw [heq] at hw
      contradiction

theorem notified_of_step (e : Event W S) (h : step s e = some t)
    (ht : t.shutdown = .notified) : e = .notifyAll ∨ s.shutdown = .notified := by
  cases e with
  | work w => exact Or.inr ((works_of_work s t w h).shutdown_eq ▸ ht)
  | notifyAll => exact Or.inl rfl
  | setShutdown =>
    simp only [step] at h
    split_ifs at h
    cases h
    contradiction
  | _ =>
    simp only [step] at h
    split at h <;> (try split_ifs at h) <;> cases h <;> exact Or.inr ht

/-- After `notify_all` nobody sleeps or is about to. -/
def Roused (s : ThreadPool W S) : Prop :=
  s.shutdown = .notified → ∀ w, (s.worker w).pc ≠ .gap ∧ (s.worker w).pc ≠ .blocked

theorem Roused.step (hs : Roused s) (e : Event W S) (hok : ShutdownOk s e)
    (h : step s e = some t) : Roused t := by
  intro ht w
  rcases notified_of_step e h ht with rfl | hbefore
  · constructor
    · intro hw
      rcases gap_of_step _ h w hw with hgap | ⟨hwork,-⟩
      · exact hok w hgap
      · contradiction
    · intro hw
      rcases blocked_of_step _ h w hw with ⟨-,hnot⟩ | hgap
      · contradiction
      · exact hok w hgap
  · obtain ⟨hnogap,hnoblocked⟩ := hs hbefore w
    constructor
    · intro hw
      rcases gap_of_step e h w hw with hgap | ⟨rfl,htest,hempty⟩
      · exact hnogap hgap
      · exact hok hbefore htest hempty
    · intro hw
      rcases blocked_of_step e h w hw with ⟨hblocked,-⟩ | hgap
      · exact hnoblocked hblocked
      · exact hnogap hgap

theorem asleep_of_wait (hnotify : ∀ p, s.submitter p ≠ .notify) (hover : s.shutdown = .notified)
    (w : W) (hgap : (s.worker w).pc = .gap) :
    ∃ t, Threads.step s (.work w : Event W S) = some t ∧ Asleep t := by
  refine ⟨(s.goto w .blocked).holding none, ?_, hover, hnotify, w, ?_⟩
  · simp [Threads.step, ThreadPool.work, hgap]
  · exact congrArg Worker.pc (setWorker_self _)

/-- A shutdown that comes too early for some worker, and the `wait` of that worker. -/
theorem asleep_of_missed (e : Event W S) (hmissed : ¬ ShutdownOk s e)
    (hnotify : ∀ p, s.submitter p ≠ .notify) (h : step s e = some t) :
    ∃ w u, run Threads.step s [e, .work w] = some u ∧ Asleep u := by
  have hwait (w : W) (hover : t.shutdown = .notified) (hgap : (t.worker w).pc = .gap)
      (hsubmitter : t.submitter = s.submitter) :
      ∃ w u, run Threads.step s [e, .work w] = some u ∧ Asleep u := by
    obtain ⟨u,hu,hasleep⟩ := asleep_of_wait (hsubmitter ▸ hnotify) hover w hgap
    refine ⟨w, u, ?_, hasleep⟩
    exact (run_cons_iff Threads.step s u e [.work w]).mpr
      ⟨t, h, (run_cons_iff Threads.step t u _ []).mpr ⟨u, hu, rfl⟩⟩
  cases e with
  | notifyAll =>
    simp only [ShutdownOk, not_forall, not_not] at hmissed
    obtain ⟨w,hgap⟩ := hmissed
    simp only [step] at h
    split_ifs at h
    cases h
    exact hwait w rfl (by simp [hgap]) rfl
  | work w =>
    simp only [ShutdownOk, not_forall, not_not] at hmissed
    obtain ⟨hover,htest,hempty⟩ := hmissed
    have hgap : t = s.goto w .gap := by
      simpa [step, ThreadPool.work, htest, hempty, eq_comm] using h
    subst hgap
    exact hwait w hover (congrArg Worker.pc (setWorker_self _)) rfl
  | _ => exact absurd trivial hmissed

end shutdown

section wakeups
variable [DecidableEq W] [Fintype W] [DecidableEq S]

/-- No task is left in the queue of a pool in which everybody sleeps and nobody
is in `submit`, as long as no notification is lost. With two workers none ever
is; a lost one leaves a single worker asleep after its next step. -/
theorem pool_not_stuck [Nonempty W] (events : List (Event W S)) (s : ThreadPool W S)
    (hrun : run step ThreadPool.init events = some s)
    (hok : Nontrivial W ∨ Meets step NotifyOk ThreadPool.init events) :
    ¬ Stuck s ∧ ∀ p, s.shutdown = .notCalled → s.submitter p = .notify →
      (∀ q, q ≠ p → s.submitter q = .idle) → ¬ NotifyOk s (.notifyOne p none : Event W S) →
        ∃ w t, run step s [.notifyOne p none, .work w] = some t ∧ Stuck t := by
  have hinv : Inv s := by
    rcases hok with htwo | hmeets
    · exact run_invariant step Inv (fun s e t hs h => hs.step e (hs.notifyOk e) h) _ s events
        init_inv hrun
    · exact run_invariant_of_meets step NotifyOk Inv (fun s e t hs hok h => hs.step e hok h) _ s
        events init_inv hmeets hrun
  exact ⟨hinv.not_stuck, fun p => hinv.stuck_of_lost p⟩

theorem pool_not_stuck_pair : ∃ s : ThreadPool (Fin 2) (Fin 1),
    run step ThreadPool.init [.work 0, .work 0, .work 0, .submit 0, .enqueue 0,
      .notifyOne 0 none, .work 0] = some s ∧ (s.worker 0).pc = .blocked ∧ ¬ Stuck s := by
  obtain ⟨s,hrun⟩ : ∃ s : ThreadPool (Fin 2) (Fin 1),
      run step ThreadPool.init [.work 0, .work 0, .work 0, .submit 0, .enqueue 0,
        .notifyOne 0 none, .work 0] = some s := ⟨_, rfl⟩
  have hstuck := (pool_not_stuck _ s hrun (Or.inl inferInstance)).1
  have hs := hrun
  cases hs
  exact ⟨_, hrun, rfl, hstuck⟩

/-- The one worker finds the queue empty; before it waits, a task is enqueued
and `notify_one` finds nobody to wake. -/
theorem lone_worker_stuck : ∃ s : ThreadPool (Fin 1) (Fin 1),
    run step ThreadPool.init [.work 0, .work 0, .work 0, .submit 0, .enqueue 0,
      .notifyOne 0 none, .work 0] = some s ∧ Stuck s := by
  refine ⟨_, rfl, rfl, ?_, by decide, ?_⟩
  · decide
  · decide

/-- After `notify_all` of `shutdown` no worker sleeps, as long as at that moment
none was between its test and its `wait` and none has found the queue empty
since. Otherwise that worker is asleep after its next step. -/
theorem shutdown_rouses (events : List (Event W S)) (s : ThreadPool W S)
    (hrun : run step ThreadPool.init events = some s)
    (hok : Meets step ShutdownOk ThreadPool.init events) :
    (s.shutdown = .notified → ∀ w, (s.worker w).pc ≠ .blocked) ∧ ¬ Asleep s ∧
      ∀ e t, ¬ ShutdownOk s e → (∀ p, s.submitter p ≠ .notify) → step s e = some t →
        ∃ w u, run step s [e, .work w] = some u ∧ Asleep u := by
  have hroused : Roused s := by
    apply run_invariant_of_meets step ShutdownOk Roused ?_ _ s events ?_ hok hrun
    · intro s e t hs hok h
      exact hs.step e hok h
    · intro h
      contradiction
  refine ⟨fun hover w => (hroused hover w).2, ?_, fun e t => asleep_of_missed e⟩
  intro ⟨hover,_,w,hw⟩
  exact (hroused hover w).2 hw

-- both workers are in `wait` when `shutdown` is called
theorem shutdown_rouses_waiting : ∃ s t : ThreadPool (Fin 2) (Fin 1),
    run step ThreadPool.init [.work 0, .work 0, .work 0, .work 0, .work 1, .work 1, .work 1,
      .work 1] = some s ∧ (∀ w, (s.worker w).pc = .blocked) ∧
      run step s [.setShutdown, .notifyAll] = some t ∧ t.shutdown = .notified ∧
        ∀ w, (t.worker w).pc ≠ .blocked := by
  obtain ⟨s,hwait⟩ : ∃ s : ThreadPool (Fin 2) (Fin 1),
      run step ThreadPool.init [.work 0, .work 0, .work 0, .work 0, .work 1, .work 1, .work 1,
        .work 1] = some s := ⟨_, rfl⟩
  have hblocked : ∀ w, (s.worker w).pc = .blocked := by
    cases hwait
    decide
  obtain ⟨t,hshut⟩ : ∃ t, run step s [.setShutdown, .notifyAll] = some t := by
    cases hwait
    exact ⟨_, rfl⟩
  have hover : t.shutdown = .notified := by
    cases hwait
    cases hshut
    rfl
  have hrun := (run_append_iff step ThreadPool.init t _ _).mpr ⟨s, hwait, hshut⟩
  refine ⟨s, t, hwait, hblocked, hshut, hover, ?_⟩
  apply (shutdown_rouses _ t hrun ?_).1 hover
  decide

/-- The worker is past the loop test and has found the queue empty when
`shutdown` notifies; then it waits. -/
theorem worker_sleeps_through_shutdown : ∃ s : ThreadPool (Fin 1) (Fin 1),
    run step ThreadPool.init [.work 0, .work 0, .work 0, .setShutdown, .notifyAll, .work 0] =
      some s ∧ Asleep s ∧ ∀ p, s.submitter p = .idle := by
  refine ⟨_, rfl, ⟨rfl, by decide, 0, rfl⟩, ?_⟩
  decide

end wakeups
end CppOperate.Threads

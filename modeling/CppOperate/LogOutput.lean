import CppOperate.LogTask
import Mathlib

/-! What reaches the terminal: the task takes every byte the log calls have put into
the queue, and prints the bytes it took as long as no read fills its whole buffer. -/
namespace CppOperate.Log
open StepRuns Fifo
open State (clearBuff)

variable {W : Type*} [DecidableEq W] [Fintype W]

/-- For any number of threads and any interleaving in which no second measurement of
`FIFO_MIN` is longer than the static buffers, no access leaves its memory, and the
task takes the bytes the calls copied in the order in which they were accepted:
what is still in the queue is what it has not taken. A measurement that is longer
leads to an access outside. -/
theorem taken_in_order (malloc : ∀ n : ℕ, Option (List.Vector UInt8 n)) (mutexOk semOk : Bool)
    (size : UInt32) (f : Fifo) (hf : salofFifoCreate malloc mutexOk semOk size = some f)
    (events : List (Event W)) (s : State W)
    (hok : Meets State.step MeasureOk (State.init f) events)
    (hrun : run State.step (State.init f) events = some s) :
    s.fault = false ∧ (∃ rest, s.written.flatMap Written.bytes = s.taken ++ rest ∧
      rest.length = (s.fifo.inPos-s.fifo.outPos).toNat ∧ rest.length ≤ s.fifo.size.toNat) ∧
      ∀ e t, ¬ MeasureOk s e → s.step e = some t →
        ∃ u, Repeats State.step e t u ∧ u.fault = true := by
  obtain ⟨q,hinv⟩ := run_inv f (Stores.of_create hf) events s hok hrun
  have hle := hinv.stores.length_le
  refine ⟨hinv.fault, ⟨q, hinv.ledger, hinv.stores.used_toNat.symm, by omega⟩, ?_⟩
  intro e t hlong hstep
  exact hinv.overruns e hlong hstep

/-- Thread `true` formats "hi" and thread `false` "xy" over it, before either copies;
the task reads between the two writes, which both put "xy" into the queue. -/
def twoThreads : List (Event Bool) :=
  [.call true, .put true 104, .put true 105, .formatted true,
    .call false, .put false 120, .put false 121, .formatted false] ++
    List.replicate 7 (.writer true) ++ List.replicate 7 .task ++ List.replicate 7 (.writer false)

def WritePc.isIdle : WritePc → Bool
  | .idle => true
  | _ => false

/-- The run is possible; at its end nobody is logging, and half the bytes are taken. -/
theorem twoThreads_run : ∃ s, run State.step (State.init smallFifo) twoThreads = some s ∧
    (∀ w, s.writer w = .idle) ∧ s.written.map Written.bytes = [[120, 121], [120, 121]] ∧
    s.taken = [120, 121] ∧ s.printed = [120, 121] ∧ MeasureOk s .task := by
  have hsome : (run State.step (State.init smallFifo) twoThreads).any (fun s =>
      ((s.writer true).isIdle && (s.writer false).isIdle) &&
        decide (s.written.map Written.bytes = [[120, 121], [120, 121]] ∧ s.taken = [120, 121] ∧
          s.printed = [120, 121] ∧ MeasureOk s .task)) = true := by
    decide +kernel
  obtain ⟨s,hs,hend⟩ := (Option.any_eq_true _ _).mp hsome
  rw [Bool.and_eq_true, Bool.and_eq_true, decide_eq_true_eq] at hend
  refine ⟨s, hs, ?_, hend.2⟩
  intro w
  have hw : (s.writer w).isIdle = true := by
    cases w with
    | false => exact hend.1.2
    | true => exact hend.1.1
  revert hw
  cases s.writer w <;> simp [WritePc.isIdle]

theorem twoThreads_measure :
    Meets State.step MeasureOk (State.init smallFifo) twoThreads := by decide +kernel

theorem taken_in_order_twoThreads : ∃ s rest,
    run State.step (State.init smallFifo) twoThreads = some s ∧ s.fault = false ∧
      [120, 121, 120, 121] = s.taken ++ rest ∧ rest.length = 2 := by
  obtain ⟨s,hs,-,hwritten,htaken,-⟩ := twoThreads_run
  obtain ⟨hfault,⟨rest,hrest,-⟩,-⟩ := taken_in_order zeroed true true 5 smallFifo smallFifo_create
    twoThreads s twoThreads_measure hs
  rw [List.flatMap_def, hwritten] at hrest
  refine ⟨s, rest, hs, hfault, hrest, ?_⟩
  have hlen := congrArg List.length hrest
  rw [htaken] at hlen
  simpa using hlen.symm

/-- How many steps the task can take before it waits for another post. -/
def TaskPc.left : TaskPc → ℕ
  | .measure => 6
  | .remeasure => 5
  | .first _ => 4
  | .second _ => 3
  | .advance _ => 2
  | .print _ => 1
  | .wait => 0

def State.taskLeft (s : State W) : ℕ := 7*s.sem+s.task.left

omit [DecidableEq W] in
/-- The task waits for a post or comes closer to it; nobody else moves, so its two
measurements agree. -/
theorem task_moves (s : State W) (q : List UInt8) (h : Inv s q) (hok : MeasureOk s .task) :
    s.task = .wait ∧ s.sem = 0 ∨ ∃ t, s.taskNext = some t ∧ t.taskLeft < s.taskLeft ∧
      t.writer = s.writer ∧ t.written = s.written ∧ MeasureOk t .task := by
  have hfault (t : State W) (hstep : s.taskNext = some t) : t.fault = false := by
    obtain ⟨k,hk⟩ := h.taskNext hok hstep
    exact hk.fault
  unfold State.taskNext at hfault ⊢
  cases hpc : s.task with
  | wait =>
    by_cases hsem : 0 < s.sem
    · refine Or.inr ⟨_, if_pos hsem, ?_, rfl, rfl, fun hreads => by contradiction⟩
      show 7*(s.sem-1)+6 < 7*s.sem+s.task.left
      omega
    · exact Or.inl ⟨rfl, by omega⟩
  | measure =>
    by_cases hlong : UInt32.ofNat salofBuffSize < s.fifo.inPos-s.fifo.outPos
    · simp only [if_pos hlong]
      refine Or.inr ⟨_, rfl, ?_, rfl, rfl, fun hreads => by contradiction⟩
      rw [State.taskLeft, State.taskLeft, hpc]
      show 7*s.sem+4 < 7*s.sem+6
      omega
    · simp only [if_neg hlong]
      refine Or.inr ⟨_, rfl, ?_, rfl, rfl, fun _ => ?_⟩
      · rw [State.taskLeft, State.taskLeft, hpc]
        exact Nat.lt_succ_self _
      · rw [UInt32.lt_iff_toNat_lt, not_lt] at hlong
        exact hlong
  | remeasure =>
    refine Or.inr ⟨_, rfl, ?_, rfl, rfl, fun hreads => by contradiction⟩
    rw [State.taskLeft, State.taskLeft, hpc]
    exact Nat.lt_succ_self _
  | first n =>
    simp only [hpc] at hfault ⊢
    split
    · rename_i hnone
      exact absurd (hfault _ (by rw [hnone])) (by simp)
    · refine Or.inr ⟨_, rfl, ?_, rfl, rfl, fun hreads => by contradiction⟩
      rw [State.taskLeft, State.taskLeft, hpc]
      exact Nat.lt_succ_self _
  | second n =>
    simp only [hpc] at hfault ⊢
    split
    · rename_i hnone
      exact absurd (hfault _ (by rw [hnone])) (by simp)
    · refine Or.inr ⟨_, rfl, ?_, rfl, rfl, fun hreads => by contradiction⟩
      rw [State.taskLeft, State.taskLeft, hpc]
      exact Nat.lt_succ_self _
  | advance n =>
    refine Or.inr ⟨_, rfl, ?_, rfl, rfl, ?_⟩
    · rw [State.taskLeft, State.taskLeft, hpc]
      show 7*s.sem+(if 0 < n.toNat then TaskPc.print n else TaskPc.wait).left < 7*s.sem+2
      split_ifs <;> simp only [TaskPc.left] <;> omega
    · intro hreads
      dsimp only at hreads
      split_ifs at hreads <;> contradiction
  | print n =>
    refine Or.inr ⟨_, rfl, ?_, rfl, rfl, fun hreads => by contradiction⟩
    rw [State.taskLeft, State.taskLeft, hpc]
    exact Nat.lt_succ_self _

omit [DecidableEq W] in
/-- With nobody logging, a waiting task has taken everything. -/
theorem Inv.taken_of_wait {s : State W} {q : List UInt8} (h : Inv s q)
    (hidle : ∀ w, s.writer w = .idle) (hwait : s.task = .wait) (hsem : s.sem = 0) :
    s.taken = s.accepted := by
  have hposting : posting s.writer = 0 := by
    unfold posting
    apply Finset.sum_eq_zero
    intro w _
    rw [hidle w]
    rfl
  have hwoken := h.woken
  rw [hwait, hsem, hposting] at hwoken
  have hq : q = [] := List.eq_nil_of_length_eq_zero (Nat.le_zero.mp hwoken)
  rw [h.ledger, hq, List.append_nil]

/-- Once every log call has returned, the task alone takes every accepted byte and
then waits: nothing is left behind in the queue. Up to then no second measurement
was too long, nor is the one the task may be about to make. -/
theorem task_drains (malloc : ∀ n : ℕ, Option (List.Vector UInt8 n)) (mutexOk semOk : Bool)
    (size : UInt32) (f : Fifo) (hf : salofFifoCreate malloc mutexOk semOk size = some f)
    (events : List (Event W)) (s : State W)
    (hok : Meets State.step MeasureOk (State.init f) events)
    (hrun : run State.step (State.init f) events = some s) (hidle : ∀ w, s.writer w = .idle)
    (hnext : MeasureOk s .task) :
    ∃ t, Repeats State.step .task s t ∧ t.task = .wait ∧ t.sem = 0 ∧
      t.taken = s.written.flatMap Written.bytes := by
  obtain ⟨q,hinv⟩ := run_inv f (Stores.of_create hf) events s hok hrun
  clear hok hrun
  -- by the number of steps left before the next wait
  induction hleft : s.taskLeft using Nat.strong_induction_on generalizing s q with
  | _ left ih =>
    rcases task_moves s q hinv hnext with ⟨hwait,hsem⟩ | ⟨t,hstep,hlt,hwriter,hwritten,hnext'⟩
    · exact ⟨s, Repeats.refl _ _ _, hwait, hsem, hinv.taken_of_wait hidle hwait hsem⟩
    · obtain ⟨k,hk⟩ := hinv.taskNext hnext hstep
      obtain ⟨u,hrepeats,hrest⟩ := ih t.taskLeft (hleft ▸ hlt) t
        (fun w => by rw [hwriter]; exact hidle w) hnext' _ hk rfl
      rw [hwritten] at hrest
      exact ⟨u, Repeats.head _ hstep hrepeats, hrest⟩

theorem task_drains_twoThreads : ∃ s t,
    run State.step (State.init smallFifo) twoThreads = some s ∧ s.taken = [120, 121] ∧
      Repeats State.step .task s t ∧ t.task = .wait ∧ t.taken = [120, 121, 120, 121] := by
  obtain ⟨s,hs,hidle,hwritten,htaken,-,hnext⟩ := twoThreads_run
  obtain ⟨t,hrepeats,hwait,-,hall⟩ := task_drains zeroed true true 5 smallFifo smallFifo_create
    twoThreads s twoThreads_measure hs hidle hnext
  rw [List.flatMap_def, hwritten] at hall
  exact ⟨s, t, hs, htaken, hrepeats, hwait, hall⟩

/-- The byte of the format buffer the next copy reads. -/
def WritePc.next : WritePc → Option ℕ
  | .copy n k => if k < n.toNat then some k else none
  | _ => none

/-- No `NUL` is copied out of the format buffer. -/
def CopyClean (s : State W) : Event W → Prop
  | .writer w => ∀ k ∈ (s.writer w).next, s.formatBuff[k]? ≠ some 0
  | .call _ | .put .. | .formatted _ | .task => True

instance decidableCopyClean (s : State W) : ∀ e, Decidable (CopyClean s e)
  | .writer w => inferInstanceAs (Decidable (∀ k ∈ (s.writer w).next, s.formatBuff[k]? ≠ some 0))
  | .call _ | .put .. | .formatted _ | .task => isTrue trivial

/-- No byte on its way to the task is a `NUL`. -/
structure Clean (s : State W) : Prop where
  pending : 0 ∉ s.pending
  accepted : 0 ∉ s.accepted

omit [DecidableEq W] [Fintype W] in
/-- Steps that copy nothing. -/
theorem Clean.of_same {s t : State W} (h : Clean s) (hpending : t.pending = s.pending)
    (hwritten : t.written = s.written) : Clean t := by
  refine ⟨by rw [hpending]; exact h.pending, ?_⟩
  rw [State.accepted, hwritten]
  exact h.accepted

omit [Fintype W] in
theorem Clean.copy {s t : State W} (h : Clean s) (w : W) (n : UInt32) (k : ℕ)
    (hpc : s.writer w = .copy n k) (hclean : CopyClean s (.writer w))
    (hstep : s.writeNext w = some t) : Clean t := by
  simp only [State.writeNext, hpc] at hstep
  split at hstep
  · rename_i hlt
    split at hstep
    · cases hstep
      exact h.of_same rfl rfl
    · cases hstep
      refine ⟨?_, h.accepted⟩
      show 0 ∉ s.pending ++ (s.formatBuff.drop k).take 1
      rw [List.mem_append]
      rintro (hold | hnew)
      · exact h.pending hold
      · -- the byte just copied
        rw [List.take_one, List.head?_drop, Option.mem_toList] at hnew
        exact hclean k (by rw [hpc, WritePc.next, if_pos hlt]; rfl) hnew
  · cases hstep
    refine ⟨List.not_mem_nil, ?_⟩
    show 0 ∉ (s.written ++ [Written.mk w s.pending]).flatMap Written.bytes
    rw [List.flatMap_append, List.flatMap_singleton, List.mem_append]
    rintro (hold | hnew)
    · exact h.accepted hold
    · exact h.pending hnew

omit [Fintype W] in
theorem Clean.step (s : State W) (e : Event W) (t : State W) (h : Clean s) (he : CopyClean s e)
    (hstep : s.step e = some t) : Clean t := by
  cases e with
  | call w =>
    simp only [State.step, State.call] at hstep
    split at hstep <;> cases hstep
    exact h.of_same rfl rfl
  | put w b =>
    simp only [State.step, State.put] at hstep
    split at hstep <;> (try split at hstep) <;> cases hstep
    exact h.of_same rfl rfl
  | formatted w =>
    simp only [State.step, State.formatted] at hstep
    split at hstep <;> cases hstep
    exact h.of_same rfl rfl
  | writer w =>
    replace hstep : s.writeNext w = some t := hstep
    cases hpc : s.writer w with
    | copy n k => exact h.copy w n k hpc he hstep
    | lock len =>
      simp only [State.writeNext, hpc] at hstep
      split_ifs at hstep
      cases hstep
      exact h.of_same rfl rfl
    | idle | format =>
      simp only [State.writeNext, hpc] at hstep
      contradiction
    | _ =>
      simp only [State.writeNext, hpc, Option.some.injEq] at hstep
      subst hstep
      exact h.of_same rfl rfl
  | task =>
    replace hstep : s.taskNext = some t := hstep
    have hsame : t.pending = s.pending ∧ t.written = s.written := by
      unfold State.taskNext at hstep
      split at hstep <;> (try split at hstep) <;> cases hstep <;>
        exact ⟨rfl, rfl⟩
    exact h.of_same hsame.1 hsame.2

/-- The length of the chunk the task is about to print. -/
def TaskPc.chunk : TaskPc → ℕ
  | .print n => n.toNat
  | .wait | .measure | .remeasure | .first _ | .second _ | .advance _ => 0

/-- A step prints only a chunk that leaves room for a `NUL` in `_out_buff`. -/
def PrintOk (s : State W) : Event W → Prop
  | .task => s.task.chunk < salofBuffSize
  | .call _ | .put .. | .formatted _ | .writer _ => True

instance decidablePrintOk (s : State W) : ∀ e, Decidable (PrintOk s e)
  | .task => inferInstanceAs (Decidable (s.task.chunk < salofBuffSize))
  | .call _ | .put .. | .formatted _ | .writer _ => isTrue trivial

/-- Nothing was read past the end of `_out_buff`, and the output is what was taken
up to the chunk that is about to be printed. -/
structure Exact (s : State W) : Prop where
  within : s.overread = false
  output : s.taken = s.printed ++ s.outBuff.take s.task.chunk

omit [DecidableEq W] [Fintype W] in
/-- `fputs` on a chunk without `NUL` followed by what is left of a cleared buffer. -/
theorem chunk_printed (chunk : List UInt8) (hclean : 0 ∉ chunk) (hle : chunk.length ≤ salofBuffSize) :
    ((chunk ++ clearBuff.drop chunk.length).contains 0 = true ↔ chunk.length < salofBuffSize) ∧
      (chunk ++ clearBuff.drop chunk.length).takeWhile (· ≠ 0) = chunk := by
  have hall : ∀ b ∈ chunk, decide (b ≠ 0) = true := by
    intro b hb
    rw [decide_eq_true_eq]
    rintro rfl
    exact hclean hb
  rw [clearBuff, List.drop_replicate]
  constructor
  · rw [List.contains_iff_mem, List.mem_append, List.mem_replicate]
    constructor
    · rintro (hmem | ⟨hne,-⟩)
      · exact absurd hmem hclean
      · omega
    · intro hlt
      exact Or.inr ⟨by omega, rfl⟩
  · rw [List.takeWhile_append_of_pos hall]
    cases salofBuffSize-chunk.length with
    | zero => simp
    | succ k => rw [List.replicate_succ, List.takeWhile_cons_of_neg (by simp), List.append_nil]

omit [Fintype W] in
/-- The steps of the log calls leave the task and its output alone. -/
theorem Exact.of_call {s t : State W} (h : Exact s) (e : Event W) (he : e ≠ .task)
    (hstep : s.step e = some t) : Exact t := by
  have hsame : t.task = s.task ∧ t.outBuff = s.outBuff ∧ t.taken = s.taken ∧
      t.printed = s.printed ∧ t.overread = s.overread := by
    cases e with
    | task => exact absurd rfl he
    | call w =>
      simp only [State.step, State.call] at hstep
      split at hstep <;> cases hstep
      exact ⟨rfl, rfl, rfl, rfl, rfl⟩
    | put w b =>
      simp only [State.step, State.put] at hstep
      split at hstep <;> (try split at hstep) <;> cases hstep
      exact ⟨rfl, rfl, rfl, rfl, rfl⟩
    | formatted w =>
      simp only [State.step, State.formatted] at hstep
      split at hstep <;> cases hstep
      exact ⟨rfl, rfl, rfl, rfl, rfl⟩
    | writer w =>
      simp only [State.step, State.writeNext] at hstep
      split at hstep <;> (try split at hstep) <;> (try split at hstep) <;> cases hstep <;>
        exact ⟨rfl, rfl, rfl, rfl, rfl⟩
  obtain ⟨htask,hbuff,htaken,hprinted,hover⟩ := hsame
  refine ⟨hover.trans h.within, ?_⟩
  rw [htaken, hprinted, htask, hbuff]
  exact h.output

omit [DecidableEq W] in
/-- The chunk that `fputs` prints. -/
theorem Exact.print_iff {s t : State W} {q : List UInt8} (hinv : Inv s q) (hclean : Clean s)
    (hexact : Exact s) (n : UInt32) (hpc : s.task = .print n) (hstep : s.taskNext = some t) :
    n.toNat < salofBuffSize ↔ Exact t := by
  have houtput := hexact.output
  have hready := hinv.ready
  rw [hpc] at hready houtput
  simp only [State.taskNext, hpc, Option.some.injEq] at hstep
  subst hstep
  obtain ⟨before,chunk,htaken,hlen,hle,hbuff⟩ := hready
  have hmem : 0 ∉ chunk := by
    intro hzero
    apply hclean.accepted
    rw [hinv.ledger, htaken]
    simp [hzero]
  obtain ⟨hcontains,hwhile⟩ := chunk_printed chunk hmem (hlen ▸ hle)
  rw [hlen] at hcontains hwhile
  rw [← hbuff] at hcontains hwhile
  have htake : s.outBuff.take n.toNat = chunk := by
    rw [hbuff, List.take_left' hlen]
  constructor
  · intro hlt
    refine ⟨?_, ?_⟩
    · show (s.overread || !s.outBuff.contains 0) = false
      rw [hexact.within, hcontains.mpr hlt]
      rfl
    · show s.taken = s.printed ++ s.outBuff.takeWhile (· ≠ 0) ++ List.take 0 _
      rw [hwhile, List.take_zero, List.append_nil, houtput, TaskPc.chunk, htake]
  · intro hgood
    have hwithin := hgood.within
    change (s.overread || !s.outBuff.contains 0) = false at hwithin
    rw [Bool.or_eq_false_iff, Bool.not_eq_false'] at hwithin
    exact hcontains.mp hwithin.2

/-- One step: the output stays exact when the step meets `PrintOk`, and only then. -/
theorem exact_step_iff (s : State W) (e : Event W) (t : State W) (q : List UInt8) (hinv : Inv s q)
    (hclean : Clean s) (hexact : Exact s) (hstep : s.step e = some t) :
    PrintOk s e ↔ Exact t := by
  cases e with
  | call | put | formatted | writer =>
    exact ⟨fun _ => hexact.of_call _ (by simp) hstep, fun _ => trivial⟩
  | task =>
    replace hstep : s.taskNext = some t := hstep
    have houtput := hexact.output
    -- only a print can go wrong
    have hquiet (hchunk : s.task.chunk = 0) (ht : Exact t) : PrintOk s .task ↔ Exact t := by
      refine ⟨fun _ => ht, fun _ => ?_⟩
      show s.task.chunk < salofBuffSize
      rw [hchunk]
      decide
    cases hpc : s.task with
    | print n =>
      have hiff := hexact.print_iff hinv hclean n hpc hstep
      show s.task.chunk < salofBuffSize ↔ _
      rw [hpc]
      exact hiff
    | advance n =>
      apply hquiet (by rw [hpc, TaskPc.chunk])
      rw [hpc] at houtput
      simp only [State.taskNext, hpc, Option.some.injEq] at hstep
      subst hstep
      refine ⟨hexact.within, ?_⟩
      rw [TaskPc.chunk, List.take_zero, List.append_nil] at houtput
      show s.taken ++ s.outBuff.take n.toNat =
        s.printed ++ s.outBuff.take (if 0 < n.toNat then TaskPc.print n else TaskPc.wait).chunk
      rw [houtput]
      split_ifs with hpos
      · rfl
      · rw [show n.toNat = 0 by omega]
        rfl
    | wait =>
      apply hquiet (by rw [hpc, TaskPc.chunk])
      rw [hpc] at houtput
      simp only [State.taskNext, hpc] at hstep
      split_ifs at hstep
      cases hstep
      exact ⟨hexact.within, houtput⟩
    | measure =>
      apply hquiet (by rw [hpc, TaskPc.chunk])
      rw [hpc] at houtput
      simp only [State.taskNext, hpc, Option.some.injEq] at hstep
      subst hstep
      refine ⟨hexact.within, ?_⟩
      dsimp only
      split_ifs <;> exact houtput
    | remeasure =>
      apply hquiet (by rw [hpc, TaskPc.chunk])
      rw [hpc] at houtput
      simp only [State.taskNext, hpc, Option.some.injEq] at hstep
      subst hstep
      exact ⟨hexact.within, houtput⟩
    | first n | second n =>
      apply hquiet (by rw [hpc, TaskPc.chunk])
      rw [hpc] at houtput
      simp only [State.taskNext, hpc] at hstep
      split at hstep <;> cases hstep <;> exact ⟨hexact.within, houtput⟩

/-- In a run whose second measurements fit and whose copies meet no `NUL`, the output
is exact in every state just when every chunk the task prints is shorter than its
buffer: a full one has no terminator, and `fputs` reads on behind it. -/
theorem output_exact_iff (malloc : ∀ n : ℕ, Option (List.Vector UInt8 n)) (mutexOk semOk : Bool)
    (size : UInt32) (f : Fifo) (hf : salofFifoCreate malloc mutexOk semOk size = some f)
    (events : List (Event W)) (s : State W)
    (hok : Meets State.step (fun s e => MeasureOk s e ∧ CopyClean s e) (State.init f) events)
    (hrun : run State.step (State.init f) events = some s) :
    Meets State.step PrintOk (State.init f) events ↔
      ∀ pre t, pre <+: events → run State.step (State.init f) pre = some t → Exact t := by
  have hstart : ∃ q, Inv (State.init f : State W) q ∧ Clean (State.init f : State W) ∧
      Exact (State.init f : State W) :=
    ⟨[], init_inv f (Stores.of_create hf), ⟨List.not_mem_nil, List.not_mem_nil⟩, rfl, rfl⟩
  apply meets_iff_good_states_of_meets State.step (fun s e => MeasureOk s e ∧ CopyClean s e) PrintOk
    (fun s => ∃ q, Inv s q ∧ Clean s ∧ Exact s) Exact (fun s h => h.choose_spec.2.2) ?_
    (State.init f) s events hok hstart hrun
  rintro s e t ⟨q,hinv,hclean,hexact⟩ ⟨hmeasure,hcopy⟩ hstep
  have hiff := exact_step_iff s e t q hinv hclean hexact hstep
  obtain ⟨q',hinv'⟩ := step_inv s e t ⟨q,hinv⟩ hmeasure hstep
  exact ⟨hiff, fun hprint => ⟨q', hinv', hclean.step s e t hcopy hstep, hiff.mp hprint⟩⟩

-- "xy" is printed, the second "xy" is in the queue
theorem output_exact_iff_twoThreads : ∃ s,
    run State.step (State.init smallFifo) twoThreads = some s ∧ s.overread = false ∧
      s.printed = [120, 121] ∧ s.taken = [120, 121] ++ s.outBuff.take s.task.chunk := by
  obtain ⟨s,hs,-,-,-,hprinted,-⟩ := twoThreads_run
  have hexact := (output_exact_iff zeroed true true 5 smallFifo smallFifo_create twoThreads s
    (by decide +kernel) hs).mp (by decide +kernel) twoThreads s List.prefix_rfl hs
  exact ⟨s, hs, hexact.within, hprinted, hprinted ▸ hexact.output⟩

end CppOperate.Log

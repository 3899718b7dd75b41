import CppOperate.DoubleCheckedInit
import CppOperate.StitchFrames

/-! The configuration block of `add_frames` run by several threads at once. Its
flag is written before the values it announces; in the earlier version, after. -/
namespace CppOperate.Stitch
open StepRuns DoubleCheckedInit

inductive ConfigVar
  | newTargetFrame
  | srcRect
deriving DecidableEq, Repr

/-- The cell and the frame of a call. -/
structure ConfigRequest where
  targetRect : PixelGrid.Rect
  frame : Frame
deriving DecidableEq, Repr

/-- The writes under `config_mutex_`, in the order of the source. -/
def configWrites : List (Write ConfigVar) := [.flag, .var .newTargetFrame, .var .srcRect]

-- `dst_rect` is built from `new_target_frame`, then `imcheck` and `improcess` take `src_rect`
def configReads : List ConfigVar := [.newTargetFrame, .srcRect, .srcRect]

/-- Threads named by `ι` in `add_frames`, after a reset has returned. -/
abbrev ConfigState (ι : Type*) := State ι ConfigRequest ConfigVar

section threads
variable {ι : Type*} [DecidableEq ι]

def configStep (s : ConfigState ι) (e : Event ι ConfigRequest) : Option (ConfigState ι) :=
  DoubleCheckedInit.step configWrites configReads s e

omit [DecidableEq ι] in
/-- What the readers of a complete state find is one configuration. -/
theorem config_of_complete (castNonFinite : ℤ) (type : DisplayType) (s : ConfigState ι)
    (h : Complete s) : ∃ config : NewFrameConfig × PixelGrid.Rect,
      (s.vars .newTargetFrame).map (fun r =>
        (resizeConfig castNonFinite type r.targetRect r.frame).1) = some config.1 ∧
      (s.vars .srcRect).map (fun r =>
        (resizeConfig castNonFinite type r.targetRect r.frame).2) = some config.2 := by
  obtain ⟨r,hr⟩ := h
  refine ⟨resizeConfig castNonFinite type r.targetRect r.frame, ?_, ?_⟩
  · rw [hr, Option.map_some]
  · rw [hr, Option.map_some]

/-- Alone, the block leaves what `configure` computes. -/
theorem lone_call_configures (castNonFinite : ℤ) (stitch : VideoStitch)
    (hclear : stitch.isSetResize = false) (i : ι) (r : ConfigRequest) :
    ∃ s : ConfigState ι,
      run configStep State.init (.call i r :: List.replicate 8 (.next i)) = some s ∧
      s.pc i = .read configReads ∧
      s.flag = (configure castNonFinite stitch r.targetRect r.frame).isSetResize ∧
      (s.vars .newTargetFrame).map (fun r =>
        (resizeConfig castNonFinite stitch.displaytype r.targetRect r.frame).1) =
          some (configure castNonFinite stitch r.targetRect r.frame).newTargetFrame ∧
      (s.vars .srcRect).map (fun r =>
        (resizeConfig castNonFinite stitch.displaytype r.targetRect r.frame).2) =
          some (configure castNonFinite stitch r.targetRect r.frame).srcRect := by
  have hrun : run configStep (State.init : ConfigState ι)
      (.call i r :: List.replicate 8 (.next i)) = some
        ⟨Function.update (fun _ => .idle) i (.read configReads), none, true, fun _ => some r⟩ := by
    have hboth : Function.update (Function.update (fun _ => none) ConfigVar.newTargetFrame (some r))
        ConfigVar.srcRect (some r) = fun _ => some r := by
      ext k
      cases k <;> rfl
    simp [run, configStep, DoubleCheckedInit.step, advance, State.goto, State.init, State.perform,
      configWrites, hboth]
  refine ⟨_, hrun, by simp, ?_, ?_, ?_⟩
  · rw [configure, if_neg (by simp [hclear])]
  · rw [configure, if_neg (by simp [hclear]), Option.map_some]
  · rw [configure, if_neg (by simp [hclear]), Option.map_some]

/-- No read of a run comes before the configuration is complete, as long as no
unlocked test reads the flag between its write and the last of the values; the
first test that does is followed at once by such a read. -/
theorem config_reads_complete (events : List (Event ι ConfigRequest)) (s : ConfigState ι)
    (hrun : run configStep State.init events = some s)
    (hok : Meets configStep TestsSettled State.init events) :
    Meets configStep ReadsComplete State.init events ∧ (∀ e, ReadsComplete s e) ∧
      ∀ e, ¬ TestsSettled s e → ∃ t, configStep s e = some t ∧ ¬ ReadsComplete t e := by
  have hvars : ∀ k, Write.var k ∈ configWrites := by
    intro k
    cases k <;> simp [configWrites]
  have hinv : Inv configWrites s :=
    inv_run configReads hvars (by simp [configWrites]) events hok hrun
  refine ⟨?_, hinv.readsComplete, ?_⟩
  · exact readsComplete_of_testsSettled configReads hvars (by simp [configWrites]) events hok
  · intro e h
    exact hinv.early_read [.srcRect, .srcRect] (by decide) e .newTargetFrame h

end threads

def firstRequest : ConfigRequest := ⟨⟨0, 0, 960, 540⟩, ⟨1280, 720, by decide, by decide⟩⟩

/-- The first thread writes the configuration and unlocks; then the second tests the flag and
reads, while the first reads as well. -/
def twoThreads : List (Event (Fin 2) ConfigRequest) :=
  .call 0 firstRequest :: List.replicate 8 (.next 0) ++
    [.call 1 firstRequest, .next 1, .next 1, .next 0, .next 1, .next 1, .next 0, .next 0]

theorem config_reads_complete_two : ∃ s : ConfigState (Fin 2),
    run configStep State.init twoThreads = some s ∧ s.flag = true ∧
    s.pc 0 = .read [] ∧ s.pc 1 = .read [] ∧ Meets configStep ReadsComplete State.init twoThreads := by
  have hok : Meets configStep TestsSettled (State.init : ConfigState (Fin 2)) twoThreads := by decide
  exact ⟨_, rfl, rfl, rfl, rfl, (config_reads_complete twoThreads _ rfl hok).1⟩

/-- A second thread tests the flag right after the first has set it, and reads
`new_target_frame` while nothing is computed. -/
theorem config_read_early : ∃ s : ConfigState (Fin 2),
    run configStep State.init [.call 0 firstRequest, .next 0, .next 0, .next 0, .next 0,
      .call 1 firstRequest, .next 1] = some s ∧
    s.pc 1 = .read configReads ∧ s.vars .newTargetFrame = none ∧ s.vars .srcRect = none ∧
    ¬ Meets configStep ReadsComplete (State.init : ConfigState (Fin 2))
      ([.call 0 firstRequest, .next 0, .next 0, .next 0, .next 0, .call 1 firstRequest, .next 1] ++
        [.next 1]) := by
  refine ⟨_, rfl, rfl, rfl, rfl, ?_⟩
  intro hmeets
  obtain ⟨r,hr⟩ := ((meets_snoc_iff _ _ _ _ _).mp hmeets).2 _ rfl .newTargetFrame
    [.srcRect, .srcRect] rfl
  exact absurd (hr .newTargetFrame) (by simp [State.goto, State.perform, State.init])

section earlier
variable {ι : Type*} [DecidableEq ι]

inductive EarlierVar
  | newFrame
deriving DecidableEq, Repr

/-- `VideoWall::add_frames`, which has no display types and sets its flag last. -/
def earlierWrites : List (Write EarlierVar) := [.var .newFrame, .flag]

/-- With the flag written last no read comes early, in any run. -/
theorem earlier_reads_complete (events : List (Event ι ConfigRequest))
    (s : State ι ConfigRequest EarlierVar)
    (hrun : run (DoubleCheckedInit.step earlierWrites [.newFrame]) State.init events = some s)
    (e : Event ι ConfigRequest) : ReadsComplete s e := by
  apply readsComplete_of_flag_last [.newFrame] ?_ (by simp [earlierWrites]) ?_ events hrun e
  · intro k
    cases k
    simp [earlierWrites]
  · intro done rest hsplit hset k
    -- the flag is the second of two writes, so nothing is left after it
    rcases done with _ | ⟨a, _ | ⟨b, done⟩⟩
    · contradiction
    · simp only [earlierWrites, List.cons_append, List.cons.injEq] at hsplit
      rw [List.mem_singleton, ← hsplit.1] at hset
      contradiction
    · simp only [earlierWrites, List.cons_append, List.cons.injEq] at hsplit
      rw [(List.append_eq_nil_iff.mp hsplit.2.2.symm).2]
      exact List.not_mem_nil

end earlier
end CppOperate.Stitch

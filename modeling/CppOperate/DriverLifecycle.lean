import CppOperate.StepRuns
import Mathlib.Data.Nat.Notation
import Mathlib.Order.Nat

/-! A `VideoPipeline` from its constructor to its destructor: `drm_init` and
`drm_exit` of drm-core.c, the show thread, and the two callers of `stop`. -/
namespace CppOperate.Lifecycle
open StepRuns

/-- What `mmap` returns, and what `buf.vaddr` is. -/
inductive Pointer
  | null
  | mapFailed
  | mapped
deriving DecidableEq, Repr

/-- The globals of drm-core.c and what they stand for in the kernel. -/
structure Device where
  fdOpen : Bool := false
  handle : Bool := false
  fb : Bool := false
  vaddr : Pointer := .null
  isMapped : Bool := false
deriving DecidableEq, Repr

/-- Which calls of `drm_init` succeed, and what its `mmap` returns. -/
structure Calls where
  openCard : Bool
  createDumb : Bool
  addFB : Bool
  mapDumb : Bool
  mmap : Pointer
  setCrtc : Bool
  setPlane : Bool
deriving DecidableEq, Repr

namespace Device

-- `vaddr` keeps its value
def destroyFb (d : Device) : Device := { d with fb := false, handle := false, isMapped := false }

/-- `close(fd)` and the frees before it; the kernel drops what was made through `fd`. -/
def closeCard (d : Device) : Device := { d with fdOpen := false, fb := false, handle := false }

/-- `drm_create_fb`; false stands for a negative result. -/
def createFb (d : Device) (calls : Calls) : Bool × Device :=
  if calls.createDumb = false then (false, d)
  else if calls.addFB = false then (false, { d with handle := true })
  else if calls.mapDumb = false then (false, { d with handle := true, fb := true })
  else
    let e := { d with handle := true, fb := true, vaddr := calls.mmap,
                      isMapped := calls.mmap = .mapped }
    -- `ret` is still the 0 of the ioctl; `MAP_FAILED` is not looked for
    if calls.mmap = .null then (true, e.destroyFb) else (true, e)

/-- `drm_init`. The writes to the buffer are not steps: a process that dies by one
is a run cut short. -/
def drmInit (d : Device) (calls : Calls) : Bool × Device :=
  if calls.openCard = false then (false, d)
  else
    match { d with fdOpen := true }.createFb calls with
    | (false, d) => (false, d.closeCard)
    | (true, d) =>
      if calls.setCrtc = false then (false, d.destroyFb.closeCard)
      else if calls.setPlane = false then (false, d.destroyFb.closeCard)
      else (true, d)

def drmExit (d : Device) : Device := d.destroyFb.closeCard

end Device

/-- The statements of `stop`. -/
inductive StopPc
  | store
  | join
  | exit
deriving DecidableEq, Repr

/-- The owner of the pipeline. -/
inductive MainPc
  | new
  -- before the thread is made, and before it is assigned to `show_thread`
  | creating
  | assigning
  | live
  | stop (at_ : StopPc)
  | destroyed
  -- the constructor threw
  | thrown
deriving DecidableEq, Repr

inductive ShowPc
  | unborn
  | loop
  | check
  -- the plane could not be committed
  | stop (at_ : StopPc)
  | copy
  | ended
deriving DecidableEq, Repr

structure State where
  device : Device := {}
  running : Bool := false
  joinable : Bool := false
  loaded : Bool := false
  main : MainPc := .new
  thread : ShowPc := .unborn
  -- history: what `drm_init` returned and left, the calls of `drm_exit`, a join of
  -- the thread with itself, and a write through `vaddr` after `drm_exit`
  initRet : Option (Bool × Device) := none
  exits : ℕ := 0
  selfJoined : Bool := false
  touchedAfterExit : Bool := false
deriving DecidableEq, Repr

inductive Event
  | construct (calls : Calls)
  | createThread (ok : Bool)
  | assign
  | loadFrame
  | destroy
  | stopMain
  | loop
  -- whether the check commits the plane, and with what success
  | check (commit : Option Bool)
  | stopThread
  -- whether `read` returned a frame
  | copy (frame : Bool)
deriving DecidableEq, Repr

namespace State

def initOk (s : State) : Bool := s.initRet.any Prod.fst

def exit (s : State) : State := { s with device := s.device.drmExit, exits := s.exits+1 }

/-- `stop` in the destructor: the join waits for the end of the thread. -/
def stopMain (s : State) : StopPc → Option State
  | .store => some { s with running := false, main := .stop .join }
  | .join =>
    if s.joinable = false then some { s with main := .stop .exit }
    else if s.thread = .ended then some { s with joinable := false, main := .stop .exit }
    else none
  | .exit => some { s.exit with main := .destroyed }

/-- `stop` in the show thread: there is no return from a join with itself. -/
def stopThread (s : State) : StopPc → Option State
  | .store => some { s with running := false, thread := .stop .join }
  | .join =>
    if s.joinable then some { s with selfJoined := true }
    else some { s with thread := .stop .exit }
  | .exit => some { s.exit with thread := .copy }

end State

def step (s : State) (e : Event) : Option State :=
  -- `std::system_error` leaves the thread: the process is gone
  if s.selfJoined then none else
  match e, s.main, s.thread with
  | .construct calls, .new, _ =>
    let r := s.device.drmInit calls
    some { s with device := r.2, initRet := some r, running := r.1,
                  main := if r.1 then .creating else .live }
  | .createThread ok, .creating, _ =>
    some (if ok then { s with thread := .loop, main := .assigning }
      else { s with main := .thrown })
  | .assign, .assigning, _ => some { s with joinable := true, main := .live }
  | .loadFrame, .live, _ => some { s with running := true, loaded := true }
  | .destroy, .live, _ => some { s with main := .stop .store }
  | .stopMain, .stop at_, _ => s.stopMain at_
  | .loop, _, .loop => some { s with thread := if s.running then .check else .ended }
  -- the version of the metadata changes with the first frame only
  | .check commit, _, .check =>
    if commit ≠ none ∧ s.loaded = false then none
    else some { s with thread := if commit = some false then .stop .store else .copy }
  | .stopThread, _, .stop at_ => s.stopThread at_
  | .copy frame, _, .copy =>
    if frame = true ∧ s.loaded = false then none
    else some { s with
      thread := .loop
      touchedAfterExit := s.touchedAfterExit ||
        (frame && s.device.vaddr ≠ .null && 0 < s.exits) }
  | _, _, _ => none

/-- `drm_init` returned 0 only with everything made, `drm_exit` ran once for a
successful `drm_init` and never otherwise, the show thread did not join itself,
and the buffer was left alone afterwards. -/
structure Good (s : State) : Prop where
  init : ∀ r ∈ s.initRet, r.1 = true → r.2.fb = true ∧ r.2.handle = true ∧ r.2.isMapped = true
  failed : s.initOk = false → s.exits = 0
  once : s.exits ≤ 1
  atEnd : s.initOk = true → s.main = .destroyed ∨ s.main = .thrown → s.exits = 1
  join : s.selfJoined = false
  touch : s.touchedAfterExit = false

/-- The calls of `drm_init` that it looks at. -/
def Calls.Checked (calls : Calls) : Prop :=
  calls.openCard = true ∧ calls.createDumb = true ∧ calls.addFB = true ∧ calls.mapDumb = true ∧
    calls.setCrtc = true ∧ calls.setPlane = true

/-- When all else in `drm_init` succeeds, so does its `mmap`; the thread is made;
no plane commit of it fails; a pipeline is destroyed if its `drm_init` succeeded. -/
def LifecycleOk (s : State) : Event → Prop
  | .construct calls => calls.Checked → calls.mmap = .mapped
  | .createThread ok => ok = true
  | .check commit => commit ≠ some false
  | .destroy => s.initOk = true
  | _ => True

/-- `drm_init` returns 0 whatever `mmap` returns. -/
theorem drmInit_ok_iff (d : Device) (calls : Calls) :
    (d.drmInit calls).1 = true ↔ calls.Checked := by
  unfold Device.drmInit Device.createFb Calls.Checked
  cases calls.openCard <;> cases calls.createDumb <;> cases calls.addFB <;>
    cases calls.mapDumb <;> cases calls.setCrtc <;> cases calls.setPlane <;>
    cases calls.mmap <;> simp

/-- What a successful `drm_init` leaves depends on `mmap` alone. -/
theorem drmInit_made (d : Device) (calls : Calls) (h : (d.drmInit calls).1 = true) :
    (d.drmInit calls).2.isMapped = decide (calls.mmap = .mapped) ∧
      (d.drmInit calls).2.fb = decide (calls.mmap ≠ .null) ∧
      (d.drmInit calls).2.handle = decide (calls.mmap ≠ .null) := by
  obtain ⟨hopen,hcreate,hadd,hmap,hcrtc,hplane⟩ := (drmInit_ok_iff d calls).mp h
  simp only [Device.drmInit, Device.createFb, hopen, hcreate, hadd, hmap, hcrtc, hplane]
  cases calls.mmap <;> simp [Device.destroyFb]

/-- What holds in the places of the owner, as long as every step is allowed. -/
def Phase (s : State) : MainPc → Prop
  | .new => s.initRet = none ∧ s.exits = 0 ∧ s.thread = .unborn
  | .creating => s.initOk = true ∧ s.exits = 0 ∧ s.thread = .unborn
  | .assigning => s.initOk = true ∧ s.exits = 0
  | .live => s.exits = 0 ∧ (s.initOk = true → s.joinable = true)
  | .stop .exit => s.initOk = true ∧ s.exits = 0 ∧ s.thread = .ended
  | .stop _ => s.initOk = true ∧ s.exits = 0 ∧ s.joinable = true
  | .destroyed => s.initOk = true ∧ s.exits = 1 ∧ s.thread = .ended
  | .thrown => False

structure Inv (s : State) : Prop where
  init : ∀ r ∈ s.initRet, r.1 = true → r.2.fb = true ∧ r.2.handle = true ∧ r.2.isMapped = true
  phase : Phase s s.main
  -- the thread never calls `stop`
  thread : ∀ at_, s.thread ≠ .stop at_
  join : s.selfJoined = false
  touch : s.touchedAfterExit = false

theorem init_inv : Inv {} := by
  refine ⟨?_, ⟨rfl, rfl, rfl⟩, ?_, rfl, rfl⟩ <;> simp

/-- `drm_exit` runs only once the thread has ended. -/
theorem Inv.exits_eq_zero (s : State) (hinv : Inv s) (h : s.thread ≠ .ended) : s.exits = 0 := by
  have hphase := hinv.phase
  cases hmain : s.main with
  | new => exact (hmain ▸ hphase).2.1
  | creating => exact (hmain ▸ hphase).2.1
  | assigning => exact (hmain ▸ hphase).2
  | live => exact (hmain ▸ hphase).1
  | stop at_ =>
    rw [hmain] at hphase
    cases at_ <;> exact hphase.2.1
  | destroyed =>
    rw [hmain] at hphase
    exact absurd hphase.2.2 h
  | thrown => exact (hmain ▸ hphase).elim

theorem Inv.good (s : State) (hinv : Inv s) : Good s := by
  have hexits : s.exits = 0 ∧ s.main ≠ .destroyed ∧ s.main ≠ .thrown ∨
      s.exits = 1 ∧ s.initOk = true := by
    have hphase := hinv.phase
    cases hmain : s.main with
    | new => exact Or.inl ⟨(hmain ▸ hphase).2.1, by simp⟩
    | creating => exact Or.inl ⟨(hmain ▸ hphase).2.1, by simp⟩
    | assigning => exact Or.inl ⟨(hmain ▸ hphase).2, by simp⟩
    | live => exact Or.inl ⟨(hmain ▸ hphase).1, by simp⟩
    | stop at_ =>
      rw [hmain] at hphase
      cases at_ <;> exact Or.inl ⟨hphase.2.1, by simp⟩
    | destroyed =>
      rw [hmain] at hphase
      exact Or.inr ⟨hphase.2.1, hphase.1⟩
    | thrown => exact (hmain ▸ hphase).elim
  refine ⟨hinv.init, fun hfailed => ?_, ?_, fun _ hend => ?_, hinv.join, hinv.touch⟩
  · rcases hexits with ⟨hzero,-⟩ | ⟨-,hinit⟩
    · exact hzero
    · simp [hfailed] at hinit
  · omega
  · rcases hexits with ⟨-,hdestroyed,hthrown⟩ | ⟨hone,-⟩
    · rcases hend with hend | hend <;> contradiction
    · exact hone

theorem Inv.construct (s : State) (hinv : Inv s) (calls : Calls) (hmain : s.main = .new)
    (hok : calls.Checked → calls.mmap = .mapped) :
    Inv { s with device := (s.device.drmInit calls).2, initRet := some (s.device.drmInit calls),
                 running := (s.device.drmInit calls).1,
                 main := if (s.device.drmInit calls).1 then .creating else .live } := by
  obtain ⟨-,hexits,hthread⟩ : Phase s .new := hmain ▸ hinv.phase
  refine { hinv with init := ?_, phase := ?_ }
  · intro r hr hret
    cases hr
    obtain ⟨hmapped,hfb,hhandle⟩ := drmInit_made s.device calls hret
    have hmmap := hok ((drmInit_ok_iff s.device calls).mp hret)
    simp [hmapped, hfb, hhandle, hmmap]
  · cases hret : (s.device.drmInit calls).1 with
    | true => exact ⟨by simp [State.initOk, hret], hexits, hthread⟩
    | false => exact ⟨hexits, by simp [State.initOk, hret]⟩

theorem Inv.stopMain (s t : State) (hinv : Inv s) (at_ : StopPc) (hmain : s.main = .stop at_)
    (h : s.stopMain at_ = some t) : Inv t := by
  have hphase : Phase s (.stop at_) := hmain ▸ hinv.phase
  cases at_ with
  | store =>
    cases h
    exact { hinv with phase := hphase }
  | join =>
    simp only [State.stopMain] at h
    obtain ⟨hinit,hexits,hjoinable⟩ := hphase
    split_ifs at h with hfree hended
    · rw [hjoinable] at hfree
      contradiction
    · cases h
      exact { hinv with phase := ⟨hinit, hexits, hended⟩ }
  | exit =>
    cases h
    obtain ⟨hinit,hexits,hended⟩ := hphase
    have hone : s.exits+1 = 1 := by omega
    exact { hinv with phase := ⟨hinit, hone, hended⟩ }

/-- While the thread runs, the owner does not rely on where it is. -/
theorem phase_of_running (s : State) (next : ShowPc) (hphase : Phase s s.main)
    (hunborn : s.thread ≠ .unborn) (hended : s.thread ≠ .ended) :
    Phase { s with thread := next } s.main := by
  cases hmain : s.main with
  | new =>
    rw [hmain] at hphase
    exact absurd hphase.2.2 hunborn
  | creating =>
    rw [hmain] at hphase
    exact absurd hphase.2.2 hunborn
  | stop at_ =>
    rw [hmain] at hphase
    cases at_ with
    | exit => exact absurd hphase.2.2 hended
    | _ => exact hphase
  | destroyed =>
    rw [hmain] at hphase
    exact absurd hphase.2.2 hended
  | _ =>
    rw [hmain] at hphase
    exact hphase

theorem Inv.step (s : State) (e : Event) (t : State) (hinv : Inv s) (hok : LifecycleOk s e)
    (h : step s e = some t) : Inv t := by
  unfold Lifecycle.step at h
  rw [if_neg (by simp [hinv.join])] at h
  have hphase := hinv.phase
  split at h
  · -- construct
    rename_i calls hmain
    cases h
    exact hinv.construct s calls hmain hok
  · -- createThread
    rename_i ok hmain
    rw [hmain] at hphase
    obtain rfl : ok = true := hok
    cases h
    exact { hinv with phase := ⟨hphase.1, hphase.2.1⟩, thread := by simp }
  · -- assign
    rename_i hmain
    rw [hmain] at hphase
    cases h
    exact { hinv with phase := ⟨hphase.2, fun _ => rfl⟩ }
  · -- loadFrame
    rename_i hmain
    rw [hmain] at hphase
    cases h
    exact { hinv with phase := by rw [hmain]; exact hphase }
  · -- destroy
    rename_i hmain
    rw [hmain] at hphase
    cases h
    exact { hinv with phase := ⟨hok, hphase.1, hphase.2 hok⟩ }
  · -- stopMain
    rename_i at_ hmain
    exact hinv.stopMain s t at_ hmain h
  · -- loop
    rename_i hthread
    cases h
    refine { hinv with phase := ?_, thread := ?_ }
    · exact phase_of_running s _ hphase (by simp [hthread]) (by simp [hthread])
    · cases s.running <;> simp
  · -- check
    rename_i commit hthread
    have hcopy : commit ≠ some false := hok
    simp only [hcopy, if_false] at h
    split_ifs at h with hunchanged
    cases h
    exact { hinv with
      phase := phase_of_running s _ hphase (by simp [hthread]) (by simp [hthread])
      thread := by simp }
  · -- stopThread
    rename_i at_ hthread
    exact absurd hthread (hinv.thread at_)
  · -- copy
    rename_i frame hthread
    split_ifs at h with hloaded
    cases h
    have hzero := hinv.exits_eq_zero s (by simp [hthread])
    refine { hinv with phase := ?_, thread := by simp, touch := ?_ }
    · exact phase_of_running s _ hphase (by simp [hthread]) (by simp [hthread])
    · simp [hinv.touch, hzero]
  · contradiction

/-- In a run whose steps are all allowed: a `drm_init` that returns 0 has made the
framebuffer, its handle and the mapping, `drm_exit` answers it exactly once, and
never a failed one; the show thread does not join itself, and nothing writes to
the buffer after `drm_exit`. -/
theorem lifecycle_good (events : List Event) (s : State) (hrun : run step {} events = some s)
    (hok : Meets step LifecycleOk {} events) : Good s :=
  (run_invariant_of_meets step LifecycleOk Inv Inv.step {} s events init_inv hok hrun).good

instance decidableLifecycleOk (s : State) : ∀ e, Decidable (LifecycleOk s e)
  | .construct calls =>
    inferInstanceAs (Decidable (_ ∧ _ ∧ _ ∧ _ ∧ _ ∧ _ → calls.mmap = .mapped))
  | .createThread ok => inferInstanceAs (Decidable (ok = true))
  | .check commit => inferInstanceAs (Decidable (commit ≠ some false))
  | .destroy => inferInstanceAs (Decidable (s.initOk = true))
  | .assign | .loadFrame | .stopMain | .loop | .stopThread | .copy _ => isTrue trivial

/-- The loop runs before `show_thread` is assigned, shows a frame, and shows
another one while the destructor waits for it. -/
def shownTwice : List Event :=
  [.construct ⟨true, true, true, true, .mapped, true, true⟩, .createThread true, .loop,
    .check none, .copy false, .assign, .loadFrame, .loop, .check (some true), .copy true, .loop,
    .check none, .destroy, .stopMain, .copy true, .loop, .stopMain, .stopMain]

theorem lifecycle_good_shown : ∃ s, run step {} shownTwice = some s ∧
    s.main = .destroyed ∧ Good s := by
  have hany : (run step {} shownTwice).any (fun s => s.main = .destroyed) := by decide +kernel
  obtain ⟨s,hrun,hs⟩ := (Option.any_eq_true _ _).mp hany
  exact ⟨s, hrun, of_decide_eq_true hs, lifecycle_good shownTwice s hrun (by decide +kernel)⟩

-- the card cannot be opened; the destructor still runs `stop`
theorem failed_init_exits : ∃ s, run step {}
      [.construct ⟨false, true, true, true, .mapped, true, true⟩, .destroy, .stopMain, .stopMain,
        .stopMain] = some s ∧ ¬ Good s := by
  refine ⟨_, rfl, fun hgood => ?_⟩
  have hzero := hgood.failed rfl
  contradiction

/-- A `drm_init` that succeeds but for its `mmap` returns 0 without a mapping, if
it returns: when `mmap` gave MAP_FAILED the process dies in the `memset` of
`drm_create_fb` that follows. -/
theorem unmapped_init_not_good (s : State) (calls : Calls) (hmain : s.main = .new)
    (hjoin : s.selfJoined = false) (hchecked : calls.Checked) (hmmap : calls.mmap ≠ .mapped) :
    ∃ t, step s (.construct calls) = some t ∧ ¬ Good t := by
  have hret := (drmInit_ok_iff s.device calls).mpr hchecked
  refine ⟨_, by simp [step, hjoin, hmain]; rfl, fun hgood => ?_⟩
  have hmapped := (hgood.init _ rfl hret).2.2
  rw [(drmInit_made s.device calls hret).1, decide_eq_true_iff] at hmapped
  exact hmmap hmapped

/-- Without a thread the constructor throws, and nothing undoes `drm_init`. -/
theorem unmade_thread_not_good (s : State) (hmain : s.main = .creating)
    (hjoin : s.selfJoined = false) (hinit : s.initOk = true) (hexits : s.exits = 0) :
    ∃ t, step s (.createThread false) = some t ∧ ¬ Good t := by
  refine ⟨{ s with main := .thrown }, by simp [step, hjoin, hmain], fun hgood => ?_⟩
  have hone := hgood.atEnd hinit (Or.inr rfl)
  simp [hexits] at hone

/-- The destructor of a pipeline whose `drm_init` failed runs `drm_exit`. -/
theorem destroyed_failed_not_good (s : State) (hmain : s.main = .live)
    (hjoin : s.selfJoined = false) (hinit : s.initOk = false) (hfree : s.joinable = false) :
    ∃ t, run step s [.destroy, .stopMain, .stopMain, .stopMain] = some t ∧ ¬ Good t := by
  refine ⟨_, by simp [run, step, State.stopMain, hjoin, hmain, hfree]; rfl, fun hgood => ?_⟩
  have hzero := hgood.failed hinit
  simp [State.exit] at hzero

/-- A plane commit that fails makes the thread join itself. -/
theorem failed_commit_not_good (s : State) (hthread : s.thread = .check)
    (hloaded : s.loaded = true) (hjoin : s.selfJoined = false) (hjoinable : s.joinable = true) :
    ∃ t, run step s [.check (some false), .stopThread, .stopThread] = some t ∧ ¬ Good t := by
  refine ⟨_, by simp [run, step, State.stopThread, hjoin, hthread, hloaded, hjoinable]; rfl,
    fun hgood => ?_⟩
  have hself := hgood.join
  simp at hself

end CppOperate.Lifecycle

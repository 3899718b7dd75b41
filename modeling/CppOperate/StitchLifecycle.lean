import CppOperate.StitchFrames

/-! Which resources a `VideoStitch` holds over its life: the dma buffer, the DRM
device, the RGA context and the handle of the destination buffer. Any of the
calls that acquire one may fail. -/
namespace CppOperate.Stitch
open StepRuns

/-- What is held, and whether some release or use so far hit something that was not. -/
structure Resources where
  dma : Bool := false
  drm : Bool := false
  rga : Bool := false
  handle : Bool := false
  misused : Bool := false
deriving DecidableEq, Repr

namespace Resources

def AllHeld (r : Resources) : Prop :=
  r.dma = true ∧ r.drm = true ∧ r.rga = true ∧ r.handle = true

def NoneHeld (r : Resources) : Prop :=
  r.dma = false ∧ r.drm = false ∧ r.rga = false ∧ r.handle = false

instance (r : Resources) : Decidable r.AllHeld := by unfold AllHeld; infer_instance

instance (r : Resources) : Decidable r.NoneHeld := by unfold NoneHeld; infer_instance

-- an access to `dst_buf` or `dst_dma_fd`
def useDst (r : Resources) : Resources := { r with misused := r.misused || !r.dma }

-- an access through `dst_handle_` or the `dst_info` wrapped around it
def useHandle (r : Resources) : Resources := { r with misused := r.misused || !r.handle }

/-- `dma_buf_free`, and the first branch of `drm_destroy_fb`: `munmap` and `close`. -/
def freeDma (r : Resources) : Resources := { r with dma := false, misused := r.misused || !r.dma }

/-- `drm_exit`: `drm_destroy_fb` takes the dma buffer with it. -/
def drmExit (r : Resources) : Resources :=
  { r.freeDma with drm := false, misused := r.freeDma.misused || !r.drm }

/-- `c_RkRgaDeInit`. -/
def rgaDeInit (r : Resources) : Resources := { r with rga := false, misused := r.misused || !r.rga }

/-- `releasebuffer_handle`. -/
def releaseHandle (r : Resources) : Resources :=
  { r with handle := false, misused := r.misused || !r.handle }

end Resources

/-- How far `drm_init` gets. -/
inductive DrmInit
  | openFails
  | createFbFails
  | setCrtcFails
  | setPlaneFails
  | succeeds
deriving DecidableEq, Repr

/-- `drm_init` on an external dma buffer (a positive fd), and whether it returned
0. The label `fail2` destroys the framebuffer together with the buffer of the caller. -/
def drmInit (r : Resources) : DrmInit → Resources × Bool
  | .openFails => (r, false)
  | .createFbFails => (r, false)
  | .setCrtcFails => (r.freeDma, false)
  -- the clearing loop has written through `vaddr` by then
  | .setPlaneFails => (r.useDst.freeDma, false)
  | .succeeds => ({ r.useDst with drm := true }, true)

/-- The answers of the environment to the acquiring calls; handle 0 is a failed import. -/
structure InitCalls where
  dmaAlloc : Bool
  drm : DrmInit
  rgaInit : Bool
  handle : ℕ
deriving DecidableEq, Repr

structure Lifecycle where
  stitch : VideoStitch
  isVideostitchInit : Bool := false
  dstHandle : ℕ
  resources : Resources := {}
  alive : Bool := true
deriving DecidableEq, Repr

/-- The body that the constructor and `videostitch_init` both spell out. -/
def acquire (calls : InitCalls) (s : Lifecycle) : Lifecycle :=
  if calls.dmaAlloc then
    -- the `memset` of the new buffer
    let r := { s.resources with dma := true }.useDst
    match drmInit r calls.drm with
    | (r, false) => { s with resources := r.freeDma }
    | (r, true) =>
      if calls.rgaInit then
        let r := { r with rga := true }.useDst
        if calls.handle = 0 then
          { s with dstHandle := 0, resources := r.rgaDeInit.drmExit }
        else
          { s with dstHandle := calls.handle, isVideostitchInit := true,
                   resources := { r with handle := true }.useHandle }
      else { s with resources := r.drmExit }
  else s

namespace Lifecycle

/-- `set_layout`, whose `memset` of `dst_buf` looks at no flag. -/
def setLayout (s : Lifecycle) (mode : LayoutMode) (size rows cols : ℤ) : Option Lifecycle :=
  (Stitch.setLayout s.stitch mode size rows cols).map fun stitch =>
    { s with stitch := stitch, resources := s.resources.useDst }

/-- The constructor. `dst_handle_` and `src_rect` start indeterminate. -/
def construct (d : Display) (type : DisplayType) (srcRect : PixelGrid.Rect) (dstHandle : ℕ)
    (calls : InitCalls) (mode : LayoutMode) (size rows cols : ℤ) : Option Lifecycle :=
  let s := acquire calls
    { stitch := { display := d, displaytype := type, srcRect := srcRect }, dstHandle := dstHandle }
  -- every early return leaves before the flag is set
  if s.isVideostitchInit then s.setLayout mode size rows cols else some s

/-- `videostitch_init`. -/
def videostitchInit (s : Lifecycle) (calls : InitCalls) : Lifecycle :=
  if s.isVideostitchInit then s else acquire calls s

-- `if (dst_handle_) releasebuffer_handle(dst_handle_)`
def releaseDstHandle (s : Lifecycle) : Resources :=
  if s.dstHandle ≠ 0 then s.resources.releaseHandle else s.resources

/-- `videostitch_deinit`. -/
def videostitchDeinit (s : Lifecycle) : Lifecycle :=
  if s.isVideostitchInit then
    { s with stitch := { s.stitch with isSetLayout := false, isSetResize := false, displayRects := [] }
             resources := s.releaseDstHandle.rgaDeInit.drmExit }
  else s

/-- The destructor. -/
def destroy (s : Lifecycle) : Lifecycle :=
  { s with stitch := { s.stitch with isSetLayout := false, isSetResize := false, displayRects := [] }
           resources := s.releaseDstHandle.rgaDeInit.drmExit
           alive := false }

/-- `add_frames`: a call that builds `dst_rect` goes on to use `dst_info`. -/
def addFrames (castNonFinite : ℤ) (s : Lifecycle) (place : ℕ) (frame : Frame) (imported : Bool) :
    Lifecycle :=
  let call := Stitch.addFrames castNonFinite s.stitch place frame imported
  { s with stitch := call.1
           resources := if call.2.isSome then s.resources.useHandle else s.resources }

inductive Action
  | videostitchInit (calls : InitCalls)
  | videostitchDeinit
  | setLayout (mode : LayoutMode) (size rows cols : ℤ)
  | setDisplaytype (type : DisplayType)
  | addFrames (place : ℕ) (frame : Frame) (imported : Bool)
  | destroy
deriving DecidableEq, Repr

/-- One call on a live object. -/
def act (castNonFinite : ℤ) (s : Lifecycle) (a : Action) : Option Lifecycle :=
  if s.alive then
    match a with
    | .videostitchInit calls => some (s.videostitchInit calls)
    | .videostitchDeinit => some s.videostitchDeinit
    | .setLayout mode size rows cols => s.setLayout mode size rows cols
    | .setDisplaytype type => some { s with stitch := Stitch.setDisplaytype s.stitch type }
    | .addFrames place frame imported => some (s.addFrames castNonFinite place frame imported)
    | .destroy => some s.destroy
  else none

/-- The flag tells what is held, nothing was misused, and a destroyed object holds nothing. -/
def Sound (s : Lifecycle) : Prop :=
  s.resources.misused = false ∧
    (s.alive = true → (s.isVideostitchInit = true ↔ s.resources.AllHeld)) ∧
    (s.alive = false → s.resources.NoneHeld)

/-- `drm_init` does not fail behind `drm_create_fb`, where it has already
released the dma buffer that its caller releases next. -/
def InitOk (calls : InitCalls) : Prop :=
  calls.dmaAlloc = true → calls.drm ≠ .setCrtcFails ∧ calls.drm ≠ .setPlaneFails

/-- The calls after which flag and resources agree, by the flag before the call. -/
def StepOk (s : Lifecycle) : Action → Prop
  | .videostitchInit calls => s.isVideostitchInit = true ∨ InitOk calls
  -- the flag is left set, with nothing held
  | .videostitchDeinit => s.isVideostitchInit = false
  -- both touch what a failed initialisation does not hold
  | .setLayout .. => s.isVideostitchInit = true
  | .destroy => s.isVideostitchInit = true
  | .setDisplaytype _ => True
  | .addFrames .. => True

/-- What an object can hold as long as every call met `StepOk`. -/
inductive Owned (s : Lifecycle) : Prop
  | ready (hflag : s.isVideostitchInit = true) (hhandle : s.dstHandle ≠ 0) (halive : s.alive = true)
      (hres : s.resources = ⟨true, true, true, true, false⟩)
  | bare (hflag : s.isVideostitchInit = false) (hlayout : s.stitch.isSetLayout = false)
      (halive : s.alive = true) (hres : s.resources = {})
  | gone (halive : s.alive = false) (hres : s.resources = {})

theorem Owned.sound (s : Lifecycle) (h : Owned s) : Sound s := by
  cases h with
  | ready hflag _ halive hres => simp [Sound, hflag, halive, hres, Resources.AllHeld]
  | bare hflag _ halive hres => simp [Sound, hflag, halive, hres, Resources.AllHeld]
  | gone halive hres => simp [Sound, halive, hres, Resources.NoneHeld]

/-- Every failing call of the initialisation is unwound, but for the two behind
`drm_create_fb`: these free the dma buffer twice. -/
theorem acquire_owned (calls : InitCalls) (s : Lifecycle) (hflag : s.isVideostitchInit = false)
    (hlayout : s.stitch.isSetLayout = false) (halive : s.alive = true) (hres : s.resources = {}) :
    (InitOk calls → Owned (acquire calls s)) ∧
      (¬ InitOk calls → (acquire calls s).resources.misused = true ∧
        (acquire calls s).isVideostitchInit = false) := by
  have hunwound (dstHandle : ℕ) : Owned { s with dstHandle := dstHandle, resources := {} } :=
    Owned.bare hflag hlayout halive rfl
  obtain ⟨dmaAlloc,drm,rgaInit,handle⟩ := calls
  cases dmaAlloc with
  | false => simpa [InitOk, acquire] using Owned.bare hflag hlayout halive hres
  | true =>
    -- where the failing call lies decides who frees the dma buffer
    cases drm with
    | openFails =>
      refine ⟨fun _ => ?_, fun h => absurd h (by simp [InitOk])⟩
      rw [acquire, hres]
      exact hunwound s.dstHandle
    | createFbFails =>
      refine ⟨fun _ => ?_, fun h => absurd h (by simp [InitOk])⟩
      rw [acquire, hres]
      exact hunwound s.dstHandle
    | setCrtcFails =>
      refine ⟨fun h => absurd rfl (h rfl).1, fun _ => ⟨?_, hflag⟩⟩
      rw [acquire, hres]
      rfl
    | setPlaneFails =>
      refine ⟨fun h => absurd rfl (h rfl).2, fun _ => ⟨?_, hflag⟩⟩
      rw [acquire, hres]
      rfl
    | succeeds =>
      refine ⟨fun _ => ?_, fun h => absurd h (by simp [InitOk])⟩
      cases rgaInit with
      | false =>
        rw [acquire, hres]
        exact hunwound s.dstHandle
      | true =>
        by_cases hhandle : handle = 0
        · have heq : acquire ⟨true, .succeeds, true, handle⟩ s =
              { s with dstHandle := 0, resources := {} } := by
            simp [acquire, drmInit, hres, hhandle, Resources.useDst, Resources.rgaDeInit,
              Resources.drmExit, Resources.freeDma]
          rw [heq]
          exact hunwound 0
        · have heq : acquire ⟨true, .succeeds, true, handle⟩ s =
              { s with dstHandle := handle, isVideostitchInit := true,
                       resources := ⟨true, true, true, true, false⟩ } := by
            simp [acquire, drmInit, hres, hhandle, Resources.useDst, Resources.useHandle]
          rw [heq]
          exact Owned.ready rfl hhandle halive rfl

theorem acquire_alive (calls : InitCalls) (s : Lifecycle) : (acquire calls s).alive = s.alive := by
  simp only [acquire]
  split
  · split
    · rfl
    · split_ifs <;> rfl
  · rfl

theorem releaseDstHandle_ready (s : Lifecycle) (hhandle : s.dstHandle ≠ 0)
    (hres : s.resources = ⟨true, true, true, true, false⟩) :
    s.releaseDstHandle.rgaDeInit.drmExit = {} := by
  rw [releaseDstHandle, if_pos hhandle, hres]
  rfl

-- without the RGA context its release is the first one that hits nothing
theorem releaseDstHandle_bare (s : Lifecycle) (hres : s.resources = {}) :
    s.releaseDstHandle.rgaDeInit.drmExit.misused = true := by
  rw [releaseDstHandle, hres]
  split_ifs <;> rfl

theorem addFrames_resources (castNonFinite : ℤ) (s : Lifecycle) (place : ℕ) (frame : Frame)
    (imported : Bool) (h : s.resources.handle = true ∨ s.stitch.isSetLayout = false) :
    (s.addFrames castNonFinite place frame imported).resources = s.resources := by
  rcases h with h | h
  · have huse : s.resources.useHandle = s.resources := by
      rw [Resources.useHandle, h, Bool.not_true, Bool.or_false, ← h]
    rw [addFrames, huse, ite_self]
  · simp [addFrames, Stitch.addFrames, h]

theorem addFrames_isSetLayout (castNonFinite : ℤ) (s : Lifecycle) (place : ℕ) (frame : Frame)
    (imported : Bool) (h : s.stitch.isSetLayout = false) :
    (s.addFrames castNonFinite place frame imported).stitch.isSetLayout = false := by
  simp [addFrames, Stitch.addFrames, h]

theorem setLayout_eq_some (s t : Lifecycle) (mode : LayoutMode) (size rows cols : ℤ)
    (h : s.setLayout mode size rows cols = some t) :
    ∃ stitch, t = { s with stitch := stitch, resources := s.resources.useDst } := by
  rw [setLayout, Option.map_eq_some_iff] at h
  obtain ⟨stitch,-,rfl⟩ := h
  exact ⟨stitch, rfl⟩

-- the two ways in which a call decides about its condition and its outcome at once

theorem stepOk_of_owned (s t : Lifecycle) (a : Action) (hok : StepOk s a) (ht : Owned t) :
    (StepOk s a ↔ Sound t) ∧ (StepOk s a → Owned t) :=
  ⟨iff_of_true hok ht.sound, fun _ => ht⟩

theorem not_stepOk_of_unsound (s t : Lifecycle) (a : Action) (hok : ¬ StepOk s a) (ht : ¬ Sound t) :
    (StepOk s a ↔ Sound t) ∧ (StepOk s a → Owned t) :=
  ⟨iff_of_false hok ht, fun h => absurd h hok⟩

theorem not_sound_of_misused (s : Lifecycle) (h : s.resources.misused = true) : ¬ Sound s := by
  intro hsound
  rw [hsound.1] at h
  contradiction

/-- From an object whose flag is true every call but `videostitch_deinit` keeps
flag and resources in agreement. -/
theorem act_ready (castNonFinite : ℤ) (s t : Lifecycle) (a : Action)
    (hflag : s.isVideostitchInit = true) (hhandle : s.dstHandle ≠ 0) (halive : s.alive = true)
    (hres : s.resources = ⟨true, true, true, true, false⟩) (h : act castNonFinite s a = some t) :
    (StepOk s a ↔ Sound t) ∧ (StepOk s a → Owned t) := by
  have hgood := stepOk_of_owned s t a
  unfold act at h
  rw [if_pos halive] at h
  cases a with
  | videostitchInit calls =>
    cases h
    apply hgood (Or.inl hflag)
    rw [videostitchInit, if_pos hflag]
    exact Owned.ready hflag hhandle halive hres
  | videostitchDeinit =>
    cases h
    have hbad : ¬ StepOk s .videostitchDeinit := by simp [StepOk, hflag]
    have hunsound : ¬ Sound s.videostitchDeinit := by
      rw [videostitchDeinit, if_pos hflag]
      intro hsound
      have hheld := (hsound.2.1 halive).mp hflag
      rw [releaseDstHandle_ready s hhandle hres] at hheld
      simp [Resources.AllHeld] at hheld
    exact not_stepOk_of_unsound s _ _ hbad hunsound
  | setLayout mode size rows cols =>
    obtain ⟨stitch,rfl⟩ := setLayout_eq_some s t mode size rows cols h
    apply hgood hflag
    exact Owned.ready hflag hhandle halive (by rw [hres]; rfl)
  | setDisplaytype type =>
    cases h
    exact hgood trivial (Owned.ready hflag hhandle halive hres)
  | addFrames place frame imported =>
    cases h
    apply hgood trivial
    refine Owned.ready hflag hhandle halive ?_
    rw [addFrames_resources castNonFinite s place frame imported (Or.inl (by rw [hres])), hres]
  | destroy =>
    cases h
    apply hgood hflag
    exact Owned.gone rfl (releaseDstHandle_ready s hhandle hres)

/-- From an object whose initialisation failed, `set_layout` and the destructor
touch what is not there, and only a sound initialisation leads on. -/
theorem act_bare (castNonFinite : ℤ) (s t : Lifecycle) (a : Action)
    (hflag : s.isVideostitchInit = false) (hlayout : s.stitch.isSetLayout = false)
    (halive : s.alive = true) (hres : s.resources = {}) (h : act castNonFinite s a = some t) :
    (StepOk s a ↔ Sound t) ∧ (StepOk s a → Owned t) := by
  have hgood := stepOk_of_owned s t a
  have hbad (hok : ¬ StepOk s a) (ht : t.resources.misused = true) :=
    not_stepOk_of_unsound s t a hok (not_sound_of_misused t ht)
  unfold act at h
  rw [if_pos halive] at h
  cases a with
  | videostitchInit calls =>
    cases h
    have heq : s.videostitchInit calls = acquire calls s := by
      rw [videostitchInit, if_neg (by simp [hflag])]
    obtain ⟨hkeep,hbreak⟩ := acquire_owned calls s hflag hlayout halive hres
    rw [heq] at hgood hbad ⊢
    by_cases hok : InitOk calls
    · exact hgood (Or.inr hok) (hkeep hok)
    · exact hbad (by simp [StepOk, hflag, hok]) (hbreak hok).1
  | videostitchDeinit =>
    cases h
    apply hgood hflag
    rw [videostitchDeinit, if_neg (by simp [hflag])]
    exact Owned.bare hflag hlayout halive hres
  | setLayout mode size rows cols =>
    obtain ⟨stitch,rfl⟩ := setLayout_eq_some s t mode size rows cols h
    apply hbad (by simp [StepOk, hflag])
    rw [hres]
    rfl
  | setDisplaytype type =>
    cases h
    exact hgood trivial (Owned.bare hflag hlayout halive hres)
  | addFrames place frame imported =>
    cases h
    apply hgood trivial
    refine Owned.bare hflag (addFrames_isSetLayout castNonFinite s place frame imported hlayout)
      halive ?_
    rw [addFrames_resources castNonFinite s place frame imported (Or.inr hlayout), hres]
  | destroy =>
    cases h
    apply hbad (by simp [StepOk, hflag])
    exact releaseDstHandle_bare s hres

theorem act_owned (castNonFinite : ℤ) (s : Lifecycle) (a : Action) (t : Lifecycle) (hs : Owned s)
    (h : act castNonFinite s a = some t) :
    (StepOk s a ↔ Sound t) ∧ (StepOk s a → Owned t) := by
  cases hs with
  | ready hflag hhandle halive hres => exact act_ready castNonFinite s t a hflag hhandle halive hres h
  | bare hflag hlayout halive hres => exact act_bare castNonFinite s t a hflag hlayout halive hres h
  | gone halive hres => simp [act, halive] at h

theorem construct_owned (d : Display) (type : DisplayType) (srcRect : PixelGrid.Rect)
    (dstHandle : ℕ) (calls : InitCalls) (mode : LayoutMode) (size rows cols : ℤ) (s : Lifecycle)
    (h : construct d type srcRect dstHandle calls mode size rows cols = some s) :
    (InitOk calls → Owned s) ∧ (¬ InitOk calls → ¬ Sound s) := by
  unfold construct at h
  obtain ⟨hkeep,hbreak⟩ := acquire_owned calls
    { stitch := { display := d, displaytype := type, srcRect := srcRect }, dstHandle := dstHandle }
    rfl rfl rfl rfl
  constructor
  · intro hok
    cases hkeep hok with
    | ready hflag hhandle halive hres =>
      rw [if_pos hflag] at h
      obtain ⟨stitch,rfl⟩ := setLayout_eq_some _ _ mode size rows cols h
      exact Owned.ready hflag hhandle halive (by rw [hres]; rfl)
    | bare hflag hlayout halive hres =>
      rw [if_neg (by simp [hflag]), Option.some.injEq] at h
      exact h ▸ Owned.bare hflag hlayout halive hres
    | gone halive hres =>
      rw [acquire_alive] at halive
      contradiction
  · intro hok
    obtain ⟨hmisused,hflag⟩ := hbreak hok
    rw [if_neg (by simp [hflag]), Option.some.injEq] at h
    exact h ▸ not_sound_of_misused _ hmisused

/-- Flag and resources agree after every call of a run, with nothing misused,
exactly when the constructor and all calls of the run meet their condition. -/
theorem lifecycle_sound_iff (castNonFinite : ℤ) (d : Display) (type : DisplayType)
    (srcRect : PixelGrid.Rect) (dstHandle : ℕ) (calls : InitCalls) (mode : LayoutMode)
    (size rows cols : ℤ) (init s : Lifecycle)
    (hinit : construct d type srcRect dstHandle calls mode size rows cols = some init)
    (acts : List Action) (hrun : run (act castNonFinite) init acts = some s) :
    (∀ pre t, pre <+: acts → run (act castNonFinite) init pre = some t → Sound t) ↔
      InitOk calls ∧ Meets (act castNonFinite) StepOk init acts := by
  obtain ⟨hkeep,hbreak⟩ :=
    construct_owned d type srcRect dstHandle calls mode size rows cols init hinit
  constructor
  · intro hall
    have hok : InitOk calls := by
      by_contra hbad
      exact hbreak hbad (hall [] init List.nil_prefix rfl)
    refine ⟨hok, ?_⟩
    apply (meets_iff_good_states (act castNonFinite) StepOk Owned Sound Owned.sound
      (act_owned castNonFinite) init s acts (hkeep hok) hrun).mpr hall
  · intro ⟨hok,hmeets⟩
    exact (meets_iff_good_states (act castNonFinite) StepOk Owned Sound Owned.sound
      (act_owned castNonFinite) init s acts (hkeep hok) hrun).mp hmeets

-- every acquiring call succeeds
def allSucceed : InitCalls := ⟨true, .succeeds, true, 1⟩

theorem lifecycle_sound_iff_destroyed : ∃ init s,
    construct ⟨7, 5⟩ .contain ⟨0, 0, 0, 0⟩ 0 allSucceed .customGrid 6 2 3 = some init ∧
    run (act 0) init [.addFrames 5 ⟨1280, 720, by decide, by decide⟩ true, .destroy] = some s ∧
    Sound s := by
  obtain ⟨init,hinit⟩ : ∃ init, construct ⟨7, 5⟩ .contain ⟨0, 0, 0, 0⟩ 0 allSucceed .customGrid
    6 2 3 = some init := ⟨_, rfl⟩
  have hrun : ∃ s, run (act 0) init
      [.addFrames 5 ⟨1280, 720, by decide, by decide⟩ true, .destroy] = some s := by
    cases hinit
    exact ⟨_, rfl⟩
  obtain ⟨s,hrun⟩ := hrun
  refine ⟨init, s, hinit, hrun, ?_⟩
  have hmeets : InitOk allSucceed ∧ Meets (act 0) StepOk init
      [.addFrames 5 ⟨1280, 720, by decide, by decide⟩ true, .destroy] := by
    cases hinit
    refine ⟨by simp [InitOk, allSucceed], trivial, fun t ht => ⟨?_, fun _ _ => trivial⟩⟩
    cases ht
    rfl
  exact (lifecycle_sound_iff 0 _ _ _ _ _ _ _ _ _ init s hinit _ hrun).mpr hmeets _ s
    (List.prefix_refl _) hrun

/-- After `videostitch_deinit` the flag still says that all is held, and the
destructor releases everything again. -/
theorem deinit_leaves_flag : ∃ init s t,
    construct ⟨7, 5⟩ .contain ⟨0, 0, 0, 0⟩ 0 allSucceed .customGrid 6 2 3 = some init ∧
    run (act 0) init [.videostitchDeinit] = some s ∧
    s.isVideostitchInit = true ∧ s.resources.NoneHeld ∧ ¬ Sound s ∧
    run (act 0) init [.videostitchDeinit, .destroy] = some t ∧ t.resources.misused = true := by
  refine ⟨_, _, _, rfl, rfl, rfl, by decide, ?_, rfl, rfl⟩
  intro hsound
  exact absurd ((hsound.2.1 rfl).mp rfl) (by decide)

end Lifecycle
end CppOperate.Stitch

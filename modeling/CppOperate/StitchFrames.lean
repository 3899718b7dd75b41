import CppOperate.StepRuns
import CppOperate.StitchGeometry
import CppOperate.StitchSearch

/-! Runs of `set_layout`, `set_displaytype` and `add_frames`. The place of a
frame is computed by the first `add_frames` after a reset and reused by every
later one, whatever its cell and frame. -/
namespace CppOperate.Stitch
open CNumbers PixelGrid StepRuns

inductive LayoutMode
  | automatic
  | customGrid
deriving DecidableEq, Repr

/-- The members of `VideoStitch` that `add_frames` reads or writes. -/
structure VideoStitch where
  display : Display
  displaytype : DisplayType
  isSetLayout : Bool := false
  isSetResize : Bool := false
  displayRects : List Rect := []
  newTargetFrame : NewFrameConfig := {}
  srcRect : Rect
deriving DecidableEq, Repr

/-- Tests of its bound after which the search loop has ended. -/
def searchFuel : ℕ := 5

/-- The switch of `set_layout`: what `display_rects` holds afterwards. -/
def layoutRects (d : Display) (mode : LayoutMode) (cellLayoutSize rows cols : ℤ) :
    Option (Except Fault (List Rect)) :=
  match mode with
  | .automatic => calculateAutomaticLayout d searchFuel cellLayoutSize
  | .customGrid => some (calculateCustomLayout d cellLayoutSize rows cols)

/-- `set_layout`; `none` when the layout is undefined arithmetic. -/
def setLayout (s : VideoStitch) (mode : LayoutMode) (cellLayoutSize rows cols : ℤ) :
    Option VideoStitch :=
  match layoutRects s.display mode cellLayoutSize rows cols with
  | some (.ok rects) =>
    some { s with isSetLayout := true, isSetResize := false, displayRects := rects }
  | _ => none

/-- `set_displaytype`. -/
def setDisplaytype (s : VideoStitch) (type : DisplayType) : VideoStitch :=
  { s with displaytype := type, isSetResize := false }

/-- The block under `if (!is_set_resize)`. -/
def configure (castNonFinite : ℤ) (s : VideoStitch) (target : Rect) (frame : Frame) :
    VideoStitch :=
  if s.isSetResize then s else
    -- kept until the next reset, for cells and frames of other sizes too
    let config := resizeConfig castNonFinite s.displaytype target frame
    { s with isSetResize := true, newTargetFrame := config.1, srcRect := config.2 }

/-- The two rectangles a call hands to `imcheck`. -/
structure Draw where
  dstRect : Rect
  srcRect : Rect
deriving DecidableEq, Repr

/-- `add_frames` up to `imcheck`. `imported` tells whether
`importbuffer_virtualaddr` gave a handle: without one the call returns before
`dst_rect`, but after the configuration. -/
def addFrames (castNonFinite : ℤ) (s : VideoStitch) (screenPlace : ℕ) (frame : Frame)
    (imported : Bool) : VideoStitch × Option Draw :=
  if s.isSetLayout then
    match s.displayRects[screenPlace]? with
    -- `screen_place >= display_rects.size()`
    | none => (s, none)
    | some target =>
      let s := configure castNonFinite s target frame
      (s, if imported then some ⟨dstRect target s.newTargetFrame, s.srcRect⟩ else none)
  else (s, none)

inductive Op
  | setLayout (mode : LayoutMode) (cellLayoutSize rows cols : ℤ)
  | setDisplaytype (type : DisplayType)
  | addFrames (screenPlace : ℕ) (frame : Frame) (imported : Bool)
deriving DecidableEq, Repr

/-- The operations that clear `is_set_resize`. -/
def Op.isReset : Op → Bool
  | .setLayout .. => true
  | .setDisplaytype _ => true
  | .addFrames .. => false

def step (castNonFinite : ℤ) (s : VideoStitch) : Op → Option VideoStitch
  | .setLayout mode size rows cols => setLayout s mode size rows cols
  | .setDisplaytype type => some (setDisplaytype s type)
  | .addFrames place frame imported => some (addFrames castNonFinite s place frame imported).1

/-- A grid request the layout code is made for. -/
def ValidRequest (mode : LayoutMode) (size rows cols : ℤ) : Prop :=
  match mode with
  | .automatic => 1 ≤ size ∧ (floorSqrt size+3)^2 < 2^31
  | .customGrid => 0 ≤ size ∧ 1 ≤ rows ∧ 1 ≤ cols ∧ size ≤ rows*cols ∧ rows*cols < 2^31

theorem calculateGridLayout_defined (d : Display) (size rows cols : ℤ)
    (hr : 1 ≤ rows) (hr' : rows < 2^31) (hc : 1 ≤ cols) (hc' : cols < 2^31) :
    ∃ rects, calculateGridLayout d size rows cols = .ok rects := by
  have hw := d.width_lt
  have hh := d.height_lt
  unfold calculateGridLayout
  rw [divUInt32_of_pos _ _ (by omega) (by omega) (by omega) (by omega),
    divUInt32_of_pos _ _ (by omega) (by omega) (by omega) (by omega),
    modUInt32_of_pos _ _ (by omega) (by omega) (by omega) (by omega),
    modUInt32_of_pos _ _ (by omega) (by omega) (by omega) (by omega)]
  exact ⟨_, rfl⟩

/-- A valid request is laid out on every display, in any state. -/
theorem setLayout_defined (s : VideoStitch) (mode : LayoutMode) (size rows cols : ℤ)
    (h : ValidRequest mode size rows cols) :
    ∃ t, setLayout s mode size rows cols = some t ∧ t.isSetLayout = true := by
  have hrects : ∃ rects, layoutRects s.display mode size rows cols = some (.ok rects) := by
    cases mode with
    | automatic =>
      obtain ⟨h1,hfit⟩ := h
      have hle := (floorSqrt_spec size (by omega)).2
      have hroot : floorSqrt size*floorSqrt size+2*floorSqrt size < 2^31 := by
        have := floorSqrt_nonneg size
        nlinarith
      obtain ⟨hR,hC⟩ := bestGrid_pos s.display.isLandscape size h1
      have hlast := bestGrid_lastRow s.display.isLandscape size _ (one_le_floorSqrt size h1)
        (floorSqrt_spec size (by omega)).1
      have habs := bestGrid_balanced s.display.isLandscape size (floorSqrt size)
      rw [abs_le] at habs
      have hsmall : (bestGrid s.display.isLandscape size (floorSqrt size)).1 < 2^31-1 := by
        by_contra! hbig
        nlinarith
      obtain ⟨rects,hrects⟩ := calculateGridLayout_defined s.display size _ _ hR (by omega) hC
        (by omega)
      refine ⟨rects, ?_⟩
      rw [layoutRects, calculateAutomaticLayout_eq size h1 hfit searchFuel le_rfl, hrects]
    | customGrid =>
      obtain ⟨h0,hr,hc,hsize,hfit⟩ := h
      have hrb : rows < 2^31 := by nlinarith
      have hcb : cols < 2^31 := by nlinarith
      obtain ⟨rects,hrects⟩ := calculateGridLayout_defined s.display size rows cols hr hrb hc hcb
      refine ⟨rects, ?_⟩
      rw [layoutRects, calculateCustomLayout, checkedInt_of_range _ (by nlinarith) hfit]
      simp only [Except.bind, if_neg (not_lt.mpr hsize), hrects]
  obtain ⟨rects,hrects⟩ := hrects
  exact ⟨_, by rw [setLayout, hrects], rfl⟩

/-- Among the operations performed from `init`, the last reset is followed by an
`add_frames` that computed the configuration, for this cell and this frame. -/
def ConfiguredBy (castNonFinite : ℤ) (init : VideoStitch) (ops : List Op) (cell : Rect)
    (frame : Frame) : Prop :=
  ∃ pre place imported post s, ops = pre ++ Op.addFrames place frame imported :: post ∧
    run (step castNonFinite) init pre = some s ∧ s.isSetLayout = true ∧
    s.isSetResize = false ∧ s.displayRects[place]? = some cell ∧
    ∀ op ∈ post, op.isReset = false

section runs
variable (castNonFinite : ℤ) (init : VideoStitch)

theorem ConfiguredBy.snoc (ops : List Op) (op : Op) (cell : Rect) (frame : Frame)
    (h : ConfiguredBy castNonFinite init ops cell frame) (hop : op.isReset = false) :
    ConfiguredBy castNonFinite init (ops ++ [op]) cell frame := by
  obtain ⟨pre,place,imported,post,s,rfl,hrun,hlayout,hresize,hcell,hpost⟩ := h
  refine ⟨pre, place, imported, post ++ [op], s, by simp, hrun, hlayout, hresize, hcell, ?_⟩
  simpa [or_imp, forall_and] using ⟨hpost, hop⟩

theorem configure_isSetResize (s : VideoStitch) (target : Rect) (frame : Frame) :
    (configure castNonFinite s target frame).isSetResize = true := by
  unfold configure
  split_ifs with h
  · exact h
  · rfl

theorem configure_displaytype (s : VideoStitch) (target : Rect) (frame : Frame) :
    (configure castNonFinite s target frame).displaytype = s.displaytype := by
  unfold configure
  split_ifs <;> rfl

/-- The configuration in effect is the one of its configuring call. -/
def Configured (ops : List Op) (s : VideoStitch) : Prop :=
  s.isSetResize = true → ∃ cell frame, ConfiguredBy castNonFinite init ops cell frame ∧
    (s.newTargetFrame, s.srcRect) = resizeConfig castNonFinite s.displaytype cell frame

/-- An `add_frames` either changes nothing or configures for its own cell. -/
theorem addFrames_cases (s : VideoStitch) (place : ℕ) (frame : Frame) (imported : Bool) :
    (addFrames castNonFinite s place frame imported = (s, none)) ∨
      ∃ target, s.isSetLayout = true ∧ s.displayRects[place]? = some target ∧
        addFrames castNonFinite s place frame imported =
          (configure castNonFinite s target frame,
            if imported then some ⟨dstRect target (configure castNonFinite s target frame).newTargetFrame,
              (configure castNonFinite s target frame).srcRect⟩ else none) := by
  unfold addFrames
  by_cases hlayout : s.isSetLayout = true
  · rw [if_pos hlayout]
    cases htarget : s.displayRects[place]? with
    | none => exact Or.inl rfl
    | some target => exact Or.inr ⟨target, hlayout, rfl, rfl⟩
  · exact Or.inl (if_neg hlayout)

/-- What one `add_frames` that passes its checks leaves behind. -/
theorem configure_configured (ops : List Op) (s : VideoStitch) (place : ℕ) (frame : Frame)
    (imported : Bool) (target : Rect) (hrun : run (step castNonFinite) init ops = some s)
    (hinv : Configured castNonFinite init ops s) (hlayout : s.isSetLayout = true)
    (htarget : s.displayRects[place]? = some target) :
    Configured castNonFinite init (ops ++ [.addFrames place frame imported])
      (configure castNonFinite s target frame) := by
  intro _
  unfold configure
  split_ifs with hresize
  · obtain ⟨cell,frame0,hby,hconf⟩ := hinv hresize
    exact ⟨cell, frame0, hby.snoc _ _ _ _ _ _ rfl, hconf⟩
  · refine ⟨target, frame, ⟨ops, place, imported, [], s, rfl, hrun, hlayout, ?_, htarget, by simp⟩,
      rfl⟩
    simpa using hresize

theorem configured_run (hinit : init.isSetResize = false) (ops : List Op) (s : VideoStitch)
    (hrun : run (step castNonFinite) init ops = some s) :
    Configured castNonFinite init ops s := by
  refine run_history_invariant (step castNonFinite) init (Configured castNonFinite init) ?_ ?_
    ops s hrun
  · intro h
    rw [hinit] at h
    contradiction
  · intro as t op u hrun hinv hstep
    cases op with
    | setLayout mode size rows cols =>
      simp only [step, setLayout] at hstep
      split at hstep
      · cases hstep
        intro h
        contradiction
      · contradiction
    | setDisplaytype type =>
      cases hstep
      intro h
      contradiction
    | addFrames place frame imported =>
      rw [step, Option.some.injEq] at hstep
      rcases addFrames_cases castNonFinite t place frame imported with
        hskip | ⟨target,hlayout,htarget,hcall⟩
      · rw [hskip] at hstep
        subst hstep
        intro h
        obtain ⟨cell,frame0,hby,hconf⟩ := hinv h
        exact ⟨cell, frame0, hby.snoc _ _ _ _ _ _ rfl, hconf⟩
      · rw [hcall] at hstep
        subst hstep
        exact configure_configured castNonFinite init as t place frame imported target hrun hinv
          hlayout htarget

end runs

/-- In every run a call that builds `dst_rect` uses the place computed by its
configuring call. It stays in its own cell when that is at least as large as the
configuring cell, and reads inside its own frame when that is at least as large
as the configuring frame. -/
theorem add_frames_fits_configuring_call (castNonFinite : ℤ) (init : VideoStitch)
    (hinit : init.isSetResize = false) (ops : List Op) (s : VideoStitch)
    (hrun : run (step castNonFinite) init ops = some s) (place : ℕ) (frame : Frame)
    (imported : Bool) (draw : Draw)
    (hdraw : (addFrames castNonFinite s place frame imported).2 = some draw) :
    ∃ cell cell0 frame0, s.displayRects[place]? = some cell ∧
      ConfiguredBy castNonFinite init (ops ++ [.addFrames place frame imported]) cell0 frame0 ∧
      draw.dstRect = dstRect cell (resizeConfig castNonFinite s.displaytype cell0 frame0).1 ∧
      draw.srcRect = (resizeConfig castNonFinite s.displaytype cell0 frame0).2 ∧
      (cell0.width ≤ cell.width → cell0.height ≤ cell.height → draw.dstRect.Within cell) ∧
      ((s.displaytype = .cover → HasRatio cell0) →
        frame0.cols ≤ frame.cols → frame0.rows ≤ frame.rows → draw.srcRect.Within frame.whole) := by
  rcases addFrames_cases castNonFinite s place frame imported with
    hskip | ⟨cell,hlayout,hcell,hcall⟩
  · rw [hskip] at hdraw
    contradiction
  have hinv := configured_run castNonFinite init hinit ops s hrun
  obtain ⟨cell0,frame0,hby,hconf⟩ := configure_configured castNonFinite init ops s place frame
    imported cell hrun hinv hlayout hcell (configure_isSetResize castNonFinite s cell frame)
  rw [configure_displaytype] at hconf
  have hdst := congrArg Prod.fst hconf
  have hsrc := congrArg Prod.snd hconf
  dsimp only at hdst hsrc
  rw [hcall, hdst, hsrc] at hdraw
  cases imported with
  | false => contradiction
  | true =>
    cases hdraw
    refine ⟨cell, cell0, frame0, hcell, hby, rfl, rfl, ?_, ?_⟩
    · intro hw hh
      rw [dstRect_within_iff]
      exact (resizeConfig_fits castNonFinite _ cell0 frame0).mono _ _ _ _ _ hw hh
    · intro hratio hc hr
      exact within_whole_mono _ frame0 frame
        (resizeConfig_src_within castNonFinite _ cell0 frame0 hratio) hc hr

-- 1920 columns over 7 cells: two cells of width 275, five of width 274
def fullHD : VideoStitch :=
  { display := ⟨1920, 1080⟩, displaytype := .contain, srcRect := ⟨0, 0, 0, 0⟩ }

theorem add_frames_fits_configuring_call_first : ∃ s draw cell cell0 frame0,
    run (step 0) fullHD [.setLayout .customGrid 6 2 3] = some s ∧
    (addFrames 0 s 5 ⟨1280, 720, by decide, by decide⟩ true).2 = some draw ∧
    s.displayRects[5]? = some cell ∧
    draw.dstRect = dstRect cell (resizeConfig 0 s.displaytype cell0 frame0).1 ∧
    (cell0.width ≤ cell.width → cell0.height ≤ cell.height → draw.dstRect.Within cell) := by
  obtain ⟨s,hrun⟩ : ∃ s, run (step 0) fullHD [.setLayout .customGrid 6 2 3] = some s := ⟨_, rfl⟩
  have hs := hrun
  cases hs
  obtain ⟨cell,cell0,frame0,hcell,-,hdst,-,hfit,-⟩ :=
    add_frames_fits_configuring_call 0 fullHD rfl _ _ hrun 5 ⟨1280, 720, by decide, by decide⟩ true
      _ rfl
  exact ⟨_, _, cell, cell0, frame0, hrun, rfl, hcell, hdst, hfit⟩

/-- A narrower cell and a smaller frame than those of the configuring call get
neither rectangle right, and an empty cell has no ratio to crop by. -/
theorem add_frames_leaves_cell_and_frame :
    (∃ s draw cell, run (step 0) fullHD
        [.setLayout .customGrid 7 1 7, .setDisplaytype .stretch,
          .addFrames 0 ⟨1280, 720, by decide, by decide⟩ true] = some s ∧
      s.displayRects[6]? = some cell ∧
      (addFrames 0 s 6 ⟨640, 480, by decide, by decide⟩ true).2 = some draw ∧
      ¬ draw.dstRect.Within cell ∧ ¬ draw.srcRect.Within ⟨0, 0, 640, 480⟩) ∧
    (∃ s draw, run (step (2^31-1)) { fullHD with display := ⟨1, 1⟩ }
        [.setLayout .customGrid 4 2 2, .setDisplaytype .cover] = some s ∧
      (addFrames (2^31-1) s 3 ⟨640, 480, by decide, by decide⟩ true).2 = some draw ∧
      ¬ draw.srcRect.Within ⟨0, 0, 640, 480⟩) :=
  ⟨⟨_, _, _, rfl, rfl, rfl, by decide, by decide⟩, ⟨_, _, rfl, rfl, by decide⟩⟩

end CppOperate.Stitch

import CppOperate.CNumbers
import CppOperate.PixelGrid

/-! Where `VideoStitch::add_frames` puts a frame in its cell. Ratios are exact,
as the cast of a `double` to `int` truncates them; `castNonFinite` is whatever
the cast gives for an infinity or NaN, which C++ leaves undefined. -/
namespace CppOperate.Stitch
open CNumbers PixelGrid

inductive DisplayType
  | contain
  | cover
  | stretch
deriving DecidableEq, Repr

/-- The size of a `cv::Mat` that holds an image. -/
structure Frame where
  cols : ℤ
  rows : ℤ
  cols_pos : 0 < cols
  rows_pos : 0 < rows
deriving DecidableEq, Repr

/-- All pixels of the frame. -/
def Frame.whole (frame : Frame) : Rect := ⟨0, 0, frame.cols, frame.rows⟩

/-- `new_frame_config_`, with its member initializers. -/
structure NewFrameConfig where
  xOffset : ℤ := 0
  yOffset : ℤ := 0
  width : ℤ := 1920
  height : ℤ := 1080
deriving DecidableEq, Repr

/-- The case `DisplayType::Contain`: `new_target_frame` and `src_rect`. -/
def containGeometry (target : Rect) (frame : Frame) : NewFrameConfig × Rect :=
  let widthRatio : ℚ := target.width / frame.cols
  let heightRatio : ℚ := target.height / frame.rows
  let resizeRatio := min widthRatio heightRatio
  ({ xOffset := truncToInt ((target.width-frame.cols*resizeRatio)/2)
     yOffset := truncToInt ((target.height-frame.rows*resizeRatio)/2)
     width := truncToInt (frame.cols*resizeRatio)
     height := truncToInt (frame.rows*resizeRatio) }, frame.whole)

/-- `crop_width` and `crop_height` of the case `DisplayType::Cover`. -/
def cropSize (castNonFinite : ℤ) (target : Rect) (frame : Frame) : ℤ × ℤ :=
  if target.height = 0 then
    if 0 < target.width then (frame.cols, 0)
    else if target.width < 0 then (castNonFinite, frame.rows)
    -- `target_ratio` is NaN, the comparison with it fails
    else (frame.cols, castNonFinite)
  else
    let targetRatio : ℚ := target.width / target.height
    let srcRatio : ℚ := frame.cols / frame.rows
    if srcRatio > targetRatio then (truncToInt (frame.rows*targetRatio), frame.rows)
    else (frame.cols, truncToInt (frame.cols/targetRatio))

/-- The case `DisplayType::Cover`. -/
def coverGeometry (castNonFinite : ℤ) (target : Rect) (frame : Frame) : NewFrameConfig × Rect :=
  let crop := cropSize castNonFinite target frame
  (⟨0, 0, target.width, target.height⟩,
    { x := (frame.cols-crop.1).tdiv 2
      y := (frame.rows-crop.2).tdiv 2
      width := crop.1
      height := crop.2 })

/-- The case `DisplayType::Stretch`. -/
def stretchGeometry (target : Rect) (frame : Frame) : NewFrameConfig × Rect :=
  (⟨0, 0, target.width, target.height⟩, frame.whole)

/-- The switch over `displaytype`. -/
def resizeConfig (castNonFinite : ℤ) (t : DisplayType) (target : Rect) (frame : Frame) :
    NewFrameConfig × Rect :=
  match t with
  | .contain => containGeometry target frame
  | .cover => coverGeometry castNonFinite target frame
  | .stretch => stretchGeometry target frame

/-- `dst_rect`: the configured place, relative to the cell of this call. -/
def dstRect (target : Rect) (config : NewFrameConfig) : Rect :=
  ⟨target.x+config.xOffset, target.y+config.yOffset, config.width, config.height⟩

/-- Some finite ratio, or an infinite one that still crops to nothing. -/
def HasRatio (target : Rect) : Prop := target.height = 0 → 0 < target.width

instance (target : Rect) : Decidable (HasRatio target) := by
  unfold HasRatio; infer_instance

/-- A configuration that fits a box of the given size. -/
def Fits (config : NewFrameConfig) (width height : ℤ) : Prop :=
  (0 ≤ config.xOffset ∧ config.xOffset+config.width ≤ width) ∧
    (0 ≤ config.yOffset ∧ config.yOffset+config.height ≤ height)

theorem containGeometry_fits (target : Rect) (frame : Frame) :
    Fits (containGeometry target frame).1 target.width target.height := by
  have hc : (0:ℚ) < frame.cols := Int.cast_pos.mpr frame.cols_pos
  have hr : (0:ℚ) < frame.rows := Int.cast_pos.mpr frame.rows_pos
  have hw : (frame.cols:ℚ)*min ((target.width:ℚ)/frame.cols) ((target.height:ℚ)/frame.rows) ≤
      target.width := by
    rw [mul_comm, ← le_div_iff₀ hc]
    exact min_le_left _ _
  have hh : (frame.rows:ℚ)*min ((target.width:ℚ)/frame.cols) ((target.height:ℚ)/frame.rows) ≤
      target.height := by
    rw [mul_comm, ← le_div_iff₀ hr]
    exact min_le_right _ _
  exact ⟨centred_trunc_within target.width _ hw, centred_trunc_within target.height _ hh⟩

/-- In every display type the configuration fits the cell it was computed for. -/
theorem resizeConfig_fits (castNonFinite : ℤ) (t : DisplayType) (target : Rect) (frame : Frame) :
    Fits (resizeConfig castNonFinite t target frame).1 target.width target.height := by
  cases t with
  | contain => exact containGeometry_fits target frame
  | cover => simp [Fits, resizeConfig, coverGeometry]
  | stretch => simp [Fits, resizeConfig, stretchGeometry]

theorem cropSize_le (castNonFinite : ℤ) (target : Rect) (frame : Frame) (h : HasRatio target) :
    (cropSize castNonFinite target frame).1 ≤ frame.cols ∧
      (cropSize castNonFinite target frame).2 ≤ frame.rows := by
  have hc : (0:ℚ) < frame.cols := Int.cast_pos.mpr frame.cols_pos
  have hr : (0:ℚ) < frame.rows := Int.cast_pos.mpr frame.rows_pos
  have hr0 := frame.rows_pos
  unfold cropSize
  split_ifs with hz hw hn
  · exact ⟨le_rfl, hr0.le⟩
  · exact absurd (h hz) hw
  · exact absurd (h hz) hw
  · dsimp only
    split_ifs with hratio
    · refine ⟨truncToInt_le_of_le _ _ ?_, le_rfl⟩
      rw [mul_comm]
      exact ((lt_div_iff₀ hr).mp hratio).le
    · have hpos : (0:ℚ) < target.width/target.height :=
        (div_pos hc hr).trans_le (not_lt.mp hratio)
      refine ⟨le_rfl, truncToInt_le_of_le _ _ ?_⟩
      rw [div_le_iff₀ hpos, ← div_le_iff₀' hr]
      exact not_lt.mp hratio

theorem half_margin_within (whole part : ℤ) (h : part ≤ whole) :
    0 ≤ (whole-part).tdiv 2 ∧ (whole-part).tdiv 2+part ≤ whole := by
  rw [Int.tdiv_eq_ediv_of_nonneg (by omega)]
  omega

/-- In every display type `src_rect` lies in the frame it was computed for. -/
theorem resizeConfig_src_within (castNonFinite : ℤ) (t : DisplayType) (target : Rect)
    (frame : Frame) (h : t = .cover → HasRatio target) :
    (resizeConfig castNonFinite t target frame).2.Within frame.whole := by
  cases t with
  | contain => simp [Rect.Within, resizeConfig, containGeometry]
  | cover =>
    obtain ⟨hc,hr⟩ := cropSize_le castNonFinite target frame (h rfl)
    simp only [Rect.Within, resizeConfig, coverGeometry, Frame.whole, zero_add]
    exact ⟨half_margin_within _ _ hc, half_margin_within _ _ hr⟩
  | stretch => simp [Rect.Within, resizeConfig, stretchGeometry]

/-- A configuration fits every box at least as large. -/
theorem Fits.mono (config : NewFrameConfig) (w h w' h' : ℤ) (hf : Fits config w h) (hw : w ≤ w')
    (hh : h ≤ h') : Fits config w' h' :=
  ⟨⟨hf.1.1, hf.1.2.trans hw⟩, ⟨hf.2.1, hf.2.2.trans hh⟩⟩

theorem dstRect_within_iff (target : Rect) (config : NewFrameConfig) :
    (dstRect target config).Within target ↔ Fits config target.width target.height := by
  simp only [Rect.Within, dstRect, Fits, le_add_iff_nonneg_right, add_assoc, add_le_add_iff_left]

theorem within_whole_mono (r : Rect) (f g : Frame) (h : r.Within f.whole) (hc : f.cols ≤ g.cols)
    (hr : f.rows ≤ g.rows) : r.Within g.whole := by
  simp only [Rect.Within, Frame.whole, zero_add] at h ⊢
  omega

section placement
variable (cell : Rect) (frame : Frame)

/-- A frame shown whole and as large as it fits, in the middle of its cell. -/
structure ContainPlaced (config : NewFrameConfig) : Prop where
  fills : config.width = cell.width ∧ config.xOffset = 0 ∨
    config.height = cell.height ∧ config.yOffset = 0
  aspect : -frame.rows < config.width*frame.rows-config.height*frame.cols ∧
    config.width*frame.rows-config.height*frame.cols < frame.cols
  marginX : config.xOffset ≤ cell.width-config.xOffset-config.width ∧
    cell.width-config.xOffset-config.width ≤ config.xOffset+2
  marginY : config.yOffset ≤ cell.height-config.yOffset-config.height ∧
    cell.height-config.yOffset-config.height ≤ config.yOffset+2

/-- The largest part of the frame with the sides of the cell, cut from its middle. -/
structure CoverCropped (src : Rect) : Prop where
  crop : src.height = frame.rows ∧
      IsGreatest {k : ℤ | k*cell.height ≤ frame.rows*cell.width} src.width ∨
    src.width = frame.cols ∧
      IsGreatest {k : ℤ | k*cell.width ≤ frame.cols*cell.height} src.height
  marginX : |(frame.cols-src.x-src.width)-src.x| ≤ 1
  marginY : |(frame.rows-src.y-src.height)-src.y| ≤ 1

/-- What each display type makes of a frame in a cell. -/
def Placed (t : DisplayType) (config : NewFrameConfig) (src : Rect) : Prop :=
  match t with
  | .contain => ContainPlaced cell frame config
  | .cover => dstRect cell config = cell ∧ CoverCropped cell frame src
  | .stretch => dstRect cell config = cell ∧ src = frame.whole

theorem dstRect_whole : dstRect cell ⟨0, 0, cell.width, cell.height⟩ = cell := by
  simp only [dstRect, add_zero]

/-- Scaled to the whole length on one axis, the frame is centred on the other one. -/
theorem scaled_other_axis (w h c r : ℤ) (hw : 0 ≤ w) (hc : 0 < c) (hr : 0 < r)
    (hle : (w:ℚ)/c ≤ (h:ℚ)/r) :
    let length := truncToInt ((r:ℚ)*((w:ℚ)/c))
    let offset := truncToInt (((h:ℚ)-r*((w:ℚ)/c))/2)
    0 ≤ length ∧ (0 ≤ w*r-length*c ∧ w*r-length*c < c) ∧
      offset ≤ h-offset-length ∧ h-offset-length ≤ offset+2 := by
  have hc' : (0:ℚ) < c := Int.cast_pos.mpr hc
  have hr' : (0:ℚ) < r := Int.cast_pos.mpr hr
  have ha0 : 0 ≤ (r:ℚ)*((w:ℚ)/c) := by
    have hw' : (0:ℚ) ≤ w := by exact_mod_cast hw
    positivity
  have ha : (r:ℚ)*((w:ℚ)/c) ≤ h := by
    rw [mul_comm]
    exact (le_div_iff₀ hr').mp hle
  have hexact : (r:ℚ)*((w:ℚ)/c)*c = (w*r : ℤ) := by
    push_cast
    field_simp
  obtain ⟨hlength,-⟩ := truncToInt_of_nonneg _ ha0
  obtain ⟨hmem,hmax⟩ := truncToInt_isGreatest _ (w*r) c hc ha0 hexact
  have hlo : truncToInt ((r:ℚ)*((w:ℚ)/c))*c ≤ w*r := hmem
  have hhi : w*r < (truncToInt ((r:ℚ)*((w:ℚ)/c))+1)*c := by
    by_contra! hnext
    exact absurd (hmax hnext) (by omega)
  rw [add_mul, one_mul] at hhi
  exact ⟨hlength, ⟨by omega, by omega⟩, centred_trunc_margins h _ ha0 ha⟩

theorem containGeometry_placed (hw : 1 ≤ cell.width) (hh : 1 ≤ cell.height) :
    ContainPlaced cell frame (containGeometry cell frame).1 ∧
      0 ≤ (containGeometry cell frame).1.width ∧ 0 ≤ (containGeometry cell frame).1.height := by
  have hc : (frame.cols:ℚ) ≠ 0 := Int.cast_ne_zero.mpr frame.cols_pos.ne'
  have hr : (frame.rows:ℚ) ≠ 0 := Int.cast_ne_zero.mpr frame.rows_pos.ne'
  have hcols := frame.cols_pos
  have hrows := frame.rows_pos
  rcases le_total ((cell.width:ℚ)/frame.cols) ((cell.height:ℚ)/frame.rows) with hle | hle
  · -- as wide as the cell
    obtain ⟨hlength,haspect,hmargin⟩ := scaled_other_axis cell.width cell.height frame.cols
      frame.rows (by omega) frame.cols_pos frame.rows_pos hle
    have hfull : (frame.cols:ℚ)*((cell.width:ℚ)/frame.cols) = cell.width := mul_div_cancel₀ _ hc
    unfold containGeometry
    simp only [min_eq_left hle, hfull, truncToInt_intCast, sub_self, zero_div]
    have hzero : truncToInt 0 = 0 := truncToInt_intCast 0
    refine ⟨⟨Or.inl ⟨rfl, hzero⟩, ⟨?_, haspect.2⟩, ?_, hmargin⟩, by omega, hlength⟩
    · dsimp only
      omega
    · simp only [hzero]
      omega
  · -- as high as the cell
    obtain ⟨hlength,haspect,hmargin⟩ := scaled_other_axis cell.height cell.width frame.rows
      frame.cols (by omega) frame.rows_pos frame.cols_pos hle
    have hfull : (frame.rows:ℚ)*((cell.height:ℚ)/frame.rows) = cell.height := mul_div_cancel₀ _ hr
    unfold containGeometry
    simp only [min_eq_right hle, hfull, truncToInt_intCast, sub_self, zero_div]
    have hzero : truncToInt 0 = 0 := truncToInt_intCast 0
    refine ⟨⟨Or.inr ⟨rfl, hzero⟩, ⟨?_, ?_⟩, hmargin, ?_⟩, hlength, by omega⟩
    · dsimp only
      omega
    · dsimp only
      omega
    · simp only [hzero]
      omega

/-- Half of what is cut off, rounded down, is on either side up to one pixel. -/
theorem half_margin_balanced (whole part : ℤ) (h : part ≤ whole) :
    |(whole-(whole-part).tdiv 2-part)-(whole-part).tdiv 2| ≤ 1 := by
  rw [Int.tdiv_eq_ediv_of_nonneg (by omega), abs_le]
  omega

theorem cropSize_largest (castNonFinite : ℤ) (hw : 1 ≤ cell.width) (hh : 1 ≤ cell.height) :
    let crop := cropSize castNonFinite cell frame
    (0 ≤ crop.1 ∧ 0 ≤ crop.2) ∧
      (crop.2 = frame.rows ∧
          IsGreatest {k : ℤ | k*cell.height ≤ frame.rows*cell.width} crop.1 ∨
        crop.1 = frame.cols ∧
          IsGreatest {k : ℤ | k*cell.width ≤ frame.cols*cell.height} crop.2) := by
  have hw' : (0:ℚ) < cell.width := Int.cast_pos.mpr hw
  have hh' : (0:ℚ) < cell.height := Int.cast_pos.mpr hh
  have hc : (0:ℚ) < frame.cols := Int.cast_pos.mpr frame.cols_pos
  have hr : (0:ℚ) < frame.rows := Int.cast_pos.mpr frame.rows_pos
  unfold cropSize
  rw [if_neg (by omega)]
  dsimp only
  split_ifs with hratio
  · have hpos : 0 ≤ (frame.rows:ℚ)*((cell.width:ℚ)/cell.height) := by positivity
    have hexact : (frame.rows:ℚ)*((cell.width:ℚ)/cell.height)*cell.height =
        (frame.rows*cell.width : ℤ) := by
      push_cast
      field_simp
    exact ⟨⟨(truncToInt_of_nonneg _ hpos).1, frame.rows_pos.le⟩,
      Or.inl ⟨rfl, truncToInt_isGreatest _ _ _ hh hpos hexact⟩⟩
  · have hpos : 0 ≤ (frame.cols:ℚ)/((cell.width:ℚ)/cell.height) := by positivity
    have hexact : (frame.cols:ℚ)/((cell.width:ℚ)/cell.height)*cell.width =
        (frame.cols*cell.height : ℤ) := by
      push_cast
      field_simp
    exact ⟨⟨frame.cols_pos.le, (truncToInt_of_nonneg _ hpos).1⟩,
      Or.inr ⟨rfl, truncToInt_isGreatest _ _ _ hw hpos hexact⟩⟩

theorem coverGeometry_cropped (castNonFinite : ℤ) (hw : 1 ≤ cell.width) (hh : 1 ≤ cell.height) :
    CoverCropped cell frame (coverGeometry castNonFinite cell frame).2 := by
  have hratio : HasRatio cell := fun h => by omega
  obtain ⟨hcols,hrows⟩ := cropSize_le castNonFinite cell frame hratio
  obtain ⟨-,hcrop⟩ := cropSize_largest cell frame castNonFinite hw hh
  exact ⟨hcrop, half_margin_balanced _ _ hcols, half_margin_balanced _ _ hrows⟩

/-- For every cell, frame and display type: the destination lies in the cell and
the source in the frame, without negative sides, and they are what the display
type asks for. -/
theorem add_frames_geometry (castNonFinite : ℤ) (t : DisplayType) (hw : 1 ≤ cell.width)
    (hh : 1 ≤ cell.height) :
    let config := (resizeConfig castNonFinite t cell frame).1
    let src := (resizeConfig castNonFinite t cell frame).2
    (dstRect cell config).Within cell ∧ 0 ≤ config.width ∧ 0 ≤ config.height ∧
      src.Within frame.whole ∧ 0 ≤ src.width ∧ 0 ≤ src.height ∧
      Placed cell frame t config src := by
  have hratio : HasRatio cell := fun h => by omega
  have hdst := (dstRect_within_iff cell _).mpr (resizeConfig_fits castNonFinite t cell frame)
  have hsrc := resizeConfig_src_within castNonFinite t cell frame fun _ => hratio
  have hcols := frame.cols_pos.le
  have hrows := frame.rows_pos.le
  have hw0 : 0 ≤ cell.width := by omega
  have hh0 : 0 ≤ cell.height := by omega
  cases t with
  | contain =>
    obtain ⟨hplaced,hwidth,hheight⟩ := containGeometry_placed cell frame hw hh
    exact ⟨hdst, hwidth, hheight, hsrc, hcols, hrows, hplaced⟩
  | cover =>
    obtain ⟨⟨hwidth,hheight⟩,-⟩ := cropSize_largest cell frame castNonFinite hw hh
    exact ⟨hdst, hw0, hh0, hsrc, hwidth, hheight, dstRect_whole cell,
      coverGeometry_cropped cell frame castNonFinite hw hh⟩
  | stretch =>
    exact ⟨hdst, hw0, hh0, hsrc, hcols, hrows, dstRect_whole cell, rfl⟩

end placement

-- a frame of 7 by 3 in a cell of 5 by 5, cut to 3 by 3
theorem add_frames_geometry_cover :
    (resizeConfig 0 .cover ⟨0, 0, 5, 5⟩ ⟨7, 3, by decide, by decide⟩).2.Within
        (Frame.mk 7 3 (by decide) (by decide)).whole ∧
      CoverCropped ⟨0, 0, 5, 5⟩ ⟨7, 3, by decide, by decide⟩
        (resizeConfig 0 .cover ⟨0, 0, 5, 5⟩ ⟨7, 3, by decide, by decide⟩).2 := by
  obtain ⟨-,-,-,hsrc,-,-,hplaced⟩ := add_frames_geometry ⟨0, 0, 5, 5⟩ ⟨7, 3, by decide, by decide⟩
    0 .cover (by decide) (by decide)
  exact ⟨hsrc, hplaced.2⟩

end CppOperate.Stitch

import CppOperate.DriverShow
import CppOperate.PixelGrid
import Mathlib

/-! The plane that `show_img` sets after a change of the metadata, and the region
that its copy loop fills. -/
namespace CppOperate.Show
open CNumbers PixelGrid

/-- `planes_setting`: fields of `uint32_t`. -/
structure PlanesSetting where
  planeId : ℤ
  fbId : ℤ
  crtcX : ℤ
  crtcY : ℤ
  crtcW : ℤ
  crtcH : ℤ
  srcX : ℤ
  srcY : ℤ
  srcW : ℤ
  srcH : ℤ
deriving DecidableEq, Repr

/-- What `drm_set_plane` hands to the atomic request. -/
structure PlaneValues where
  fbId : ℤ
  crtcX : ℤ
  crtcY : ℤ
  crtcW : ℤ
  crtcH : ℤ
  srcX : ℤ
  srcY : ℤ
  srcW : ℤ
  srcH : ℤ
deriving DecidableEq, Repr

/-- `v << 16` of a `uint32_t`. -/
def shiftLeft16 (v : ℤ) : ℤ := uint32 (v*2^16)

/-- `drm_set_plane`: the source rectangle becomes 16.16 fixed point. -/
def drmSetPlane (ps : PlanesSetting) : PlaneValues where
  fbId := ps.fbId
  crtcX := ps.crtcX
  crtcY := ps.crtcY
  crtcW := ps.crtcW
  crtcH := ps.crtcH
  srcX := shiftLeft16 ps.srcX
  srcY := shiftLeft16 ps.srcY
  srcW := shiftLeft16 ps.srcW
  srcH := shiftLeft16 ps.srcH

/-- `last_x`, `last_y`, `last_width` and `last_height`. -/
structure LastPlane where
  x : ℤ := 0
  y : ℤ := 0
  width : ℕ := 0
  height : ℕ := 0
deriving DecidableEq, Repr

/-- The ids that the plane is set with. -/
structure PlaneIds where
  planeId : ℕ
  fbId : ℕ
deriving DecidableEq, Repr

/-- `ps5` for metadata of these sizes. -/
def planesSetting (screen : Screen) (ids : PlaneIds) (width height : ℕ) : PlanesSetting where
  planeId := ids.planeId
  fbId := ids.fbId
  crtcX := 0
  crtcY := 0
  crtcW := screen.width
  crtcH := screen.height
  srcX := uint32 (position screen.width width)
  srcY := uint32 (position screen.height height)
  srcW := width
  srcH := height

/-- What the loop has passed to `drm_set_plane`, the last call first. -/
structure PlaneState where
  last : LastPlane := {}
  passed : List PlanesSetting := []
deriving DecidableEq, Repr

/-- The block of a changed version: the plane is set when the place or the size
is not the last one. -/
def versionChanged (screen : Screen) (ids : PlaneIds) (s : PlaneState) (size : ℕ × ℕ) :
    PlaneState :=
  let now : LastPlane :=
    { x := position screen.width size.1, y := position screen.height size.2,
      width := size.1, height := size.2 }
  if now ≠ s.last then
    { last := now, passed := planesSetting screen ids size.1 size.2 :: s.passed }
  else s

/-- The region `[start_x, end_x) x [start_y, end_y)` of the copy loop. -/
def region (screen : Screen) (width height : ℕ) : Rect :=
  let spanX := bounds screen.width (position screen.width width) width
  let spanY := bounds screen.height (position screen.height height) height
  ⟨spanX.1, spanY.1, spanX.2-spanX.1, spanY.2-spanY.1⟩

/-- The source rectangle of a setting. -/
def PlanesSetting.src (ps : PlanesSetting) : Rect := ⟨ps.srcX, ps.srcY, ps.srcW, ps.srcH⟩

/-- The source rectangle after the shift. -/
def PlaneValues.src (v : PlaneValues) : Rect := ⟨v.srcX, v.srcY, v.srcW, v.srcH⟩

/-- The source rectangle is the region that is filled, lies in the framebuffer and
keeps its value when it is shifted. -/
def SourceOk (screen : Screen) (width height : ℕ) (ps : PlanesSetting) : Prop :=
  ps.src = region screen width height ∧ ps.src.Within ⟨0, 0, screen.width, screen.height⟩ ∧
    (drmSetPlane ps).src = ⟨ps.srcX*2^16, ps.srcY*2^16, ps.srcW*2^16, ps.srcH*2^16⟩

theorem shiftLeft16_eq (v : ℤ) (h0 : 0 ≤ v) (h : v < 2^16) : shiftLeft16 v = v*2^16 := by
  unfold shiftLeft16 uint32
  omega

section source
variable (screen : Screen) (ids : PlaneIds) (width height : ℕ)
  (hbw : 1 ≤ screen.width ∧ screen.width ≤ 32767) (hbh : 1 ≤ screen.height ∧ screen.height ≤ 32767)
  (hfw : 1 ≤ width ∧ width ≤ 32767) (hfh : 1 ≤ height ∧ height ≤ 32767)

/-- One axis of a frame that fits the screen: it is not cut, and its place is not
negative. -/
theorem axis_fits (w n : ℕ) (hw : w ≤ 32767) (hn : n ≤ w) :
    uint32 (position w n) = position w n ∧ bounds w (position w n) n =
      (position w n, position w n+n) ∧ 0 ≤ position w n ∧ position w n+n ≤ w := by
  have hpos : position w n = (w/2 : ℕ)-(n/2 : ℕ) := int32_eq_self _ (by omega) (by omega)
  have hpos0 : 0 ≤ position w n := by omega
  have hend : position w n+n ≤ w := by omega
  refine ⟨uint32_eq_self _ hpos0 (by omega), ?_, hpos0, hend⟩
  rw [bounds, uint32_eq_self _ (by omega) (by omega), max_eq_right hpos0, min_eq_right hend]

include hbw hbh hfw hfh

/-- The setting for one frame size is sound exactly for frames that fit the screen. -/
theorem planesSetting_ok_iff :
    SourceOk screen width height (planesSetting screen ids width height) ↔
      width ≤ screen.width ∧ height ≤ screen.height := by
  constructor
  · rintro ⟨-,hwithin,-⟩
    have hx := uint32_nonneg (position screen.width width)
    have hy := uint32_nonneg (position screen.height height)
    simp only [Rect.Within, PlanesSetting.src, planesSetting] at hwithin
    omega
  · rintro ⟨hw,hh⟩
    obtain ⟨hx,hspanX,hx0,hxw⟩ := axis_fits screen.width width hbw.2 hw
    obtain ⟨hy,hspanY,hy0,hyh⟩ := axis_fits screen.height height hbh.2 hh
    refine ⟨?_, ?_, ?_⟩
    · simp only [PlanesSetting.src, planesSetting, region, hx, hy, hspanX, hspanY,
        add_sub_cancel_left]
    · simp only [Rect.Within, PlanesSetting.src, planesSetting, hx, hy]
      omega
    · simp only [PlaneValues.src, drmSetPlane, planesSetting, hx, hy]
      rw [shiftLeft16_eq _ hx0 (by omega), shiftLeft16_eq _ hy0 (by omega),
        shiftLeft16_eq _ (by omega) (by omega), shiftLeft16_eq _ (by omega) (by omega)]

end source

/-- Nothing has been passed yet, or the last setting passed is that of the last
size. -/
def PlaneCurrent (screen : Screen) (ids : PlaneIds) (s : PlaneState) : Prop :=
  s = {} ∨ s.passed.head? = some (planesSetting screen ids s.last.width s.last.height)

theorem PlaneCurrent.versionChanged (screen : Screen) (ids : PlaneIds) (s : PlaneState) (size : ℕ × ℕ)
    (hs : PlaneCurrent screen ids s) : PlaneCurrent screen ids (versionChanged screen ids s size) := by
  unfold Show.versionChanged
  dsimp only
  split_ifs with hnow
  · exact Or.inr rfl
  · exact hs

/-- After a change of the version the last setting passed is that of the sizes
the metadata have now, whether the block set the plane or left it. -/
theorem passed_versionChanged (screen : Screen) (ids : PlaneIds) (s : PlaneState) (size : ℕ × ℕ)
    (hs : PlaneCurrent screen ids s) (hsize : 1 ≤ size.1) :
    (versionChanged screen ids s size).passed.head? =
      some (planesSetting screen ids size.1 size.2) := by
  unfold Show.versionChanged
  dsimp only
  split_ifs with hnow
  · rfl
  · rw [not_not] at hnow
    rcases hs with rfl | hhead
    · have hzero : size.1 = 0 := congrArg LastPlane.width hnow
      omega
    · rw [hhead, ← hnow]

/-- After any number of changes of the metadata the plane was last set for the
current sizes, and its source is sound exactly for a frame that fits the screen. -/
theorem set_plane_source (screen : Screen) (ids : PlaneIds)
    (hbw : 1 ≤ screen.width ∧ screen.width ≤ 32767) (hbh : 1 ≤ screen.height ∧ screen.height ≤ 32767)
    (before : List (ℕ × ℕ)) (width height : ℕ)
    (hfw : 1 ≤ width ∧ width ≤ 32767) (hfh : 1 ≤ height ∧ height ≤ 32767) :
    ∃ ps, ((before ++ [(width, height)]).foldl (versionChanged screen ids) {}).passed.head? =
        some ps ∧
      (SourceOk screen width height ps ↔ width ≤ screen.width ∧ height ≤ screen.height) := by
  have hcurrent : PlaneCurrent screen ids (before.foldl (versionChanged screen ids) {}) := by
    induction before using List.reverseRecOn with
    | nil => exact Or.inl rfl
    | append_singleton before size ih =>
      rw [List.foldl_append]
      exact ih.versionChanged screen ids _ size
  refine ⟨planesSetting screen ids width height, ?_, ?_⟩
  · rw [List.foldl_append]
    exact passed_versionChanged screen ids _ (width, height) hcurrent hfw.1
  · exact planesSetting_ok_iff screen ids width height hbw hbh hfw hfh

/-- A screen of 1920 x 1080, of which frames of 1280 x 720 and then of 640 x 480 are shown. -/
theorem set_plane_source_fits : ∃ ps,
    (([(1280, 720)] ++ [(640, 480)]).foldl (versionChanged ⟨1920, 1080, true⟩ ⟨31, 1⟩) {}).passed.head? =
        some ps ∧
      SourceOk ⟨1920, 1080, true⟩ 640 480 ps := by
  obtain ⟨ps,hps,hiff⟩ := set_plane_source ⟨1920, 1080, true⟩ ⟨31, 1⟩ (by decide) (by decide)
    [(1280, 720)] 640 480 (by decide) (by decide)
  exact ⟨ps, hps, hiff.mpr (by decide)⟩

/-- A full HD frame on a screen of 320 x 240: the offsets are negative and wrap. -/
theorem large_frame_source :
    (drmSetPlane (planesSetting ⟨320, 240, true⟩ ⟨31, 1⟩ 1920 1080)).src =
      ⟨2^32-800*2^16, 2^32-420*2^16, 1920*2^16, 1080*2^16⟩ ∧
    region ⟨320, 240, true⟩ 1920 1080 = ⟨0, 0, 320, 240⟩ ∧
    ¬ SourceOk ⟨320, 240, true⟩ 1920 1080 (planesSetting ⟨320, 240, true⟩ ⟨31, 1⟩ 1920 1080) := by
  refine ⟨by decide, by decide, ?_⟩
  rintro ⟨-,hwithin,-⟩
  exact absurd hwithin (by decide)

end CppOperate.Show

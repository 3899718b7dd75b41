import CppOperate.DriverShow
import CppOperate.PixelGrid
import CppOperate.RowMajor
import CppOperate.TestPicture
import Mathlib

/-! Where the copy loop of `show_img` puts the pixels of a frame whose sizes are
those of the metadata. -/
namespace CppOperate.Show
open StepRuns StampedCells CNumbers PixelGrid RowMajor
open Driver (Image)

section pass
variable (screen : Screen) (g : Geometry) (channels : ℕ) (frame : Image)

/-- The pixels of row `r` from column `col` on, read from `src` on. -/
def pixelAccesses (r col src : ℤ) : List Access :=
  (List.range (g.endX-col).toNat).map fun k : ℕ =>
    .pixel frame (src+k*channels) (uint32 (r*screen.width)+(col+k))

def rowAccesses (r : ℤ) : List Access :=
  .row frame (int32 (r-g.y.value)) :: pixelAccesses screen g channels frame r g.startX
    (int32 (r-g.y.value)*frame.rowBytes)

/-- The rows from `r` on. -/
def rowsAccesses (r : ℤ) : List Access :=
  (List.range (g.endY-r).toNat).flatMap fun k : ℕ => rowAccesses screen g channels frame (r+k)

/-- One pass of the copy loop. -/
def passAccesses : List Access := rowsAccesses screen g channels frame g.startY

theorem pixelAccesses_end (r col src : ℤ) (h : ¬ col < g.endX) :
    pixelAccesses screen g channels frame r col src = [] := by
  have hnone : (g.endX-col).toNat = 0 := by omega
  rw [pixelAccesses, hnone]
  rfl

theorem pixelAccesses_cons (r col src : ℤ) (h : col < g.endX) :
    pixelAccesses screen g channels frame r col src =
      .pixel frame src (uint32 (r*screen.width)+col) ::
        pixelAccesses screen g channels frame r (col+1) (src+channels) := by
  have hsome : (g.endX-col).toNat = (g.endX-(col+1)).toNat+1 := by omega
  unfold pixelAccesses
  rw [hsome, List.range_succ_eq_map, List.map_cons, List.map_map, Nat.cast_zero, zero_mul, add_zero,
    add_zero]
  congr 1
  apply List.map_congr_left
  intro k _
  simp only [Function.comp_apply]
  push_cast
  congr 1 <;> ring

theorem rowsAccesses_end (r : ℤ) (h : ¬ r < g.endY) :
    rowsAccesses screen g channels frame r = [] := by
  have hnone : (g.endY-r).toNat = 0 := by omega
  rw [rowsAccesses, hnone]
  rfl

theorem rowsAccesses_cons (r : ℤ) (h : r < g.endY) :
    rowsAccesses screen g channels frame r =
      rowAccesses screen g channels frame r ++ rowsAccesses screen g channels frame (r+1) := by
  have hsome : (g.endY-r).toNat = (g.endY-(r+1)).toNat+1 := by omega
  unfold rowsAccesses
  rw [hsome, List.range_succ_eq_map, List.flatMap_cons, List.flatMap_map, Nat.cast_zero, add_zero]
  congr 1
  apply List.flatMap_congr
  intro k _
  push_cast
  congr 1
  ring

end pass

section run
variable (screen : Screen) (frame : Image)

/-- The loop over a row comes to its end. -/
theorem pixels_run (r col src : ℤ) (s : State) (hpc : s.pc = .pixel frame r col src) :
    Repeats (step screen) .next s { s with
      accesses := s.accesses ++
        pixelAccesses screen s.geometry s.metadata.channels frame r col src
      pc := .row frame (r+1) } := by
  -- by the number of pixels left
  obtain ⟨k,hk⟩ : ∃ k : ℕ, s.geometry.endX-col ≤ k := ⟨_, Int.self_le_toNat _⟩
  induction k generalizing col src s with
  | zero =>
    have hlt : ¬ col < s.geometry.endX := by omega
    rw [pixelAccesses_end _ _ _ _ _ _ _ hlt, List.append_nil]
    apply Repeats.head _ _ (.refl _ _ _)
    simp [step, State.showNext, State.copy, hpc, hlt]
  | succ k ih =>
    by_cases hlt : col < s.geometry.endX
    · let u : State := { s with
        accesses := s.accesses ++ [.pixel frame src (uint32 (r*screen.width)+col)]
        pc := .advance frame r col src }
      let v : State := { u with pc := .pixel frame r (col+1) (src+s.metadata.channels) }
      have hu : step screen s .next = some u := by
        simp [step, State.showNext, State.copy, hpc, hlt, u]
      have hv : step screen u .next = some v := rfl
      have hleft : v.geometry.endX-(col+1) ≤ k := by
        change s.geometry.endX-(col+1) ≤ k
        omega
      have hrest := ih (col+1) (src+s.metadata.channels) v rfl hleft
      rw [pixelAccesses_cons _ _ _ _ _ _ _ hlt, List.append_cons]
      exact .head _ hu (.head _ hv hrest)
    · rw [pixelAccesses_end _ _ _ _ _ _ _ hlt, List.append_nil]
      apply Repeats.head _ _ (.refl _ _ _)
      simp [step, State.showNext, State.copy, hpc, hlt]

theorem rows_run (r : ℤ) (s : State) (hpc : s.pc = .row frame r) :
    Repeats (step screen) .next s { s with
      accesses := s.accesses ++ rowsAccesses screen s.geometry s.metadata.channels frame r
      pc := .loop } := by
  -- by the number of rows left
  obtain ⟨k,hk⟩ : ∃ k : ℕ, s.geometry.endY-r ≤ k := ⟨_, Int.self_le_toNat _⟩
  induction k generalizing r s with
  | zero =>
    have hlt : ¬ r < s.geometry.endY := by omega
    rw [rowsAccesses_end _ _ _ _ _ hlt, List.append_nil]
    apply Repeats.head _ _ (.refl _ _ _)
    simp [step, State.showNext, State.copy, hpc, hlt]
  | succ k ih =>
    by_cases hlt : r < s.geometry.endY
    · let index := int32 (r-s.geometry.y.value)
      let u : State := { s with
        accesses := s.accesses ++ [.row frame index]
        pc := .pixel frame r s.geometry.startX (index*frame.rowBytes) }
      have hu : step screen s .next = some u := by
        simp [step, State.showNext, State.copy, hpc, hlt, u, index]
      let v : State := { u with
        accesses := u.accesses ++ pixelAccesses screen s.geometry s.metadata.channels frame r
          s.geometry.startX (index*frame.rowBytes)
        pc := .row frame (r+1) }
      have hpixels : Repeats (step screen) .next u v :=
        pixels_run screen frame r s.geometry.startX (index*frame.rowBytes) u rfl
      have hleft : v.geometry.endY-(r+1) ≤ k := by
        change s.geometry.endY-(r+1) ≤ k
        omega
      have hrest := ih (r+1) v rfl hleft
      have hrun := Repeats.head _ hu (hpixels.trans _ hrest)
      rw [rowsAccesses_cons _ _ _ _ _ hlt, rowAccesses]
      simpa only [v, u, index, List.append_assoc, List.nil_append, List.cons_append] using hrun
    · rw [rowsAccesses_end _ _ _ _ _ hlt, List.append_nil]
      apply Repeats.head _ _ (.refl _ _ _)
      simp [step, State.showNext, State.copy, hpc, hlt]

/-- A frame that is copied while the metadata stays as it is. -/
theorem pass_run (s : State) (hpc : s.pc = .got (some frame)) (hfull : frame.isEmpty = false)
    (hmapped : screen.mapped = true) : Repeats (step screen) .next s { s with
      accesses := s.accesses ++ passAccesses screen s.geometry s.metadata.channels frame
      pc := .loop } := by
  let u : State := { s with pc := .row frame s.geometry.startY }
  have hu : step screen s .next = some u := by
    simp [step, State.showNext, State.copy, hpc, hfull, hmapped, u]
  exact .head _ hu (rows_run screen frame s.geometry.startY u rfl)

end run

/-- The geometry computed from the sizes of the frame. -/
structure Geometry.For (g : Geometry) (screen : Screen) (frame : Image) : Prop where
  x : g.x.value = position screen.width frame.cols
  y : g.y.value = position screen.height frame.rows
  spanX : g.spanX.value = bounds screen.width g.x.value frame.cols
  spanY : g.spanY.value = bounds screen.height g.y.value frame.rows

/-- From metadata of the sizes of the frame the thread computes that geometry. -/
theorem geometry_run (screen : Screen) (frame : Image) (s : State) (hpc : s.pc = .posX)
    (hw : s.metadata.width.value = frame.cols) (hh : s.metadata.height.value = frame.rows) :
    ∃ t, Repeats (step screen) .next s t ∧ t.pc = .time ∧ t.metadata = s.metadata ∧
      t.geometry.For screen frame := by
  let m := s.metadata
  let g1 : Geometry := { s.geometry with x := m.width.map (position screen.width) }
  let g2 : Geometry := { g1 with y := m.height.map (position screen.height) }
  let g3 : Geometry := { g2 with spanX := m.width.map (bounds screen.width g2.x.value) }
  let g4 : Geometry := { g3 with spanY := m.height.map (bounds screen.height g3.y.value) }
  let s1 : State := { s with geometry := g1, pc := .posY }
  let s2 : State := { s with geometry := g2, pc := .boundX }
  let s3 : State := { s with geometry := g3, pc := .boundY }
  have h1 : step screen s .next = some s1 := by
    simp only [step, State.showNext, hpc]
    rfl
  have h2 : step screen s1 .next = some s2 := rfl
  have h3 : step screen s2 .next = some s3 := rfl
  have h4 : step screen s3 .next = some { s with geometry := g4, pc := .time } := rfl
  have hfor : g4.For screen frame :=
    { x := congrArg (position screen.width) hw
      y := congrArg (position screen.height) hh
      spanX := congrArg (bounds screen.width g2.x.value) hw
      spanY := congrArg (bounds screen.height g3.y.value) hh }
  exact ⟨_, .head _ h1 (.head _ h2 (.head _ h3 (.head _ h4 (.refl _ _ _)))), rfl, rfl, hfor⟩

/-- The screen as a rectangle. -/
def Screen.rect (screen : Screen) : Rect := ⟨0, 0, screen.width, screen.height⟩

/-- The frame centred on the screen; it may be wider or taller. -/
def centred (screen : Screen) (frame : Image) : Rect :=
  ⟨(screen.width/2 : ℕ)-(frame.cols/2 : ℕ), (screen.height/2 : ℕ)-(frame.rows/2 : ℕ),
    frame.cols, frame.rows⟩

/-- Where the pixel in column `c` and row `r` of a frame begins. -/
def pixelOffset (frame : Image) (c r : ℤ) : ℤ :=
  r*frame.rowBytes+c*(frame.channels*frame.elemSize1)

/-- The words that are written, each with the offset its value is read from. -/
def writes (accesses : List Access) : List (ℤ × ℤ) :=
  accesses.filterMap fun a => match a with
    | .row .. => none
    | .pixel _ src dst => some (dst, src)

/-- Where the bytes of a pixel's first three samples lie: fewer than three bytes
when there are fewer channels, more when the samples are wider than a byte. -/
def colourBytes (frame : Image) (c r : ℤ) : List ℤ :=
  (List.range (min 3 frame.channels*frame.elemSize1)).map fun k => pixelOffset frame c r+k

/-- The words written are the pixels of the screen under the centred frame, and
the three bytes `src[0]`, `src[1]` and `src[2]` each is made of are the colours
of the pixel of the frame that lies on it. -/
def PlacedCentred (screen : Screen) (frame : Image) (accesses : List Access) : Prop :=
  (∀ i, (∃ v, origin (writes accesses) i = some v) ↔
    ∃ p ∈ screen.rect.pixels ∩ (centred screen frame).pixels, i = p.2*screen.width+p.1) ∧
  ∀ p ∈ screen.rect.pixels ∩ (centred screen frame).pixels, ∀ v,
    origin (writes accesses) (p.2*screen.width+p.1) = some v →
      [v, v+1, v+2] = colourBytes frame (p.1-(centred screen frame).x) (p.2-(centred screen frame).y)

/-- The screens and frames for which a pass places the frame. -/
def PlacementOk (screen : Screen) (frame : Image) : Prop :=
  frame.cols/2 ≤ screen.width/2 ∧
    (min (screen.height:ℤ) ((centred screen frame).y+frame.rows)-1)*screen.width < 2^32 ∧
    3 ≤ frame.channels ∧ frame.elemSize1 = 1

/-- Every word written is read from where the pixel of the frame begins. -/
def StartsPlaced (screen : Screen) (frame : Image) (accesses : List Access) : Prop :=
  ∀ i v, origin (writes accesses) i = some v ↔
    ∃ p ∈ screen.rect.pixels ∩ (centred screen frame).pixels, i = p.2*screen.width+p.1 ∧
      v = pixelOffset frame (p.1-(centred screen frame).x) (p.2-(centred screen frame).y)

/-- Three bytes are the colours of a pixel when it begins there and has three
samples of one byte or more. -/
theorem colourBytes_eq_iff (frame : Image) (c r v : ℤ) : [v, v+1, v+2] = colourBytes frame c r ↔
    v = pixelOffset frame c r ∧ 3 ≤ frame.channels ∧ frame.elemSize1 = 1 := by
  have hch := frame.channels_pos
  constructor
  · intro h
    have hlen : 3 = min 3 frame.channels*frame.elemSize1 := by
      simpa [colourBytes] using congrArg List.length h
    have hdepth : 3 ≤ frame.channels ∧ frame.elemSize1 = 1 := by
      -- three samples of a byte, or one of three bytes, which no type has
      have hthree : frame.elemSize1 ≠ 3 := by
        have hmod : frame.type % 8 < 8 := Nat.mod_lt _ (by decide)
        unfold Image.elemSize1
        interval_cases frame.type % 8 <;> decide
      have hle : min 3 frame.channels ≤ 3 := min_le_left _ _
      have hmin : 1 ≤ min 3 frame.channels := le_min (by decide) hch
      interval_cases hm : min 3 frame.channels <;> omega
    refine ⟨?_, hdepth⟩
    rw [colourBytes, ← hlen] at h
    simpa [List.range_succ] using h
  · rintro ⟨rfl,hthree,hone⟩
    rw [colourBytes, hone, mul_one, min_eq_left hthree]
    simp [List.range_succ]

/-- Of a frame with a visible pixel. -/
theorem placedCentred_iff (screen : Screen) (frame : Image) (accesses : List Access)
    (hvisible : (screen.rect.pixels ∩ (centred screen frame).pixels).Nonempty) :
    PlacedCentred screen frame accesses ↔
      StartsPlaced screen frame accesses ∧ 3 ≤ frame.channels ∧ frame.elemSize1 = 1 := by
  constructor
  · rintro ⟨hwritten,hcolours⟩
    constructor
    · intro i v
      constructor
      · intro hv
        obtain ⟨p,hp,rfl⟩ := (hwritten i).mp ⟨v, hv⟩
        exact ⟨p, hp, rfl, ((colourBytes_eq_iff frame _ _ v).mp (hcolours p hp v hv)).1⟩
      · rintro ⟨p,hp,rfl,rfl⟩
        obtain ⟨u,hu⟩ := (hwritten _).mpr ⟨p, hp, rfl⟩
        rw [hu, ((colourBytes_eq_iff frame _ _ u).mp (hcolours p hp u hu)).1]
    · obtain ⟨p,hp⟩ := hvisible
      obtain ⟨v,hv⟩ := (hwritten _).mpr ⟨p, hp, rfl⟩
      exact ((colourBytes_eq_iff frame _ _ v).mp (hcolours p hp v hv)).2
  · rintro ⟨hstarts,hdepth⟩
    constructor
    · intro i
      constructor
      · rintro ⟨v,hv⟩
        obtain ⟨p,hp,hi,-⟩ := (hstarts i v).mp hv
        exact ⟨p, hp, hi⟩
      · rintro ⟨p,hp,hi⟩
        exact ⟨_, (hstarts i _).mpr ⟨p, hp, hi, rfl⟩⟩
    · intro p hp v hv
      have hv' := (hstarts _ _).mpr ⟨p, hp, rfl, rfl⟩
      rw [hv, Option.some.injEq] at hv'
      exact (colourBytes_eq_iff frame _ _ v).mpr ⟨hv', hdepth⟩

section placement
variable (screen : Screen) (frame : Image) (g : Geometry) (hg : g.For screen frame)
  (hbw : 1 ≤ screen.width ∧ screen.width < 2^31) (hbh : 1 ≤ screen.height ∧ screen.height < 2^31)
  (hfw : 1 ≤ frame.cols ∧ frame.cols < 2^31) (hfh : 1 ≤ frame.rows ∧ frame.rows < 2^31)

theorem position_eq (w n : ℕ) (hw : w < 2^31) (hn : n < 2^31) :
    position w n = (w/2 : ℕ)-(n/2 : ℕ) :=
  int32_eq_self _ (by omega) (by omega)

/-- With sizes that fit `int` nothing wraps in the bounds. -/
theorem bounds_eq (w n : ℕ) (hw : w < 2^31) (hn : n < 2^31) :
    bounds w ((w/2 : ℕ)-(n/2 : ℕ)) n =
      (max 0 ((w/2 : ℕ)-(n/2 : ℕ) : ℤ), min (w:ℤ) ((w/2 : ℕ)-(n/2 : ℕ)+n)) := by
  unfold bounds
  rw [uint32_eq_self _ (by omega) (by omega)]

include hg hbw hfw in
theorem columns_eq : g.x.value = (centred screen frame).x ∧
    g.startX = max 0 (centred screen frame).x ∧
    g.endX = min (screen.width:ℤ) ((centred screen frame).x+frame.cols) := by
  have hx := hg.x.trans (position_eq _ _ hbw.2 hfw.2)
  have hspan := hg.spanX
  rw [hx, bounds_eq _ _ hbw.2 hfw.2] at hspan
  exact ⟨hx, congrArg Prod.fst hspan, congrArg Prod.snd hspan⟩

include hg hbh hfh in
theorem rows_eq : g.y.value = (centred screen frame).y ∧
    g.startY = max 0 (centred screen frame).y ∧
    g.endY = min (screen.height:ℤ) ((centred screen frame).y+frame.rows) := by
  have hy := hg.y.trans (position_eq _ _ hbh.2 hfh.2)
  have hspan := hg.spanY
  rw [hy, bounds_eq _ _ hbh.2 hfh.2] at hspan
  exact ⟨hy, congrArg Prod.fst hspan, congrArg Prod.snd hspan⟩

/-- The words of a pass, by the row and the column of the screen. -/
theorem mem_writes_pass (channels : ℕ) (i v : ℤ) :
    (i, v) ∈ writes (passAccesses screen g channels frame) ↔
      ∃ r c, (g.startY ≤ r ∧ r < g.endY) ∧ (g.startX ≤ c ∧ c < g.endX) ∧
        i = uint32 (r*screen.width)+c ∧
        v = int32 (r-g.y.value)*frame.rowBytes+(c-g.startX)*channels := by
  unfold writes passAccesses rowsAccesses rowAccesses pixelAccesses
  simp only [List.mem_filterMap, List.mem_flatMap, List.mem_range, List.mem_cons, List.mem_map]
  constructor
  · rintro ⟨a,⟨k,hk,rfl | ⟨l,hl,rfl⟩⟩,ha⟩
    · contradiction
    · cases ha
      refine ⟨g.startY+k, g.startX+l, by omega, by omega, rfl, ?_⟩
      rw [add_sub_cancel_left]
  · rintro ⟨r,c,hr,hc,rfl,rfl⟩
    have hrow : g.startY+((r-g.startY).toNat : ℕ) = r := by omega
    have hcol : ((c-g.startX).toNat : ℤ) = c-g.startX := by omega
    refine ⟨_, ⟨(r-g.startY).toNat, by omega, Or.inr ⟨(c-g.startX).toNat, by omega, rfl⟩⟩, ?_⟩
    rw [hrow, hcol, add_sub_cancel]

include hg hbw hfw hbh hfh

/-- The bounds cut the centred frame to the screen. -/
theorem mem_visible (p : ℤ × ℤ) : p ∈ screen.rect.pixels ∩ (centred screen frame).pixels ↔
    (g.startY ≤ p.2 ∧ p.2 < g.endY) ∧ g.startX ≤ p.1 ∧ p.1 < g.endX := by
  obtain ⟨-,hsx,hex⟩ := columns_eq screen frame g hg hbw hfw
  obtain ⟨-,hsy,hey⟩ := rows_eq screen frame g hg hbh hfh
  have hw : (centred screen frame).width = frame.cols := rfl
  have hh : (centred screen frame).height = frame.rows := rfl
  rw [Set.mem_inter_iff, Rect.mem_pixels, Rect.mem_pixels, hsx, hex, hsy, hey, hw, hh]
  simp only [Screen.rect]
  omega

/-- The first column and the last row that are drawn. -/
theorem visible_corner : g.startX < g.endX ∧ g.startY < g.endY ∧ 0 ≤ g.startX ∧ 0 ≤ g.startY ∧
    g.endX ≤ screen.width ∧ g.endY ≤ screen.height := by
  obtain ⟨-,hsx,hex⟩ := columns_eq screen frame g hg hbw hfw
  obtain ⟨-,hsy,hey⟩ := rows_eq screen frame g hg hbh hfh
  simp only [centred] at hsx hex hsy hey
  omega

omit hbw hfw in
/-- A row index taken as an `int` is the row of the frame. -/
theorem row_eq (r : ℤ) (hr : g.startY ≤ r ∧ r < g.endY) : int32 (r-g.y.value) = r-g.y.value := by
  obtain ⟨hy,hsy,hey⟩ := rows_eq screen frame g hg hbh hfh
  simp only [centred] at hy hsy hey
  exact int32_eq_self _ (by omega) (by omega)

/-- The first word of a row that is drawn. -/
theorem row_index_le (r : ℤ) (hr : g.startY ≤ r ∧ r < g.endY) :
    0 ≤ r*screen.width ∧ r*screen.width ≤ (g.endY-1)*screen.width := by
  obtain ⟨-,-,-,hy0,-,-⟩ := visible_corner screen frame g hg hbw hbh hfw hfh
  constructor
  · exact mul_nonneg (hy0.trans hr.1) (Int.natCast_nonneg _)
  · exact mul_le_mul_of_nonneg_right (by omega) (Int.natCast_nonneg _)

/-- The pass of a frame that `PlacementOk` allows reads each pixel from its start. -/
theorem startsPlaced_of_ok (hok : PlacementOk screen frame) :
    StartsPlaced screen frame (passAccesses screen g frame.channels frame) := by
  obtain ⟨hcols,hwrap,-,hsize⟩ := hok
  obtain ⟨hx,hsx,hex⟩ := columns_eq screen frame g hg hbw hfw
  obtain ⟨hy,-,hey⟩ := rows_eq screen frame g hg hbh hfh
  obtain ⟨-,-,hx0,-,hxw,-⟩ := visible_corner screen frame g hg hbw hbh hfw hfh
  rw [← hey] at hwrap
  have hleft : 0 ≤ (centred screen frame).x := by
    simp only [centred]
    omega
  rw [max_eq_right hleft] at hsx
  have hindex (r : ℤ) (hr : g.startY ≤ r ∧ r < g.endY) : uint32 (r*screen.width) = r*screen.width := by
    obtain ⟨h0,hle⟩ := row_index_le screen frame g hg hbw hbh hfw hfh r hr
    exact uint32_eq_self _ h0 (hle.trans_lt hwrap)
  have hoffset (c : ℤ) : (c-g.startX)*(frame.channels:ℤ) =
      (c-(centred screen frame).x)*(frame.channels*frame.elemSize1) := by
    rw [hsx, hsize, Nat.cast_one, mul_one]
  have hmem (i v : ℤ) : (i, v) ∈ writes (passAccesses screen g frame.channels frame) ↔
      ∃ p ∈ screen.rect.pixels ∩ (centred screen frame).pixels, i = p.2*screen.width+p.1 ∧
        v = pixelOffset frame (p.1-(centred screen frame).x) (p.2-(centred screen frame).y) := by
    rw [mem_writes_pass]
    constructor
    · rintro ⟨r,c,hr,hc,rfl,rfl⟩
      refine ⟨(c, r), (mem_visible screen frame g hg hbw hbh hfw hfh _).mpr ⟨hr, hc⟩, ?_, ?_⟩
      · rw [hindex r hr]
      · rw [row_eq screen frame g hg hbh hfh r hr, hoffset c, pixelOffset, hy]
    · rintro ⟨⟨c,r⟩,hp,rfl,rfl⟩
      obtain ⟨hr,hc⟩ := (mem_visible screen frame g hg hbw hbh hfw hfh _).mp hp
      refine ⟨r, c, hr, hc, ?_, ?_⟩
      · rw [hindex r hr]
      · rw [row_eq screen frame g hg hbh hfh r hr, hoffset c, pixelOffset, hy]
  intro i v
  rw [← hmem]
  apply origin_eq_some_iff
  rintro ⟨i,v⟩ hw ⟨j,u⟩ hu hij
  obtain ⟨⟨c,r⟩,hp,rfl,rfl⟩ := (hmem i v).mp hw
  obtain ⟨⟨d,s⟩,hq,rfl,rfl⟩ := (hmem j u).mp hu
  obtain ⟨-,hc⟩ := (mem_visible screen frame g hg hbw hbh hfw hfh _).mp hp
  obtain ⟨-,hd⟩ := (mem_visible screen frame g hg hbw hbh hfw hfh _).mp hq
  obtain ⟨hrs,hcd⟩ := index_inj screen.width r c s d (by omega) (by omega) hij
  dsimp only
  rw [hrs, hcd]

section placed
variable (h : StartsPlaced screen frame (passAccesses screen g frame.channels frame))
include h

/-- Every visible pixel is written with its own offset. -/
theorem written_of_placed (r c : ℤ) (hr : g.startY ≤ r ∧ r < g.endY)
    (hc : g.startX ≤ c ∧ c < g.endX) :
    (r*screen.width+c, pixelOffset frame (c-(centred screen frame).x)
      (r-(centred screen frame).y)) ∈ writes (passAccesses screen g frame.channels frame) := by
  apply mem_of_origin
  apply (h _ _).mpr
  exact ⟨(c, r), (mem_visible screen frame g hg hbw hbh hfw hfh _).mpr ⟨hr, hc⟩, rfl, rfl⟩

/-- So no row index wraps: a row whose index does is written nowhere. -/
theorem no_wrap_of_placed : (g.endY-1)*screen.width < 2^32 := by
  obtain ⟨hlt,hlt',hx0,-,hxw,-⟩ := visible_corner screen frame g hg hbw hbh hfw hfh
  by_contra! hbig
  have hlast := written_of_placed screen frame g hg hbw hbh hfw hfh h (g.endY-1) g.startX
    (by omega) (by omega)
  obtain ⟨r,c,hr,hc,hplace,-⟩ := (mem_writes_pass screen frame g _ _ _).mp hlast
  obtain ⟨h0,hle⟩ := row_index_le screen frame g hg hbw hbh hfw hfh r hr
  rcases lt_or_ge (r*screen.width) (2^32) with hfit | hover
  · rw [uint32_eq_self _ h0 hfit] at hplace
    have hrow := (index_inj screen.width (g.endY-1) g.startX r c (by omega) (by omega) hplace).1
    rw [hrow] at hbig
    omega
  · have hless : uint32 (r*screen.width) ≤ r*screen.width-2^32 := by
      unfold uint32
      omega
    omega

/-- And every column is read where its pixel begins. -/
theorem column_of_placed (r c : ℤ) (hr : g.startY ≤ r ∧ r < g.endY)
    (hc : g.startX ≤ c ∧ c < g.endX) : (c-g.startX)*(frame.channels:ℤ) =
      (c-(centred screen frame).x)*(frame.channels*frame.elemSize1) := by
  obtain ⟨hy,-,-⟩ := rows_eq screen frame g hg hbh hfh
  obtain ⟨-,-,hx0,-,hxw,-⟩ := visible_corner screen frame g hg hbw hbh hfw hfh
  have hwrap := no_wrap_of_placed screen frame g hg hbw hbh hfw hfh h
  have hwritten := written_of_placed screen frame g hg hbw hbh hfw hfh h r c hr hc
  obtain ⟨s,d,hs,hd,hplace,hvalue⟩ := (mem_writes_pass screen frame g _ _ _).mp hwritten
  obtain ⟨h0,hle⟩ := row_index_le screen frame g hg hbw hbh hfw hfh s hs
  rw [uint32_eq_self _ h0 (hle.trans_lt hwrap)] at hplace
  obtain ⟨rfl,rfl⟩ := index_inj screen.width r c s d (by omega) (by omega) hplace
  rw [row_eq screen frame g hg hbh hfh r hr, pixelOffset, hy] at hvalue
  linarith

/-- A pass that reads every pixel from its start is of a frame no wider than the
screen, up to rounding. -/
theorem cols_le_of_placed : frame.cols/2 ≤ screen.width/2 := by
  obtain ⟨-,hsx,-⟩ := columns_eq screen frame g hg hbw hfw
  obtain ⟨hlt,hlt',-,-,-,-⟩ := visible_corner screen frame g hg hbw hbh hfw hfh
  have hch : (0:ℤ) < frame.channels := by
    have hpos := frame.channels_pos
    omega
  have hes : (0:ℤ) < frame.elemSize1 := by
    have hpos := frame.elemSize1_pos
    omega
  by_contra! hwide
  have hleft : (centred screen frame).x < 0 := by
    simp only [centred]
    omega
  have hzero := column_of_placed screen frame g hg hbw hbh hfw hfh h g.startY g.startX (by omega)
    (by omega)
  rw [sub_self, zero_mul] at hzero
  have hpos : 0 < (g.startX-(centred screen frame).x)*(frame.channels*frame.elemSize1) :=
    mul_pos (by omega) (mul_pos hch hes)
  omega

end placed

/-- A pass places the frame when and only when `PlacementOk` allows it. -/
theorem placedCentred_pass_iff :
    PlacedCentred screen frame (passAccesses screen g frame.channels frame) ↔
      PlacementOk screen frame := by
  have hvisible : (screen.rect.pixels ∩ (centred screen frame).pixels).Nonempty := by
    obtain ⟨hlt,hlt',-⟩ := visible_corner screen frame g hg hbw hbh hfw hfh
    exact ⟨(g.startX, g.startY),
      (mem_visible screen frame g hg hbw hbh hfw hfh _).mpr ⟨⟨le_rfl, hlt'⟩, le_rfl, hlt⟩⟩
  rw [placedCentred_iff screen frame _ hvisible]
  constructor
  · rintro ⟨hstarts,hdepth⟩
    have hcols := cols_le_of_placed screen frame g hg hbw hbh hfw hfh hstarts
    have hwrap := no_wrap_of_placed screen frame g hg hbw hbh hfw hfh hstarts
    obtain ⟨-,-,hey⟩ := rows_eq screen frame g hg hbh hfh
    exact ⟨hcols, hey ▸ hwrap, hdepth⟩
  · intro hok
    exact ⟨startsPlaced_of_ok screen frame g hg hbw hbh hfw hfh hok, hok.2.2⟩

end placement

/-- The part of a centred frame on the screen is what `show_png` draws of it. -/
theorem visible_iff_shown (screen : Screen) (frame : Image)
    (hbw : 1 ≤ screen.width ∧ screen.width < 2^31) (hbh : 1 ≤ screen.height ∧ screen.height < 2^31)
    (hfw : 1 ≤ frame.cols ∧ frame.cols < 2^31) (hfh : 1 ≤ frame.rows ∧ frame.rows < 2^31)
    (p : ℤ × ℤ) : p ∈ screen.rect.pixels ∩ (centred screen frame).pixels ↔
      ∃ j < frame.rows, ∃ i < frame.cols,
        TestPic.Shown ⟨screen.width, screen.height⟩ (centred screen frame).x
          (centred screen frame).y j i ∧
        p = (i+(centred screen frame).x, j+(centred screen frame).y) := by
  have hshown (j i : ℕ) (hj : j < frame.rows) (hi : i < frame.cols) :=
    TestPic.shown_iff ⟨screen.width, screen.height⟩ (centred screen frame).x
      (centred screen frame).y j i hbh.2.le hbw.2.le (by simp only [centred]; omega)
      (by simp only [centred]; omega)
  rw [Set.mem_inter_iff, Rect.mem_pixels, Rect.mem_pixels]
  constructor
  · rintro ⟨⟨hx,hy⟩,hcx,hcy⟩
    have hj : ((p.2-(centred screen frame).y).toNat : ℤ) = p.2-(centred screen frame).y := by omega
    have hi : ((p.1-(centred screen frame).x).toNat : ℤ) = p.1-(centred screen frame).x := by omega
    have hjlt : (p.2-(centred screen frame).y).toNat < frame.rows := by
      have hh : (centred screen frame).height = frame.rows := rfl
      omega
    have hilt : (p.1-(centred screen frame).x).toNat < frame.cols := by
      have hw : (centred screen frame).width = frame.cols := rfl
      omega
    refine ⟨_, hjlt, _, hilt, (hshown _ _ hjlt hilt).mpr ?_, ?_⟩
    · simp only [Screen.rect] at hx hy
      rw [hj, hi]
      dsimp only
      omega
    · rw [hj, hi, sub_add_cancel, sub_add_cancel]
  · rintro ⟨j,hj,i,hi,hs,rfl⟩
    obtain ⟨hrow,hcol⟩ := (hshown j i hj hi).mp hs
    have hw : (centred screen frame).width = frame.cols := rfl
    have hh : (centred screen frame).height = frame.rows := rfl
    dsimp only [Screen.rect] at hrow hcol ⊢
    omega

/-- One pass of the copy loop over a frame of the metadata's sizes: it places the
frame, as `show_png` would, exactly when `PlacementOk` holds. -/
theorem show_img_placement (screen : Screen) (frame : Image) (s : State)
    (hmapped : screen.mapped = true)
    (hbw : 1 ≤ screen.width ∧ screen.width < 2^31) (hbh : 1 ≤ screen.height ∧ screen.height < 2^31)
    (hfw : 1 ≤ frame.cols ∧ frame.cols < 2^31) (hfh : 1 ≤ frame.rows ∧ frame.rows < 2^31)
    (hpc : s.pc = .got (some frame)) (hgeometry : s.geometry.For screen frame)
    (hchannels : s.metadata.channels = frame.channels) :
    ∃ pass, Repeats (step screen) .next s
        { s with accesses := s.accesses ++ pass, pc := .loop } ∧
      (PlacedCentred screen frame pass ↔ PlacementOk screen frame) ∧
      ∀ p, p ∈ screen.rect.pixels ∩ (centred screen frame).pixels ↔
        ∃ j < frame.rows, ∃ i < frame.cols,
          TestPic.Shown ⟨screen.width, screen.height⟩ (centred screen frame).x
            (centred screen frame).y j i ∧
          p = (i+(centred screen frame).x, j+(centred screen frame).y) := by
  have hfull : frame.isEmpty = false := by
    have hpos : frame.rows*frame.cols ≠ 0 := (Nat.mul_pos hfh.1 hfw.1).ne'
    simpa [Driver.Image.isEmpty] using hpos
  have hrun := pass_run screen frame s hpc hfull hmapped
  rw [hchannels] at hrun
  have hplaced := placedCentred_pass_iff screen frame s.geometry hgeometry hbw hbh hfw hfh
  exact ⟨_, hrun, hplaced, visible_iff_shown screen frame hbw hbh hfw hfh⟩

-- frames of eight bits and three channels on a screen of 3 x 2
def narrow : Image := ⟨4, 2, 16, []⟩

def wide : Image := ⟨1, 5, 16, []⟩

def smallScreen : Screen := ⟨3, 2, true⟩

/-- A show thread that has just read a frame with this geometry. -/
def aboutToCopy (g : Geometry) (frame : Image) : State :=
  { init (fun _ => frame) 0 with geometry := g, pc := .got (some frame) }

def narrowGeometry : Geometry :=
  { x := ⟨0, 0⟩, y := ⟨-1, 0⟩, spanX := ⟨(0, 2), 0⟩, spanY := ⟨(0, 2), 0⟩ }

def wideGeometry : Geometry :=
  { x := ⟨-1, 0⟩, y := ⟨1, 0⟩, spanX := ⟨(0, 3), 0⟩, spanY := ⟨(1, 2), 0⟩ }

theorem show_img_placement_tall :
    ∃ pass, Repeats (step smallScreen) .next (aboutToCopy narrowGeometry narrow)
        { aboutToCopy narrowGeometry narrow with
          accesses := (aboutToCopy narrowGeometry narrow).accesses ++ pass, pc := .loop } ∧
      PlacedCentred smallScreen narrow pass := by
  obtain ⟨pass,hrun,hplaced,-⟩ := show_img_placement smallScreen narrow
    (aboutToCopy narrowGeometry narrow) rfl (by decide) (by decide) (by decide) (by decide) rfl
    ⟨by decide, by decide, by decide, by decide⟩ rfl
  exact ⟨pass, hrun, hplaced.mpr ⟨by decide, by decide, by decide, by decide⟩⟩

/-- A frame wider than the screen is drawn from its first column on, not from the
one under the left edge of the screen. -/
theorem wide_frame_shifted : wideGeometry.For smallScreen wide ∧
    writes (passAccesses smallScreen wideGeometry 3 wide) = [(3, 0), (4, 3), (5, 6)] ∧
    ((0, 1) ∈ smallScreen.rect.pixels ∩ (centred smallScreen wide).pixels ∧
      pixelOffset wide (0-(centred smallScreen wide).x) (1-(centred smallScreen wide).y) = 3) ∧
    ¬ PlacedCentred smallScreen wide (passAccesses smallScreen wideGeometry 3 wide) := by
  have hwrites : writes (passAccesses smallScreen wideGeometry 3 wide) = [(3, 0), (4, 3), (5, 6)] := by
    decide
  have hin : ((0, 1) : ℤ × ℤ) ∈ smallScreen.rect.pixels ∩ (centred smallScreen wide).pixels := by
    rw [Set.mem_inter_iff, Rect.mem_pixels, Rect.mem_pixels]
    decide
  refine ⟨⟨by decide, by decide, by decide, by decide⟩, hwrites, ⟨hin, by decide⟩, ?_⟩
  -- the word under the left edge is made of the first column's bytes
  intro h
  have hcolours := h.2 (0, 1) hin 0 (by rw [hwrites]; decide)
  exact absurd hcolours (by decide)

end CppOperate.Show

import CppOperate.CNumbers
import CppOperate.PixelGrid
import Mathlib.Data.List.Range

/-! The grid of `VideoStitch::calculate_grid_layout`: the remainder pixels of
the display go to the first columns and rows, and the rectangles tile it. -/
namespace CppOperate.Stitch
open CNumbers PixelGrid

/-- `display_width_` and `display_height_`. -/
structure Display where
  displayWidth : UInt32
  displayHeight : UInt32
deriving DecidableEq, Repr

namespace Display

def width (d : Display) : ℕ := d.displayWidth.toNat

def height (d : Display) : ℕ := d.displayHeight.toNat

/-- All pixels of the display. -/
def screen (d : Display) : Rect := ⟨0, 0, d.width, d.height⟩

theorem width_lt (d : Display) : d.width < 2^32 := d.displayWidth.toNat_lt

theorem height_lt (d : Display) : d.height < 2^32 := d.displayHeight.toNat_lt

end Display

/-- One pass of the loop of `calculate_grid_layout`: the rectangle pushed for index `i`. -/
def gridRect (cols cellWidth cellHeight widthRemain heightRemain : ℤ) (i : ℕ) : Rect :=
  let row := (i : ℤ).tdiv cols
  let col := (i : ℤ).tmod cols
  { x := col*cellWidth + min col widthRemain
    y := row*cellHeight + min row heightRemain
    width := cellWidth + if col < widthRemain then 1 else 0
    height := cellHeight + if row < heightRemain then 1 else 0 }

/-- `calculate_grid_layout`: the rectangles it appends to `display_rects`. The
quotients are taken in `uint32_t` and stored in `int`. -/
def calculateGridLayout (d : Display) (size rows cols : ℤ) : Except Fault (List Rect) := do
  let cellWidth := int32 (← divUInt32 d.width cols)
  let cellHeight := int32 (← divUInt32 d.height rows)
  let widthRemain := int32 (← modUInt32 d.width cols)
  let heightRemain := int32 (← modUInt32 d.height rows)
  return (List.range size.toNat).map (gridRect cols cellWidth cellHeight widthRemain heightRemain)

/-- The rectangle at index `i` of an even grid. -/
def evenCell (d : Display) (rows cols i : ℕ) : Rect :=
  cell (fun k => (evenCut d.height rows k : ℤ)) (fun k => (evenCut d.width cols k : ℤ))
    (i / cols) (i % cols)

theorem evenCell_width (d : Display) (rows cols i : ℕ) :
    (evenCell d rows cols i).width = evenPart d.width cols (i % cols) := by
  simp only [evenCell, cell, evenCut_succ]
  omega

theorem evenCell_height (d : Display) (rows cols i : ℕ) :
    (evenCell d rows cols i).height = evenPart d.height rows (i / cols) := by
  simp only [evenCell, cell, evenCut_succ]
  omega

/-- With quotients that fit `int`, the two remainder formulas of the loop are
the even split of both sides of the display. -/
theorem gridRect_eq_evenCell (d : Display) (rows cols i : ℕ) :
    gridRect cols (d.width / cols : ℕ) (d.height / rows : ℕ) (d.width % cols : ℕ)
      (d.height % rows : ℕ) i = evenCell d rows cols i := by
  have hdiv : (i : ℤ).tdiv cols = (i / cols : ℕ) := by
    rw [Int.tdiv_eq_ediv_of_nonneg (Int.natCast_nonneg i), Int.natCast_ediv]
  have hmod : (i : ℤ).tmod cols = (i % cols : ℕ) := by
    rw [Int.tmod_eq_emod_of_nonneg (Int.natCast_nonneg i), Int.natCast_emod]
  have hw := evenCell_width d rows cols i
  have hh := evenCell_height d rows cols i
  unfold evenPart at hw hh
  unfold gridRect
  simp only [hdiv, hmod, Nat.cast_lt]
  rw [Rect.mk.injEq]
  refine ⟨?_, ?_, ?_, ?_⟩
  · simp only [evenCell, cell, evenCut]
    push_cast
    rfl
  · simp only [evenCell, cell, evenCut]
    push_cast
    rfl
  · rw [hw]
    push_cast
    rfl
  · rw [hh]
    push_cast
    rfl

/-- `calculate_grid_layout` on a display whose sides fit `int`. -/
theorem calculateGridLayout_eq (d : Display) (size rows cols : ℤ)
    (hw : d.width < 2^31) (hh : d.height < 2^31) (hr : 1 ≤ rows) (hr' : rows < 2^31)
    (hc : 1 ≤ cols) (hc' : cols < 2^31) :
    calculateGridLayout d size rows cols =
      .ok ((List.range size.toNat).map (evenCell d rows.toNat cols.toNat)) := by
  obtain ⟨r, rfl⟩ := Int.eq_ofNat_of_zero_le (show 0 ≤ rows by omega)
  obtain ⟨c, rfl⟩ := Int.eq_ofNat_of_zero_le (show 0 ≤ cols by omega)
  have hcell (w k : ℕ) (hwk : w < 2^31) : int32 ((w:ℤ) / k) = (w / k : ℕ) :=
    int32_natCast (w / k) ((Nat.div_le_self w k).trans_lt hwk)
  have hremain (w k : ℕ) (hwk : w < 2^31) : int32 ((w:ℤ) % k) = (w % k : ℕ) :=
    int32_natCast (w % k) ((Nat.mod_le w k).trans_lt hwk)
  unfold calculateGridLayout
  rw [divUInt32_of_pos _ _ (by omega) (by omega) (by omega) (by omega),
    divUInt32_of_pos _ _ (by omega) (by omega) (by omega) (by omega),
    modUInt32_of_pos _ _ (by omega) (by omega) (by omega) (by omega),
    modUInt32_of_pos _ _ (by omega) (by omega) (by omega) (by omega)]
  simp only [bind, Except.bind, pure, Except.pure, hcell _ _ hw, hcell _ _ hh, hremain _ _ hw,
    hremain _ _ hh, Int.toNat_natCast]
  congr 2
  funext i
  exact gridRect_eq_evenCell d r c i

section evenGrid
variable (d : Display) (rows cols : ℕ) (hr : 0 < rows) (hc : 0 < cols)

theorem cuts_monotone (w k : ℕ) : Monotone fun i => (evenCut w k i : ℤ) :=
  fun _ _ hij => Nat.cast_le.mpr (evenCut_monotone w k hij)

include hr hc in
theorem evenCell_within (i : ℕ) (hi : i < rows*cols) :
    (evenCell d rows cols i).Within d.screen := by
  have h := cell_within _ _ (cuts_monotone d.height rows) (cuts_monotone d.width cols) rows cols
    (i / cols) (i % cols) (Nat.div_lt_of_lt_mul (by rwa [Nat.mul_comm])) (Nat.mod_lt i hc)
  simpa only [evenCell, Display.screen, evenCut_zero, evenCut_last _ _ hr, evenCut_last _ _ hc,
    Nat.cast_zero, sub_zero] using h

theorem evenCell_disjoint (i j : ℕ) (hij : i ≠ j) :
    Disjoint (evenCell d rows cols i).pixels (evenCell d rows cols j).pixels := by
  apply cell_disjoint _ _ (cuts_monotone d.height rows) (cuts_monotone d.width cols)
  by_contra! h
  have hi := Nat.div_add_mod i cols
  have hj := Nat.div_add_mod j cols
  rw [h.1, h.2] at hi
  omega

include hr hc in
theorem exists_evenCell (p : ℤ × ℤ) (hp : p ∈ d.screen.pixels) :
    ∃ i < rows*cols, p ∈ (evenCell d rows cols i).pixels := by
  obtain ⟨⟨hx0,hx⟩,⟨hy0,hy⟩⟩ := hp
  simp only [Display.screen, zero_add] at hx0 hx hy0 hy
  obtain ⟨r,hrr,c,hcc,hpc⟩ := exists_cell (fun i => (evenCut d.height rows i : ℤ))
    (fun j => (evenCut d.width cols j : ℤ)) rows cols p
    (by simpa only [evenCut_zero, evenCut_last _ _ hc] using ⟨hx0,hx⟩)
    (by simpa only [evenCut_zero, evenCut_last _ _ hr] using ⟨hy0,hy⟩)
  refine ⟨c+cols*r, ?_, ?_⟩
  · calc
      c+cols*r < cols+cols*r := by omega
      _ = cols*(r+1) := by ring
      _ ≤ cols*rows := Nat.mul_le_mul_left cols hrr
      _ = rows*cols := Nat.mul_comm _ _
  · unfold evenCell
    rwa [Nat.add_mul_div_left _ _ hc, Nat.div_eq_of_lt hcc, zero_add, Nat.add_mul_mod_self_left,
      Nat.mod_eq_of_lt hcc]

end evenGrid

/-- `calculate_grid_layout` tiles the display: exactly `size` rectangles inside
it, without overlap, of sizes that differ by at most one pixel each way, and
with `rows*cols` of them no pixel is left out. -/
theorem calculate_grid_layout_tiles (d : Display) (size rows cols : ℤ)
    (hw : d.width < 2^31) (hh : d.height < 2^31)
    (hr : 1 ≤ rows) (hr' : rows < 2^31) (hc : 1 ≤ cols) (hc' : cols < 2^31)
    (hs0 : 0 ≤ size) (hs : size ≤ rows*cols) :
    ∃ rects, calculateGridLayout d size rows cols = .ok rects ∧
      (rects.length : ℤ) = size ∧
      (∀ r ∈ rects, r.Within d.screen ∧ 0 ≤ r.width ∧ 0 ≤ r.height) ∧
      rects.Pairwise (fun r s => Disjoint r.pixels s.pixels) ∧
      (∀ r ∈ rects, ∀ s ∈ rects, r.width ≤ s.width+1 ∧ r.height ≤ s.height+1) ∧
      (size = rows*cols → ∀ p ∈ d.screen.pixels,
        ∃! i : Fin rects.length, p ∈ rects[i].pixels) := by
  have hsize : size.toNat ≤ rows.toNat*cols.toNat := by
    rw [← Int.toNat_mul (by omega) (by omega)]
    exact Int.toNat_le_toNat hs
  refine ⟨_, calculateGridLayout_eq d size rows cols hw hh hr hr' hc hc', ?_, ?_, ?_, ?_, ?_⟩
  · rw [List.length_map, List.length_range]
    omega
  · simp only [List.mem_map, List.mem_range]
    rintro _ ⟨i,hi,rfl⟩
    rw [evenCell_width, evenCell_height]
    exact ⟨evenCell_within d _ _ (by omega) (by omega) i (by omega),
      Int.natCast_nonneg _, Int.natCast_nonneg _⟩
  · rw [List.pairwise_map]
    exact List.pairwise_lt_range.imp fun hij => evenCell_disjoint d _ _ _ _ hij.ne
  · simp only [List.mem_map, List.mem_range]
    rintro _ ⟨i,-,rfl⟩ _ ⟨j,-,rfl⟩
    rw [evenCell_width, evenCell_width, evenCell_height, evenCell_height]
    exact ⟨by exact_mod_cast evenPart_le _ _ _ _, by exact_mod_cast evenPart_le _ _ _ _⟩
  · intro hfull p hp
    obtain ⟨i,hi,hpi⟩ := exists_evenCell d rows.toNat cols.toNat (by omega) (by omega) p hp
    have hlen : i < ((List.range size.toNat).map (evenCell d rows.toNat cols.toNat)).length := by
      rw [List.length_map, List.length_range, hfull, Int.toNat_mul (by omega) (by omega)]
      exact hi
    refine ⟨⟨i,hlen⟩, by simpa using hpi, ?_⟩
    intro j hj
    by_contra hne
    have hji : j.val ≠ i := fun h => hne (Fin.ext h)
    exact Set.disjoint_left.mp (evenCell_disjoint d _ _ _ _ hji) (by simpa using hj) hpi

theorem calculate_grid_layout_tiles_uneven :
    ∃ rects, calculateGridLayout ⟨7, 5⟩ 6 2 3 = .ok rects ∧ (rects.length : ℤ) = 6 ∧
      ∀ p ∈ (Display.mk 7 5).screen.pixels, ∃! i : Fin rects.length, p ∈ rects[i].pixels := by
  obtain ⟨rects,hrects,hlen,-,-,-,hcover⟩ := calculate_grid_layout_tiles ⟨7, 5⟩ 6 2 3
    (by decide) (by decide) (by decide) (by decide) (by decide) (by decide) (by decide) (by decide)
  exact ⟨rects, hrects, hlen, hcover (by decide)⟩

end CppOperate.Stitch

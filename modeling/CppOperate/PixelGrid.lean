import Mathlib

/-! Rectangles of pixels, and grids of rectangles cut out of a screen by one
monotone sequence of columns and one of rows. -/
namespace PixelGrid

/-- A rectangle in pixel coordinates, as `cv::Rect` and `im_rect` hold it. -/
structure Rect where
  x : ℤ
  y : ℤ
  width : ℤ
  height : ℤ
deriving DecidableEq, Repr

namespace Rect

/-- The pixels of the rectangle; a width or height that is not positive leaves none. -/
def pixels (r : Rect) : Set (ℤ × ℤ) :=
  {p | (r.x ≤ p.1 ∧ p.1 < r.x+r.width) ∧ (r.y ≤ p.2 ∧ p.2 < r.y+r.height)}

/-- The four sides of `r` lie between those of `s`. -/
def Within (r s : Rect) : Prop :=
  (s.x ≤ r.x ∧ r.x+r.width ≤ s.x+s.width) ∧ (s.y ≤ r.y ∧ r.y+r.height ≤ s.y+s.height)

instance (r s : Rect) : Decidable (Within r s) := by
  unfold Within; infer_instance

theorem mem_pixels (r : Rect) (p : ℤ × ℤ) : p ∈ r.pixels ↔
    (r.x ≤ p.1 ∧ p.1 < r.x+r.width) ∧ (r.y ≤ p.2 ∧ p.2 < r.y+r.height) := Iff.rfl

end Rect

/-- The rectangle in row `i` and column `j` of the grid with row cuts `f` and column cuts `g`. -/
def cell (f g : ℕ → ℤ) (i j : ℕ) : Rect :=
  { x := g j, y := f i, width := g (j+1)-g j, height := f (i+1)-f i }

theorem mem_cell_pixels (f g : ℕ → ℤ) (i j : ℕ) (p : ℤ × ℤ) : p ∈ (cell f g i j).pixels ↔
    p.1 ∈ Set.Ico (g j) (g (j+1)) ∧ p.2 ∈ Set.Ico (f i) (f (i+1)) := by
  simp only [Rect.mem_pixels, cell, Set.mem_Ico, add_sub_cancel]

theorem cell_within (f g : ℕ → ℤ) (hf : Monotone f) (hg : Monotone g) (rows cols i j : ℕ)
    (hi : i < rows) (hj : j < cols) :
    (cell f g i j).Within ⟨g 0, f 0, g cols-g 0, f rows-f 0⟩ := by
  have hgl := hg (Nat.zero_le j)
  have hgr : g (j+1) ≤ g cols := hg hj
  have hfl := hf (Nat.zero_le i)
  have hfr : f (i+1) ≤ f rows := hf hi
  simp only [Rect.Within, cell]
  exact ⟨⟨hgl,by omega⟩,⟨hfl,by omega⟩⟩

/-- Cells at different places of one grid share no pixel. -/
theorem cell_disjoint (f g : ℕ → ℤ) (hf : Monotone f) (hg : Monotone g) (i j k l : ℕ)
    (hne : i ≠ k ∨ j ≠ l) : Disjoint (cell f g i j).pixels (cell f g k l).pixels := by
  rw [Set.disjoint_left]
  intro p hp hq
  rw [mem_cell_pixels] at hp hq
  rcases hne with hik | hjl
  · exact Set.disjoint_left.mp (hf.pairwise_disjoint_on_Ico_succ hik) hp.2 hq.2
  · exact Set.disjoint_left.mp (hg.pairwise_disjoint_on_Ico_succ hjl) hp.1 hq.1

/-- Every pixel between the outer cuts lies in some cell. -/
theorem exists_cell (f g : ℕ → ℤ) (rows cols : ℕ) (p : ℤ × ℤ)
    (hx : p.1 ∈ Set.Ico (g 0) (g cols)) (hy : p.2 ∈ Set.Ico (f 0) (f rows)) :
    ∃ i < rows, ∃ j < cols, p ∈ (cell f g i j).pixels := by
  have hcol := Ico_subset_biUnion_Ico cols g hx
  have hrow := Ico_subset_biUnion_Ico rows f hy
  simp only [Set.mem_iUnion, Finset.mem_range, exists_prop] at hcol hrow
  obtain ⟨j,hj,hpj⟩ := hcol
  obtain ⟨i,hi,hpi⟩ := hrow
  exact ⟨i,hi,j,hj,(mem_cell_pixels f g i j p).mpr ⟨hpj,hpi⟩⟩

/-- Length of part `i` when `w` is split in `k` parts and the remainder goes to the first ones. -/
def evenPart (w k i : ℕ) : ℕ := w / k + if i < w % k then 1 else 0

/-- Where part `i` of that split begins. -/
def evenCut (w k i : ℕ) : ℕ := i*(w / k) + min i (w % k)

@[simp] theorem evenCut_zero (w k : ℕ) : evenCut w k 0 = 0 := by
  simp [evenCut]

/-- The offset formula and the length formula hand the remainder out alike. -/
theorem evenCut_succ (w k i : ℕ) : evenCut w k (i+1) = evenCut w k i + evenPart w k i := by
  unfold evenCut evenPart
  rw [Nat.succ_mul]
  split_ifs <;> omega

theorem evenCut_last (w k : ℕ) (hk : 0 < k) : evenCut w k k = w := by
  have hm := Nat.mod_lt w hk
  have hd := Nat.div_add_mod w k
  unfold evenCut
  omega

theorem evenCut_monotone (w k : ℕ) : Monotone (evenCut w k) := by
  apply monotone_nat_of_le_succ
  intro i
  rw [evenCut_succ]
  exact Nat.le_add_right _ _

theorem evenPart_le (w k i j : ℕ) : evenPart w k i ≤ evenPart w k j + 1 := by
  unfold evenPart
  split_ifs <;> omega

end PixelGrid

import CppOperate.StitchGrid
import Mathlib.Data.Nat.Sqrt

/-! The search of `VideoStitch::calculate_automatic_layout` for a nearly square
grid, and the two ways in which a layout reaches `calculate_grid_layout`. -/
namespace CppOperate.Stitch
open CNumbers PixelGrid

/-- The variables of the search loop. -/
structure Search where
  col : ℤ
  bestCols : ℤ
  bestRows : ℤ
  minEmptyCells : ℤ
deriving DecidableEq, Repr

/-- `floor(sqrt(num_streams))`. -/
def floorSqrt (n : ℤ) : ℤ := Nat.sqrt n.toNat

def searchInit (numStreams : ℤ) : Search :=
  { col := floorSqrt numStreams
    bestCols := 0
    bestRows := floorSqrt numStreams
    minEmptyCells := numStreams }

/-- `num_streams / col`, one more when a remainder is left. -/
def rowsFor (numStreams col : ℤ) : ℤ :=
  numStreams.tdiv col + if numStreams.tmod col ≠ 0 then 1 else 0

/-- The test of the loop body: enough cells, no more empty ones than so far,
sides at most one apart. -/
def accepts (numStreams row : ℤ) (s : Search) : Prop :=
  numStreams ≤ row*s.col ∧ row*s.col-numStreams ≤ s.minEmptyCells ∧ |row-s.col| ≤ 1

instance (n row : ℤ) (s : Search) : Decidable (accepts n row s) := by
  unfold accepts; infer_instance

/-- The loop body with its `++col`. -/
def searchBody (isLandscape : Bool) (numStreams : ℤ) (s : Search) : Except Fault Search :=
  if s.col = 0 then .error .divideByZero else
    let row := rowsFor numStreams s.col
    (checkedInt (row*s.col)).map fun cells =>
      if accepts numStreams row s then
        if isLandscape then
          ⟨s.col+1, s.col, row, cells-numStreams⟩
        else
          ⟨s.col+1, row, s.col, cells-numStreams⟩
      else { s with col := s.col+1 }

/-- The loop, whose bound reads the `best_rows` its body rewrites; `none` when
`fuel` tests of the bound did not end it. -/
def searchLoop (isLandscape : Bool) (numStreams : ℤ) : ℕ → Search → Option (Except Fault Search)
  | 0, _ => none
  | fuel+1, s =>
    if s.col ≤ s.bestRows+2 then
      match searchBody isLandscape numStreams s with
      | .error e => some (.error e)
      | .ok t => searchLoop isLandscape numStreams fuel t
    else some (.ok s)

/-- The `(best_rows, best_cols)` handed to `calculate_grid_layout`. -/
def automaticGrid (isLandscape : Bool) (fuel : ℕ) (numStreams : ℤ) :
    Option (Except Fault (ℤ × ℤ)) :=
  (searchLoop isLandscape numStreams fuel (searchInit numStreams)).map fun r =>
    r.map fun s => (s.bestRows, s.bestCols)

theorem floorSqrt_nonneg (n : ℤ) : 0 ≤ floorSqrt n := Int.natCast_nonneg _

theorem floorSqrt_spec (n : ℤ) (hn : 0 ≤ n) :
    floorSqrt n*floorSqrt n ≤ n ∧ n ≤ floorSqrt n*floorSqrt n+2*floorSqrt n := by
  have hle := Nat.sqrt_le n.toNat
  have hlt := Nat.lt_succ_sqrt n.toNat
  unfold floorSqrt
  zify at hle hlt
  rw [Int.toNat_of_nonneg hn] at hle hlt
  constructor <;> nlinarith

/-- The quotient rounded up is the only row count that is just enough. -/
theorem rowsFor_spec (n c : ℤ) (hn : 0 ≤ n) (hc : 0 < c) :
    (rowsFor n c-1)*c < n ∧ n ≤ rowsFor n c*c := by
  have hd := Int.mul_ediv_add_emod n c
  have hm0 := Int.emod_nonneg n hc.ne'
  have hm := Int.emod_lt_of_pos n hc
  unfold rowsFor
  rw [Int.tdiv_eq_ediv_of_nonneg hn, Int.tmod_eq_emod_of_nonneg hn]
  split_ifs with h
  · have hpos : 0 < n % c := by omega
    constructor <;> nlinarith
  · have hz : n % c = 0 := by omega
    constructor <;> nlinarith

theorem rowsFor_eq (n c m : ℤ) (hn : 0 ≤ n) (hc : 0 < c) (hl : (m-1)*c < n) (hu : n ≤ m*c) :
    rowsFor n c = m := by
  obtain ⟨hsl,hsu⟩ := rowsFor_spec n c hn hc
  have h1 : rowsFor n c-1 < m := lt_of_mul_lt_mul_right (hsl.trans_le hu) hc.le
  have h2 : m-1 < rowsFor n c := lt_of_mul_lt_mul_right (hl.trans_le hsu) hc.le
  omega

/-- One pass of the body once its row count is known. -/
theorem searchBody_eq (b : Bool) (n row : ℤ) (s : Search) (hc : 0 < s.col)
    (hrow : rowsFor n s.col = row) (h0 : 0 ≤ row) (hfit : row*s.col < 2^31) :
    searchBody b n s = .ok (if accepts n row s then
      (if b then ⟨s.col+1, s.col, row, row*s.col-n⟩ else ⟨s.col+1, row, s.col, row*s.col-n⟩)
      else { s with col := s.col+1 }) := by
  have hpos := mul_nonneg h0 hc.le
  unfold searchBody
  simp only [if_neg hc.ne', hrow, checkedInt_of_range _ (show -2^31 ≤ row*s.col by omega) hfit,
    Except.map]

theorem searchLoop_unroll (b : Bool) (n : ℤ) (fuel : ℕ) (s t : Search)
    (hbound : s.col ≤ s.bestRows+2) (hbody : searchBody b n s = .ok t) :
    searchLoop b n (fuel+1) s = searchLoop b n fuel t := by
  rw [searchLoop, if_pos hbound, hbody]

/-- Where the search ends, by the position of `n` between two squares. -/
def bestGrid (isLandscape : Bool) (n r : ℤ) : ℤ × ℤ :=
  if n = r*r then (r, r)
  else if n ≤ r*r+r then (if isLandscape then (r, r+1) else (r+1, r))
  else (r+1, r+1)

section search
variable (isLandscape : Bool) (n r : ℤ) (hr : 1 ≤ r) (hlo : r*r ≤ n) (hhi : n ≤ r*r+2*r)

include hr hlo hhi

theorem rowsFor_late (c : ℤ) (hc : r+2 ≤ c) : 0 ≤ rowsFor n c ∧ rowsFor n c ≤ r := by
  have hn0 : 0 ≤ n := by nlinarith
  obtain ⟨hl,hu⟩ := rowsFor_spec n c hn0 (by omega)
  have hle : rowsFor n c-1 < r := by
    apply lt_of_mul_lt_mul_right (a := c) _ (by omega)
    nlinarith
  have hge : 0 ≤ rowsFor n c := by
    by_contra! hneg
    nlinarith
  omega

/-- From column `r+2` on no candidate is accepted: its row count falls two or
more short of the column count. -/
theorem searchBody_late (s : Search) (hc : r+2 ≤ s.col) (hfit : rowsFor n s.col*s.col < 2^31) :
    searchBody isLandscape n s = .ok { s with col := s.col+1 } := by
  obtain ⟨hge,hle⟩ := rowsFor_late n r hr hlo hhi s.col hc
  rw [searchBody_eq isLandscape n _ s (by omega) rfl hge hfit, if_neg]
  rintro ⟨-,-,habs⟩
  rw [abs_le] at habs
  omega

/-- After the last acceptance the loop only counts up to its bound. -/
theorem searchLoop_late (s : Search) (fuel : ℕ) (hfuel : 3 ≤ fuel) (hc : s.col = r+2)
    (hb : s.bestRows = r ∨ s.bestRows = r+1)
    (hfit : ∀ c, r+2 ≤ c → c ≤ s.bestRows+2 → rowsFor n c*c < 2^31) :
    ∃ t, searchLoop isLandscape n fuel s = some (.ok t) ∧
      t.bestRows = s.bestRows ∧ t.bestCols = s.bestCols := by
  obtain ⟨k, rfl⟩ := Nat.exists_eq_add_of_le' hfuel
  have h1 := searchBody_late isLandscape n r hr hlo hhi s (by omega)
    (hfit s.col (by omega) (by omega))
  rw [searchLoop_unroll _ _ _ _ _ (by omega) h1]
  rcases hb with hb | hb
  · rw [searchLoop, if_neg (by dsimp only; omega)]
    exact ⟨_, rfl, rfl, rfl⟩
  · have h2 := searchBody_late isLandscape n r hr hlo hhi { s with col := s.col+1 }
      (by dsimp only; omega) (hfit (s.col+1) (by omega) (by omega))
    rw [searchLoop_unroll _ _ _ _ _ (by dsimp only; omega) h2,
      searchLoop, if_neg (by dsimp only; omega)]
    exact ⟨_, rfl, rfl, rfl⟩

/-- Two passes decide the grid: a square accepts column count `r`, up to
`r*(r+1)` both counts `r` and `r+1` are accepted, above it only `r+1`. -/
theorem searchBody_twice (hfit : rowsFor n r*r < 2^31)
    (hfit' : rowsFor n (r+1)*(r+1) < 2^31) :
    ∃ s t, searchBody isLandscape n ⟨r, 0, r, n⟩ = .ok s ∧
      s.col ≤ s.bestRows+2 ∧ searchBody isLandscape n s = .ok t ∧ t.col = r+2 ∧
      (t.bestRows, t.bestCols) = bestGrid isLandscape n r := by
  have hn0 : 0 ≤ n := by nlinarith
  unfold bestGrid
  by_cases hsq : n = r*r
  · have hrow1 : rowsFor n r = r := rowsFor_eq n r r hn0 (by omega) (by nlinarith) hsq.le
    have hrow2 : rowsFor n (r+1) = r :=
      rowsFor_eq n (r+1) r hn0 (by omega) (by nlinarith) (by nlinarith)
    rw [hrow1] at hfit
    rw [hrow2] at hfit'
    refine ⟨⟨r+1, r, r, 0⟩, ⟨r+2, r, r, 0⟩, ?_, by dsimp only; omega, ?_, rfl, by rw [if_pos hsq]⟩
    · rw [searchBody_eq _ _ r _ (by dsimp only; omega) hrow1 (by omega) hfit,
        if_pos ⟨hsq.le, by dsimp only; omega, by simp⟩]
      cases isLandscape <;> simp [hsq]
    · rw [searchBody_eq _ _ r _ (by dsimp only; omega) hrow2 (by omega) hfit', if_neg]
      · simp [add_assoc]
      · rintro ⟨-,hempty,-⟩
        dsimp only at hempty
        nlinarith
  · rw [if_neg hsq]
    have hgt : r*r < n := by omega
    by_cases hob : n ≤ r*r+r
    · have hrow1 : rowsFor n r = r+1 :=
        rowsFor_eq n r (r+1) hn0 (by omega) (by nlinarith) (by nlinarith)
      have hrow2 : rowsFor n (r+1) = r :=
        rowsFor_eq n (r+1) r hn0 (by omega) (by nlinarith) (by nlinarith)
      rw [hrow1] at hfit
      rw [hrow2] at hfit'
      have hacc1 : accepts n (r+1) ⟨r, 0, r, n⟩ :=
        ⟨by dsimp only; nlinarith, by dsimp only; nlinarith, by simp⟩
      have h1 := searchBody_eq isLandscape n (r+1) ⟨r, 0, r, n⟩ (by dsimp only; omega) hrow1
        (by omega) hfit
      rw [if_pos hacc1] at h1
      -- the second candidate has as many empty cells as the first and replaces it
      have hacc2 (c d : ℤ) : accepts n r ⟨r+1, c, d, (r+1)*r-n⟩ :=
        ⟨by dsimp only; nlinarith, by dsimp only; nlinarith, by simp⟩
      have h2 (c d : ℤ) := searchBody_eq isLandscape n r ⟨r+1, c, d, (r+1)*r-n⟩
        (by dsimp only; omega) hrow2 (by omega) hfit'
      simp only [if_pos (hacc2 _ _)] at h2
      rw [if_pos hob]
      cases isLandscape
      · exact ⟨_, _, h1, by simp, h2 _ _, by simp [add_assoc], by simp⟩
      · exact ⟨_, _, h1, by simp, h2 _ _, by simp [add_assoc], by simp⟩
    · have hrow2 : rowsFor n (r+1) = r+1 :=
        rowsFor_eq n (r+1) (r+1) hn0 (by omega) (by nlinarith) (by nlinarith)
      rw [hrow2] at hfit'
      obtain ⟨hl,hu⟩ := rowsFor_spec n r hn0 (by omega)
      have hge : r+2 ≤ rowsFor n r := by
        by_contra! hlt
        nlinarith
      have h1 := searchBody_eq isLandscape n _ ⟨r, 0, r, n⟩ (by dsimp only; omega) rfl
        (by dsimp only; omega) hfit
      rw [if_neg (by
        rintro ⟨-,-,habs⟩
        rw [abs_le] at habs
        dsimp only at habs
        omega)] at h1
      have h2 := searchBody_eq isLandscape n (r+1) ⟨r+1, 0, r, n⟩ (by dsimp only; omega) hrow2
        (by omega) hfit'
      rw [if_pos ⟨by dsimp only; nlinarith, by dsimp only; nlinarith, by simp⟩] at h2
      rw [if_neg hob]
      refine ⟨_, _, h1, by dsimp only; omega, h2, ?_, ?_⟩ <;> cases isLandscape <;> simp [add_assoc]

omit hr hlo hhi in
theorem bestGrid_fst : (bestGrid isLandscape n r).1 = r ∨ (bestGrid isLandscape n r).1 = r+1 := by
  unfold bestGrid
  split_ifs <;> simp

/-- The loop ends after at most five tests of its bound, with the best grid, when
no candidate it looks at overflows. -/
theorem searchLoop_bestGrid (fuel : ℕ) (hfuel : 5 ≤ fuel)
    (hfit : ∀ c, r ≤ c → c ≤ (bestGrid isLandscape n r).1+2 → rowsFor n c*c < 2^31) :
    ∃ t, searchLoop isLandscape n fuel ⟨r, 0, r, n⟩ = some (.ok t) ∧
      (t.bestRows, t.bestCols) = bestGrid isLandscape n r := by
  obtain ⟨k, rfl⟩ := Nat.exists_eq_add_of_le' hfuel
  have hrows := bestGrid_fst isLandscape n r
  obtain ⟨s,t,h1,hs,h2,ht,hbest⟩ := searchBody_twice isLandscape n r hr hlo hhi
    (hfit r le_rfl (by omega)) (hfit (r+1) (by omega) (by omega))
  have hfst : t.bestRows = (bestGrid isLandscape n r).1 := congrArg Prod.fst hbest
  rw [← hfst] at hrows hfit
  obtain ⟨u,hu,hur,huc⟩ := searchLoop_late isLandscape n r hr hlo hhi t (k+3) (by omega) ht hrows
    fun c hc => hfit c (by omega)
  rw [searchLoop_unroll _ _ _ _ _ (by dsimp only; omega) h1, searchLoop_unroll _ _ _ _ _ hs h2]
  exact ⟨u, hu, by rw [hur, huc, hbest]⟩

/-- Small counts leave room for every candidate. -/
theorem rowsFor_fits (c : ℤ) (hc : r ≤ c) (hc' : c ≤ r+3) (h : (r+3)^2 < 2^31) :
    rowsFor n c*c < 2^31 := by
  obtain ⟨hl,-⟩ := rowsFor_spec n c (by nlinarith) (by omega)
  nlinarith

end search

theorem bestGrid_covers (b : Bool) (n r : ℤ) (hhi : n ≤ r*r+2*r) :
    n ≤ (bestGrid b n r).1*(bestGrid b n r).2 := by
  unfold bestGrid
  split_ifs <;> dsimp only <;> nlinarith

theorem bestGrid_lastRow (b : Bool) (n r : ℤ) (hr : 1 ≤ r) (hlo : r*r ≤ n) :
    ((bestGrid b n r).1-1)*(bestGrid b n r).2 < n := by
  unfold bestGrid
  split_ifs with hsq
  · dsimp only
    nlinarith
  all_goals
    have hgt : r*r < n := by omega
    dsimp only
    nlinarith

/-- No nearly square grid with enough cells has fewer of them. -/
theorem bestGrid_minimal (b : Bool) (n r : ℤ) (hr : 1 ≤ r) (hlo : r*r ≤ n) (R C : ℕ)
    (hRC : |(R:ℤ)-C| ≤ 1) (henough : n ≤ R*C) :
    (bestGrid b n r).1*(bestGrid b n r).2 ≤ R*C := by
  rw [abs_le] at hRC
  have hoblong (hn : r*r < n) : r*(r+1) ≤ (R:ℤ)*C := by
    -- both sides at most `r` give at most `r*r` cells, so one reaches `r+1` and the other `r`
    have hone : r+1 ≤ R ∨ r+1 ≤ C := by
      by_contra! h
      have := mul_le_mul (show (R:ℤ) ≤ r by omega) (show (C:ℤ) ≤ r by omega) (by omega) (by omega)
      omega
    rcases hone with h | h
    · calc
        r*(r+1) = (r+1)*r := by ring
        _ ≤ R*C := mul_le_mul h (by omega) (by omega) (by omega)
    · exact mul_le_mul (by omega) h (by omega) (by omega)
  unfold bestGrid
  split_ifs with hsq hob hb
  · exact hsq ▸ henough
  · exact hoblong (by omega)
  · simpa only [mul_comm] using hoblong (by omega)
  · have hone : r+1 ≤ (R:ℤ) ∧ r+1 ≤ (C:ℤ) := by
      by_contra! h
      rcases lt_or_ge (R:ℤ) (r+1) with hR | hR
      · have := mul_le_mul (show (R:ℤ) ≤ r by omega) (show (C:ℤ) ≤ r+1 by omega) (by omega)
          (by omega)
        nlinarith
      · have := mul_le_mul (show (R:ℤ) ≤ r+1 by omega) (show (C:ℤ) ≤ r by have := h hR; omega)
          (by omega) (by omega)
        nlinarith
    exact mul_le_mul hone.1 hone.2 (by omega) (by omega)

namespace Display

/-- `aspect_ratio >= 1.0f`. The quotient of two floats of which the first is
smaller stays below one after rounding; a height of 0 gives infinity or NaN. -/
def isLandscape (d : Display) : Bool :=
  if d.height = 0 then decide (0 < d.width)
  else decide (roundToFloat d.height ≤ roundToFloat d.width)

end Display

/-- `calculate_automatic_layout`: the rectangles appended to `display_rects`,
none when the request is rejected. -/
def calculateAutomaticLayout (d : Display) (fuel : ℕ) (numStreams : ℤ) :
    Option (Except Fault (List Rect)) :=
  if numStreams ≤ 0 then some (.ok [])
  else (automaticGrid d.isLandscape fuel numStreams).map fun r =>
    r.bind fun grid => calculateGridLayout d numStreams grid.1 grid.2

/-- `calculate_custom_layout`. -/
def calculateCustomLayout (d : Display) (size customRows customCols : ℤ) :
    Except Fault (List Rect) :=
  (checkedInt (customRows*customCols)).bind fun cells =>
    if cells < size then .ok [] else calculateGridLayout d size customRows customCols

section result
variable (isLandscape : Bool) (n : ℤ) (hn : 1 ≤ n)
include hn

theorem one_le_floorSqrt : 1 ≤ floorSqrt n := by
  have hsqrt := floorSqrt_spec n (by omega)
  by_contra! h
  have h0 : floorSqrt n = 0 := by
    have := floorSqrt_nonneg n
    omega
  rw [h0] at hsqrt
  omega

/-- The grid of the search, as far as no candidate overflows. -/
theorem automaticGrid_eq_of_fits (fuel : ℕ) (hfuel : 5 ≤ fuel)
    (hfit : ∀ c, floorSqrt n ≤ c → c ≤ (bestGrid isLandscape n (floorSqrt n)).1+2 →
      rowsFor n c*c < 2^31) :
    automaticGrid isLandscape fuel n = some (.ok (bestGrid isLandscape n (floorSqrt n))) := by
  have hsqrt := floorSqrt_spec n (by omega)
  obtain ⟨t,ht,hbest⟩ := searchLoop_bestGrid isLandscape n _ (one_le_floorSqrt n hn) hsqrt.1 hsqrt.2
    fuel hfuel hfit
  unfold automaticGrid searchInit
  rw [ht, ← hbest]
  rfl

theorem automaticGrid_eq_bestGrid (hfit : (floorSqrt n+3)^2 < 2^31) (fuel : ℕ) (hfuel : 5 ≤ fuel) :
    automaticGrid isLandscape fuel n = some (.ok (bestGrid isLandscape n (floorSqrt n))) := by
  have hsqrt := floorSqrt_spec n (by omega)
  have hrows := bestGrid_fst isLandscape n (floorSqrt n)
  apply automaticGrid_eq_of_fits isLandscape n hn fuel hfuel
  intro c hc hc'
  exact rowsFor_fits n _ (one_le_floorSqrt n hn) hsqrt.1 hsqrt.2 c hc (by omega) hfit

theorem calculateAutomaticLayout_eq (hfit : (floorSqrt n+3)^2 < 2^31) (fuel : ℕ) (hfuel : 5 ≤ fuel)
    (d : Display) : calculateAutomaticLayout d fuel n =
      some (calculateGridLayout d n (bestGrid d.isLandscape n (floorSqrt n)).1
        (bestGrid d.isLandscape n (floorSqrt n)).2) := by
  unfold calculateAutomaticLayout
  rw [if_neg (by omega), automaticGrid_eq_bestGrid _ n hn hfit fuel hfuel]
  rfl

theorem bestGrid_pos :
    1 ≤ (bestGrid isLandscape n (floorSqrt n)).1 ∧ 1 ≤ (bestGrid isLandscape n (floorSqrt n)).2 := by
  have hr := one_le_floorSqrt n hn
  unfold bestGrid
  split_ifs <;> dsimp only <;> omega

omit hn in
theorem bestGrid_balanced (r : ℤ) :
    |(bestGrid isLandscape n r).1-(bestGrid isLandscape n r).2| ≤ 1 := by
  unfold bestGrid
  split_ifs <;> simp

end result

/-- The search of `calculate_automatic_layout` ends, and hands the nearly square
grid with the fewest empty cells to `calculate_grid_layout`, its longer side
along the longer side of the display and its last row in use. -/
theorem automatic_layout_search (isLandscape : Bool) (n : ℤ) (hn : 1 ≤ n)
    (hfit : (floorSqrt n+3)^2 < 2^31) :
    ∃ rows cols : ℤ,
      (∀ fuel, 5 ≤ fuel → automaticGrid isLandscape fuel n = some (.ok (rows, cols)) ∧
        ∀ d : Display, d.isLandscape = isLandscape →
          calculateAutomaticLayout d fuel n = some (calculateGridLayout d n rows cols)) ∧
      1 ≤ rows ∧ 1 ≤ cols ∧ n ≤ rows*cols ∧ |rows-cols| ≤ 1 ∧ (rows-1)*cols < n ∧
      (∀ R C : ℕ, |(R:ℤ)-C| ≤ 1 → n ≤ R*C → rows*cols-n ≤ R*C-n) ∧
      (isLandscape = true → rows ≤ cols) ∧ (isLandscape = false → cols ≤ rows) := by
  have hsqrt := floorSqrt_spec n (by omega)
  have hr := one_le_floorSqrt n hn
  obtain ⟨hrows,hcols⟩ := bestGrid_pos isLandscape n hn
  refine ⟨(bestGrid isLandscape n (floorSqrt n)).1, (bestGrid isLandscape n (floorSqrt n)).2,
    fun fuel hfuel => ⟨automaticGrid_eq_bestGrid isLandscape n hn hfit fuel hfuel, ?_⟩, hrows, hcols,
    bestGrid_covers _ _ _ hsqrt.2, bestGrid_balanced _ _ _, bestGrid_lastRow _ _ _ hr hsqrt.1,
    ?_, ?_, ?_⟩
  · rintro d rfl
    exact calculateAutomaticLayout_eq n hn hfit fuel hfuel d
  · intro R C hRC henough
    have := bestGrid_minimal isLandscape n _ hr hsqrt.1 R C hRC henough
    omega
  · rintro rfl
    simp only [bestGrid, if_true]
    split_ifs <;> dsimp only <;> omega
  · rintro rfl
    simp only [bestGrid, Bool.false_eq_true, if_false]
    split_ifs <;> dsimp only <;> omega

theorem automatic_layout_search_seven : ∃ rows cols : ℤ,
    automaticGrid false 5 7 = some (.ok (rows, cols)) ∧ 7 ≤ rows*cols ∧ cols ≤ rows := by
  obtain ⟨rows,cols,hgrid,-,-,hcells,-,-,-,-,hside⟩ :=
    automatic_layout_search false 7 (by decide) (by decide +kernel)
  exact ⟨rows, cols, (hgrid 5 le_rfl).1, hcells, hside rfl⟩

end CppOperate.Stitch

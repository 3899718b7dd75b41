import CppOperate.CLoops
import CppOperate.StitchFrames
import Mathlib

/-! `set_layout` with whatever it is asked for: which requests are laid out on the
screen, and which divide by zero, overflow or leave it. The positions of the
cells are computed in `int` here. -/
namespace CppOperate.Stitch
open CNumbers CLoops PixelGrid

/-- `curr_width` and `curr_height`. -/
def currSize (cellSize index remain : ℤ) : Except Fault ℤ :=
  checkedInt (cellSize+if index < remain then 1 else 0)

/-- `x` and `y`. -/
def cellOffset (cellSize index remain : ℤ) : Except Fault ℤ := do
  checkedInt ((← checkedInt (index*cellSize))+min index remain)

/-- `gridRect` as `int` arithmetic. -/
def gridRectInt (cols cellWidth cellHeight widthRemain heightRemain : ℤ) (i : ℕ) :
    Except Fault Rect := do
  let row := (i : ℤ).tdiv cols
  let col := (i : ℤ).tmod cols
  let currWidth ← currSize cellWidth col widthRemain
  let currHeight ← currSize cellHeight row heightRemain
  let x ← cellOffset cellWidth col widthRemain
  let y ← cellOffset cellHeight row heightRemain
  return ⟨x, y, currWidth, currHeight⟩

/-- `calculate_grid_layout` as `int` arithmetic. -/
def gridLayoutInt (d : Display) (size rows cols : ℤ) : Except Fault (List Rect) := do
  let cellWidth := int32 (← divUInt32 d.width cols)
  let cellHeight := int32 (← divUInt32 d.height rows)
  let widthRemain := int32 (← modUInt32 d.width cols)
  let heightRemain := int32 (← modUInt32 d.height rows)
  (List.range size.toNat).mapM (gridRectInt cols cellWidth cellHeight widthRemain heightRemain)

/-- What `set_layout` leaves in `display_rects`. -/
def requestRects (d : Display) (fuel : ℕ) (mode : LayoutMode) (size rows cols : ℤ) :
    Option (Except Fault (List Rect)) :=
  match mode with
  | .automatic =>
    if size ≤ 0 then some (.ok [])
    else (automaticGrid d.isLandscape fuel size).map fun r =>
      r.bind fun grid => gridLayoutInt d size grid.1 grid.2
  | .customGrid =>
    some ((checkedInt (rows*cols)).bind fun cells =>
      if cells < size then .ok [] else gridLayoutInt d size rows cols)

/-- Nothing, or `size` rectangles on the screen that do not overlap. -/
def LaidOut (d : Display) (size : ℤ) (r : Except Fault (List Rect)) : Prop :=
  ∃ rects, r = .ok rects ∧ (rects = [] ∨ (rects.length : ℤ) = size ∧
    (∀ r ∈ rects, r.Within d.screen ∧ 0 ≤ r.width ∧ 0 ≤ r.height) ∧
    rects.Pairwise fun r s => Disjoint r.pixels s.pixels)

theorem cellOffset_eq_ok_iff (cellSize index remain x : ℤ) :
    cellOffset cellSize index remain = .ok x ↔ (-2^31 ≤ index*cellSize ∧ index*cellSize < 2^31) ∧
      x = index*cellSize+min index remain ∧
      -2^31 ≤ index*cellSize+min index remain ∧ index*cellSize+min index remain < 2^31 := by
  unfold cellOffset
  rw [bind_eq_ok_iff]
  simp only [checkedInt_eq_ok_iff]
  constructor
  · rintro ⟨z,⟨rfl,hrange⟩,hx,hsum⟩
    exact ⟨hrange, hx, hsum⟩
  · rintro ⟨hrange,hx,hsum⟩
    exact ⟨_, ⟨rfl, hrange⟩, hx, hsum⟩

/-- A part before the first one begins outside the display. -/
theorem cellOffset_above (cellSize : ℕ) (remain x : ℤ)
    (h : cellOffset cellSize (-1) remain = .ok x) : x < 0 := by
  have hvalue := ((cellOffset_eq_ok_iff _ _ _ _).mp h).2.1
  omega

theorem gridRectInt_eq_ok_iff (cols cw ch wr hr : ℤ) (i : ℕ) (r : Rect) :
    gridRectInt cols cw ch wr hr i = .ok r ↔
      (currSize cw ((i:ℤ).tmod cols) wr = .ok r.width ∧
        cellOffset cw ((i:ℤ).tmod cols) wr = .ok r.x) ∧
      (currSize ch ((i:ℤ).tdiv cols) hr = .ok r.height ∧
        cellOffset ch ((i:ℤ).tdiv cols) hr = .ok r.y) := by
  unfold gridRectInt
  simp only [bind_eq_ok_iff]
  constructor
  · rintro ⟨w,hw,h,hh,x,hx,y,hy,hr⟩
    cases hr
    exact ⟨⟨hw, hx⟩, hh, hy⟩
  · rintro ⟨⟨hw,hx⟩,hh,hy⟩
    exact ⟨_, hw, _, hh, _, hx, _, hy, rfl⟩

/-- Where nothing overflows, the `int` arithmetic gives the rectangle of `gridRect`. -/
theorem gridRectInt_ok (cols cw ch wr hr : ℤ) (i : ℕ) (r : Rect)
    (h : gridRectInt cols cw ch wr hr i = .ok r) : r = gridRect cols cw ch wr hr i := by
  obtain ⟨⟨hw,hx⟩,hh,hy⟩ := (gridRectInt_eq_ok_iff cols cw ch wr hr i r).mp h
  have hw := ((checkedInt_eq_ok_iff _ _).mp hw).1
  have hh := ((checkedInt_eq_ok_iff _ _).mp hh).1
  have hx := ((cellOffset_eq_ok_iff _ _ _ _).mp hx).2.1
  have hy := ((cellOffset_eq_ok_iff _ _ _ _).mp hy).2.1
  cases r
  subst hw hh hx hy
  rfl

/-- The `int` arithmetic of a side of the display cut in `cuts`, up to index `last`. -/
def AxisOk (side cuts last : ℕ) : Prop :=
  side % cuts < 2^31 ∧ evenPart side cuts 0 < 2^31 ∧ evenCut side cuts last < 2^31

section axis
variable (side cuts last : ℕ)

theorem evenPart_le_first (k : ℕ) : evenPart side cuts k ≤ evenPart side cuts 0 := by
  unfold evenPart
  split_ifs <;> omega

/-- A side that fits `int` is cut without overflow. -/
theorem axisOk_of_lt (hside : side < 2^31) (hcuts : last < cuts) : AxisOk side cuts last := by
  have hpos : 0 < cuts := by omega
  have hall : evenCut side cuts cuts = side := evenCut_last side cuts hpos
  have hone : evenCut side cuts 1 ≤ evenCut side cuts cuts := evenCut_monotone side cuts hpos
  have hlast : evenCut side cuts last ≤ evenCut side cuts cuts := evenCut_monotone side cuts hcuts.le
  rw [evenCut_succ, evenCut_zero] at hone
  exact ⟨(Nat.mod_le side cuts).trans_lt hside, by omega, by omega⟩

theorem axis_ok (hok : AxisOk side cuts last) (k : ℕ) (hk : k ≤ last) :
    currSize (int32 (side / cuts : ℕ)) k (int32 (side % cuts : ℕ)) = .ok (evenPart side cuts k : ℕ) ∧
      cellOffset (int32 (side / cuts : ℕ)) k (int32 (side % cuts : ℕ)) =
        .ok (evenCut side cuts k : ℕ) := by
  obtain ⟨hrem,hpart,hcut⟩ := hok
  have hpartk : evenPart side cuts k < 2^31 := (evenPart_le_first side cuts k).trans_lt hpart
  have hcutk : evenCut side cuts k < 2^31 := (evenCut_monotone side cuts hk).trans_lt hcut
  have hdiv : side / cuts < 2^31 := by
    unfold evenPart at hpart
    omega
  rw [int32_natCast _ hdiv, int32_natCast _ hrem]
  constructor
  · have hval : ((side / cuts : ℕ) : ℤ)+(if (k:ℤ) < (side % cuts : ℕ) then 1 else 0) =
        (evenPart side cuts k : ℕ) := by
      rw [evenPart]
      push_cast
      simp only [Nat.cast_lt, ← Int.natCast_emod]
    rw [currSize, hval]
    exact checkedInt_of_range _ (by omega) (by omega)
  · have hval : (k:ℤ)*(side / cuts : ℕ)+min (k:ℤ) (side % cuts : ℕ) = (evenCut side cuts k : ℕ) := by
      rw [evenCut]
      push_cast
      rfl
    have hle : k*(side / cuts) ≤ evenCut side cuts k := Nat.le_add_right _ _
    rw [cellOffset_eq_ok_iff, hval]
    have h0 : (0:ℤ) ≤ k*(side / cuts : ℕ) := by positivity
    exact ⟨⟨h0.trans' (by norm_num), by exact_mod_cast hle.trans_lt hcutk⟩, rfl, by omega, by omega⟩

/-- Otherwise the first or the last part of the side overflows, has a negative
length or begins outside the display. -/
theorem axis_bad (hside : side < 2^32) (hbad : ¬ AxisOk side cuts last) :
    ∃ k, (k = 0 ∨ k = last) ∧ ∀ size offset : ℤ,
      currSize (int32 (side / cuts : ℕ)) k (int32 (side % cuts : ℕ)) = .ok size →
      cellOffset (int32 (side / cuts : ℕ)) k (int32 (side % cuts : ℕ)) = .ok offset →
      ¬ (0 ≤ size ∧ 0 ≤ offset) := by
  have hdivle : side / cuts ≤ side := Nat.div_le_self side cuts
  have hmodle : side % cuts ≤ side := Nat.mod_le side cuts
  by_cases hrem : side % cuts < 2^31
  · rw [int32_natCast _ hrem]
    by_cases hdiv : side / cuts < 2^31
    · rw [int32_natCast _ hdiv]
      by_cases hpart : evenPart side cuts 0 < 2^31
      · -- the offset of the last part is too large
        have hcut : 2^31 ≤ evenCut side cuts last := by
          by_contra! hlt
          exact hbad ⟨hrem, hpart, hlt⟩
        refine ⟨last, Or.inr rfl, ?_⟩
        intro size offset _ hoffset
        obtain ⟨-,-,-,hlt⟩ := (cellOffset_eq_ok_iff _ _ _ _).mp hoffset
        unfold evenCut at hcut
        zify at hcut
        push_cast at hlt
        omega
      · refine ⟨0, Or.inl rfl, ?_⟩
        intro size offset hsize
        obtain ⟨-,-,hlt⟩ := (checkedInt_eq_ok_iff _ _).mp hsize
        unfold evenPart at hpart
        split_ifs at hpart hlt <;> omega
    · refine ⟨0, Or.inl rfl, ?_⟩
      intro size offset hsize
      have hvalue := ((checkedInt_eq_ok_iff _ _).mp hsize).1
      have hneg := int32_of_large (side / cuts : ℕ) (by omega) (by omega)
      -- only a single part is that long, and it leaves no remainder
      have hcuts : cuts = 1 := by
        by_contra hne
        rcases Nat.lt_or_ge cuts 1 with h0 | h2
        · obtain rfl : cuts = 0 := by omega
          simp at hdiv
        · have hhalf : side / cuts ≤ side / 2 := Nat.div_le_div_left (by omega) (by omega)
          omega
      subst hcuts
      rw [Nat.mod_one, Nat.cast_zero, if_neg (lt_irrefl _)] at hvalue
      omega
  · refine ⟨0, Or.inl rfl, ?_⟩
    intro size offset _ hoffset
    have hvalue := ((cellOffset_eq_ok_iff _ _ _ _).mp hoffset).2.1
    have hneg := int32_natCast_neg (side % cuts) (by omega) (by omega)
    omega

end axis

/-- The requests whose rectangles lie on the display: with a negative column
count only its first row does. -/
def GridOk (d : Display) (size rows cols : ℤ) : Prop :=
  (cols < 0 → size ≤ -cols) ∧
    AxisOk d.width (uint32 cols).toNat (min size.toNat cols.natAbs-1) ∧
    AxisOk d.height (uint32 rows).toNat ((size.toNat-1) / cols.natAbs)

section grid
variable (d : Display) (size rows cols : ℤ)

theorem natAbs_le_uint32 (z : ℤ) (h : -2^31 ≤ z) (h' : z < 2^31) :
    z.natAbs ≤ (uint32 z).toNat ∧ (uint32 z).toNat < 2^32 := by
  unfold uint32
  omega

theorem uint32_ne_zero (z : ℤ) (h : -2^31 ≤ z) (h' : z < 2^31) (h0 : z ≠ 0) : uint32 z ≠ 0 := by
  unfold uint32
  omega

theorem divUInt32_eq (n : ℕ) (z : ℤ) (hn : n < 2^32) (hz : uint32 z ≠ 0) :
    divUInt32 n z = .ok (n / (uint32 z).toNat : ℕ) := by
  have h0 : 0 ≤ uint32 z := uint32_nonneg z
  rw [divUInt32, if_neg hz, uint32_eq_self n (by omega) (by omega), Int.natCast_ediv,
    Int.toNat_of_nonneg h0]

theorem modUInt32_eq (n : ℕ) (z : ℤ) (hn : n < 2^32) (hz : uint32 z ≠ 0) :
    modUInt32 n z = .ok (n % (uint32 z).toNat : ℕ) := by
  have h0 : 0 ≤ uint32 z := uint32_nonneg z
  rw [modUInt32, if_neg hz, uint32_eq_self n (by omega) (by omega), Int.natCast_emod,
    Int.toNat_of_nonneg h0]

/-- The pass of the loop for index `i`. -/
def gridPass (i : ℕ) : Except Fault Rect :=
  gridRectInt cols (int32 (d.width / (uint32 cols).toNat : ℕ))
    (int32 (d.height / (uint32 rows).toNat : ℕ)) (int32 (d.width % (uint32 cols).toNat : ℕ))
    (int32 (d.height % (uint32 rows).toNat : ℕ)) i

/-- The rectangle of index `i` in the even split that the converted counts stand for. -/
def requestCell (i : ℕ) : Rect :=
  cell (fun k => (evenCut d.height (uint32 rows).toNat k : ℤ))
    (fun k => (evenCut d.width (uint32 cols).toNat k : ℤ)) (i / cols.natAbs) (i % cols.natAbs)

theorem gridLayoutInt_eq (hr : uint32 rows ≠ 0) (hc : uint32 cols ≠ 0) :
    gridLayoutInt d size rows cols = (List.range size.toNat).mapM (gridPass d rows cols) := by
  unfold gridLayoutInt
  rw [divUInt32_eq _ _ d.width_lt hc, divUInt32_eq _ _ d.height_lt hr,
    modUInt32_eq _ _ d.width_lt hc, modUInt32_eq _ _ d.height_lt hr]
  rfl

theorem gridLayoutInt_zero (h : uint32 rows = 0 ∨ uint32 cols = 0) :
    gridLayoutInt d size rows cols = .error .divideByZero := by
  unfold gridLayoutInt
  rcases h with hr | hc
  · by_cases hc : uint32 cols = 0
    · rw [divUInt32, if_pos hc]
      rfl
    · rw [divUInt32_eq _ _ d.width_lt hc, divUInt32, if_pos hr]
      rfl
  · rw [divUInt32, if_pos hc]
    rfl

/-- The row and the column of index `i`, as far as the column count allows. -/
theorem index_split (i : ℕ) (hi : (i:ℤ) < size) (hneg : cols < 0 → size ≤ -cols) :
    (i:ℤ).tmod cols = (i % cols.natAbs : ℕ) ∧ (i:ℤ).tdiv cols = (i / cols.natAbs : ℕ) := by
  obtain ⟨c, rfl | rfl⟩ := Int.eq_nat_or_neg cols
  · rw [Int.natAbs_natCast]
    exact ⟨(Int.ofNat_tmod i c).symm, (Int.ofNat_tdiv i c).symm⟩
  · have hdiv : i / c = 0 := by
      rcases Nat.eq_zero_or_pos c with rfl | hc
      · exact Nat.div_zero i
      · have hfew := hneg (by omega)
        exact Nat.div_eq_of_lt (by omega)
    rw [Int.natAbs_neg, Int.natAbs_natCast, Int.tmod_neg, Int.tdiv_neg, ← Int.ofNat_tmod,
      ← Int.ofNat_tdiv, hdiv]
    exact ⟨rfl, rfl⟩

variable (hr : rows ≠ 0) (hc : cols ≠ 0) (hrows : -2^31 ≤ rows ∧ rows < 2^31)
  (hcols : -2^31 ≤ cols ∧ cols < 2^31) (hcells : size ≤ rows*cols)

include hc in
/-- The rectangle of a sound request is a cell of the even split of both sides. -/
theorem gridPass_ok (hok : GridOk d size rows cols) (i : ℕ) (hi : (i:ℤ) < size) :
    gridPass d rows cols i = .ok (requestCell d rows cols i) := by
  obtain ⟨hneg,hwidth,hheight⟩ := hok
  obtain ⟨hmod,hdiv⟩ := index_split size cols i hi hneg
  have hcol : i % cols.natAbs ≤ min size.toNat cols.natAbs-1 := by
    have hlt := Nat.mod_lt i (Int.natAbs_pos.mpr hc)
    have hle := Nat.mod_le i cols.natAbs
    omega
  have hrow : i / cols.natAbs ≤ (size.toNat-1) / cols.natAbs := Nat.div_le_div_right (by omega)
  obtain ⟨hw,hx⟩ := axis_ok _ _ _ hwidth _ hcol
  obtain ⟨hh,hy⟩ := axis_ok _ _ _ hheight _ hrow
  rw [gridPass, gridRectInt_eq_ok_iff, hmod, hdiv, hw, hx, hh, hy]
  simp only [requestCell, cell, evenCut_succ, Nat.cast_add, add_sub_cancel_left, and_self]

include hc hrows hcells in
/-- Enough cells: every row index stays below the row count. -/
theorem row_lt_rows (i : ℕ) (hi : (i:ℤ) < size) : i / cols.natAbs < (uint32 rows).toNat := by
  have hpos := Int.natAbs_pos.mpr hc
  have hle := (natAbs_le_uint32 rows hrows.1 hrows.2).1
  have hprod : rows*cols ≤ (rows.natAbs*cols.natAbs : ℕ) := by
    rw [← Int.natAbs_mul]
    exact Int.le_natAbs
  apply Nat.lt_of_lt_of_le _ hle
  rw [Nat.div_lt_iff_lt_mul hpos]
  omega

include hr hc hrows hcols

/-- Every pass of a request that is laid out gives a rectangle on the display. -/
theorem gridPass_of_laidOut (h : LaidOut d size (gridLayoutInt d size rows cols)) (i : ℕ)
    (hi : (i:ℤ) < size) :
    ∃ r, gridPass d rows cols i = .ok r ∧ r.Within d.screen ∧ 0 ≤ r.width ∧ 0 ≤ r.height := by
  obtain ⟨rects,hrects,hall⟩ := h
  rw [gridLayoutInt_eq d size rows cols (uint32_ne_zero rows hrows.1 hrows.2 hr)
    (uint32_ne_zero cols hcols.1 hcols.2 hc)] at hrects
  have hwithin : ∀ r ∈ rects, r.Within d.screen ∧ 0 ≤ r.width ∧ 0 ≤ r.height := by
    rcases hall with rfl | ⟨-,hwithin,-⟩
    · exact List.forall_mem_nil _
    · exact hwithin
  exact (mapM_ok_forall_iff _ _ _).mp ⟨rects, hrects, hwithin⟩ i (List.mem_range.mpr (by omega))

include hcells

theorem laidOut_of_gridOk (hsize : 0 ≤ size) (hok : GridOk d size rows cols) :
    LaidOut d size (gridLayoutInt d size rows cols) := by
  have hcolsle := (natAbs_le_uint32 cols hcols.1 hcols.2).1
  have hpos := Int.natAbs_pos.mpr hc
  refine ⟨(List.range size.toNat).map (requestCell d rows cols), ?_, Or.inr ⟨?_, ?_, ?_⟩⟩
  · rw [gridLayoutInt_eq d size rows cols (uint32_ne_zero rows hrows.1 hrows.2 hr)
      (uint32_ne_zero cols hcols.1 hcols.2 hc), mapM_eq_ok_iff, List.forall₂_map_right_iff,
      List.forall₂_same]
    intro i hi
    rw [List.mem_range] at hi
    exact gridPass_ok d size rows cols hc hok i (by omega)
  · rw [List.length_map, List.length_range]
    omega
  · simp only [List.mem_map, List.mem_range]
    rintro _ ⟨i,hi,rfl⟩
    have hrow := row_lt_rows size rows cols hc hrows hcells i (by omega)
    have hcol := (Nat.mod_lt i hpos).trans_le hcolsle
    have hwithin := cell_within _ _ (cuts_monotone d.height (uint32 rows).toNat)
      (cuts_monotone d.width (uint32 cols).toNat) _ _ _ _ hrow hcol
    rw [evenCut_zero, evenCut_zero, evenCut_last _ _ (Nat.zero_lt_of_lt hrow),
      evenCut_last _ _ (Nat.zero_lt_of_lt hcol), Nat.cast_zero, sub_zero, sub_zero] at hwithin
    refine ⟨hwithin, ?_, ?_⟩
    · exact sub_nonneg.mpr (cuts_monotone d.width _ (Nat.le_succ _))
    · exact sub_nonneg.mpr (cuts_monotone d.height _ (Nat.le_succ _))
  · rw [List.pairwise_map]
    refine List.pairwise_lt_range.imp ?_
    intro i j hij
    apply cell_disjoint _ _ (cuts_monotone d.height _) (cuts_monotone d.width _)
    by_contra! h
    have hi := Nat.div_add_mod i cols.natAbs
    have hj := Nat.div_add_mod j cols.natAbs
    rw [h.1, h.2] at hi
    omega

/-- With a negative column count index `-cols` is the first of row -1, above the
display. -/
theorem size_le_of_laidOut (h : LaidOut d size (gridLayoutInt d size rows cols)) (hlt : cols < 0) :
    size ≤ -cols := by
  by_contra! hmany
  have hrneg : rows < 0 := by
    by_contra! h0
    nlinarith
  have huint : 2^31 ≤ (uint32 rows).toNat := by
    unfold uint32
    omega
  have hdiv : d.height / (uint32 rows).toNat < 2 := by
    rw [Nat.div_lt_iff_lt_mul (by omega)]
    have hheight := d.height_lt
    omega
  have hrow : (cols.natAbs : ℤ).tdiv cols = -1 := by
    rw [show (cols.natAbs : ℤ) = -cols by omega, Int.neg_tdiv, Int.tdiv_self hc]
  obtain ⟨r,hpass,⟨-,hy,-⟩,-⟩ :=
    gridPass_of_laidOut d size rows cols hr hc hrows hcols h cols.natAbs (by omega)
  rw [gridPass, gridRectInt_eq_ok_iff, hrow,
    int32_natCast (d.height / (uint32 rows).toNat) (by omega)] at hpass
  exact absurd hy (not_le.mpr (cellOffset_above _ _ _ hpass.2.2))

theorem gridOk_of_laidOut (hsize : 0 < size) (h : LaidOut d size (gridLayoutInt d size rows cols)) :
    GridOk d size rows cols := by
  have hpos := Int.natAbs_pos.mpr hc
  have hpass := gridPass_of_laidOut d size rows cols hr hc hrows hcols h
  have hneg := size_le_of_laidOut d size rows cols hr hc hrows hcols hcells h
  refine ⟨hneg, ?_, ?_⟩
  · by_contra hbad
    obtain ⟨k,hk,hfault⟩ := axis_bad _ _ _ d.width_lt hbad
    have hklt : (k:ℤ) < size ∧ k < cols.natAbs := by omega
    obtain ⟨r,hpass,⟨⟨hx,-⟩,-⟩,hw,-⟩ := hpass k hklt.1
    rw [gridPass, gridRectInt_eq_ok_iff, (index_split size cols k hklt.1 hneg).1,
      Nat.mod_eq_of_lt hklt.2] at hpass
    exact hfault _ _ hpass.1.1 hpass.1.2 ⟨hw, hx⟩
  · by_contra hbad
    obtain ⟨k,hk,hfault⟩ := axis_bad _ _ _ d.height_lt hbad
    have hle : k*cols.natAbs ≤ size.toNat-1 := by
      rcases hk with rfl | rfl
      · omega
      · exact Nat.div_mul_le_self _ _
    have hklt : ((k*cols.natAbs : ℕ) : ℤ) < size := by omega
    obtain ⟨r,hpass,⟨-,hy,-⟩,-,hh⟩ := hpass _ hklt
    rw [gridPass, gridRectInt_eq_ok_iff, (index_split size cols _ hklt hneg).2,
      Nat.mul_div_cancel _ hpos] at hpass
    exact hfault _ _ hpass.2.1 hpass.2.2 ⟨hh, hy⟩

theorem gridLayoutInt_laidOut_iff (hsize : 0 < size) :
    LaidOut d size (gridLayoutInt d size rows cols) ↔ GridOk d size rows cols :=
  ⟨gridOk_of_laidOut d size rows cols hr hc hrows hcols hcells hsize,
    laidOut_of_gridOk d size rows cols hr hc hrows hcols hcells hsize.le⟩

omit hr in
/-- On a display whose sides fit `int` only the column count decides. -/
theorem gridOk_iff (hsize : 0 < size) (hw : d.width < 2^31) (hh : d.height < 2^31) :
    GridOk d size rows cols ↔ (cols < 0 → size ≤ -cols) := by
  have hpos := Int.natAbs_pos.mpr hc
  have hcolsle := (natAbs_le_uint32 cols hcols.1 hcols.2).1
  have hrow := row_lt_rows size rows cols hc hrows hcells (size.toNat-1) (by omega)
  exact and_iff_left ⟨axisOk_of_lt _ _ _ hw (by omega), axisOk_of_lt _ _ _ hh hrow⟩

end grid

/-- Largest number of streams for which no candidate of the search overflows. -/
def searchLimit (isLandscape : Bool) : ℤ := if isLandscape then 2147441938 else 2147441934

section search
variable (isLandscape : Bool) (n : ℤ)

/-- A candidate whose cells do not fit `int` ends the search. -/
theorem searchLoop_overflow (fuel : ℕ) (hfuel : 1 ≤ fuel) (s : Search) (hc : 0 < s.col)
    (hbound : s.col ≤ s.bestRows+2) (hbig : 2^31 ≤ rowsFor n s.col*s.col) :
    searchLoop isLandscape n fuel s = some (.error .intOverflow) := by
  obtain ⟨k, rfl⟩ := Nat.exists_eq_add_of_le' hfuel
  have hbody : searchBody isLandscape n s = .error .intOverflow := by
    unfold searchBody
    dsimp only
    rw [if_neg hc.ne', checkedInt, if_neg (by omega)]
    rfl
  rw [searchLoop, if_pos hbound, hbody]

/-- The only root at which a candidate can overflow is the largest one. -/
theorem floorSqrt_large (hn : 2147395600 ≤ n) (hn' : n < 2^31) : floorSqrt n = 46340 := by
  obtain ⟨hlo,hhi⟩ := floorSqrt_spec n (by omega)
  have h0 := floorSqrt_nonneg n
  have hle : floorSqrt n < 46341 := by nlinarith
  have hge : 46339 < floorSqrt n := by nlinarith
  omega

/-- Up to the limit every candidate fits: the cells of a candidate exceed the
streams by less than its columns. -/
theorem searchFits (hn : 1 ≤ n) (hlimit : n ≤ searchLimit isLandscape) (c : ℤ)
    (hc : floorSqrt n ≤ c) (hc' : c ≤ (bestGrid isLandscape n (floorSqrt n)).1+2) :
    rowsFor n c*c < 2^31 := by
  have hr := one_le_floorSqrt n hn
  have hrows := bestGrid_fst isLandscape n (floorSqrt n)
  have hlimit' : n ≤ 2147441938 := by
    unfold searchLimit at hlimit
    split_ifs at hlimit <;> omega
  rcases lt_or_ge n 2147395600 with hsmall | hlarge
  · obtain ⟨hl,-⟩ := rowsFor_spec n c (by omega) (by omega)
    obtain ⟨hlo,-⟩ := floorSqrt_spec n (by omega)
    have hroot : floorSqrt n < 46340 := by nlinarith
    have hcle : c ≤ 46342 := by omega
    linarith
  · have hroot := floorSqrt_large n hlarge (by omega)
    rw [hroot] at hc hc' hrows
    have hcases : c = 46340 ∨ c = 46341 ∨ c = 46342 ∨ c = 46343 := by omega
    have hle (m : ℤ) (hm : n ≤ m*c) (hlast : m*c < 2^31) : rowsFor n c*c < 2^31 := by
      obtain ⟨hl,-⟩ := rowsFor_spec n c (by omega) (by omega)
      have hlt : rowsFor n c-1 < m := lt_of_mul_lt_mul_right (hl.trans_le hm) (by omega)
      have hmul := mul_le_mul_of_nonneg_right (show rowsFor n c ≤ m by omega) (show 0 ≤ c by omega)
      omega
    rcases hcases with rfl | rfl | rfl | rfl
    · exact hle 46341 (by omega) (by norm_num)
    · exact hle 46340 (by omega) (by norm_num)
    · exact hle 46339 (by omega) (by norm_num)
    · apply hle 46338 _ (by norm_num)
      -- only the portrait search looks at four candidates
      cases isLandscape with
      | false => exact hlimit.trans (by decide)
      | true =>
        have hob : n ≤ 46340*46340+46340 := hlimit'.trans (by norm_num)
        have hfst : (bestGrid true n 46340).1 = 46340 := by
          unfold bestGrid
          rw [if_pos hob, if_pos rfl]
          split_ifs <;> rfl
        rw [hfst] at hc'
        norm_num at hc'

/-- Above the limit the first, the third or the fourth candidate overflows. -/
theorem automaticGrid_overflow (hn : searchLimit isLandscape < n) (hn' : n < 2^31) (fuel : ℕ)
    (hfuel : 5 ≤ fuel) : automaticGrid isLandscape fuel n = some (.error .intOverflow) := by
  have hlarge : 2147441934 < n := by
    unfold searchLimit at hn
    split_ifs at hn <;> omega
  have hroot := floorSqrt_large n (by omega) hn'
  have hlo : (46340:ℤ)*46340 ≤ n := by omega
  have hhi : n ≤ 46340*46340+2*46340 := by omega
  have hbig (m c : ℤ) (hc : 0 < c) (hm : m*c < n) (hfit : 2^31 ≤ (m+1)*c) :
      2^31 ≤ rowsFor n c*c := by
    obtain ⟨-,hu⟩ := rowsFor_spec n c (by omega) hc
    have hlt : m < rowsFor n c := lt_of_mul_lt_mul_right (hm.trans_le hu) hc.le
    exact hfit.trans (mul_le_mul_of_nonneg_right hlt hc.le)
  suffices h : searchLoop isLandscape n fuel ⟨46340, 0, 46340, n⟩ = some (.error .intOverflow) by
    unfold automaticGrid searchInit
    rw [hroot, h]
    rfl
  rcases lt_or_ge (46340*46340+46340) n with hfirst | hob
  · exact searchLoop_overflow isLandscape n fuel (by omega) _ (by norm_num) (by norm_num)
      (hbig 46341 46340 (by norm_num) (by omega) (by norm_num))
  · -- the grid is settled after two candidates, and the loop goes on to its bound
    have hrow : rowsFor n 46340 = 46341 :=
      rowsFor_eq n 46340 46341 (by omega) (by norm_num) (by omega) (by omega)
    have hrow' : rowsFor n (46340+1) = 46340 :=
      rowsFor_eq n _ 46340 (by omega) (by norm_num) (by omega) (by omega)
    obtain ⟨s,t,hs,hsb,ht,htc,hbest⟩ := searchBody_twice isLandscape n 46340 (by norm_num) hlo hhi
      (by rw [hrow]; norm_num) (by rw [hrow']; norm_num)
    have hfst : t.bestRows = (bestGrid isLandscape n 46340).1 := congrArg Prod.fst hbest
    have hrows := bestGrid_fst isLandscape n 46340
    obtain ⟨k, rfl⟩ := Nat.exists_eq_add_of_le' hfuel
    rw [searchLoop_unroll _ _ _ _ _ (by norm_num) hs, searchLoop_unroll _ _ _ _ _ hsb ht]
    rcases lt_or_ge 2147441938 n with hthird | hfourth
    · apply searchLoop_overflow isLandscape n _ (by omega) t (by omega) (by omega)
      rw [htc]
      exact hbig 46339 _ (by norm_num) (by omega) (by norm_num)
    · have hportrait : isLandscape = false := by
        cases isLandscape with
        | false => rfl
        | true => exact absurd hn (not_lt.mpr hfourth)
      subst hportrait
      have hlast : t.bestRows = 46341 := by
        rw [hfst, bestGrid, if_neg (by omega), if_pos hob]
        rfl
      have hbody := searchBody_late false n 46340 (by norm_num) hlo hhi t (by omega) (by
        rw [htc, rowsFor_eq n _ 46339 (by omega) (by norm_num) (by omega) (by omega)]
        norm_num)
      rw [searchLoop_unroll _ _ _ _ _ (by omega) hbody]
      apply searchLoop_overflow false n _ (by omega) _ (by dsimp only; omega) (by dsimp only; omega)
      dsimp only
      rw [htc]
      exact hbig 46338 _ (by norm_num) (by omega) (by norm_num)

end search

/-- The requests that `set_layout` lays out or rejects. -/
def RequestOk (d : Display) (mode : LayoutMode) (size rows cols : ℤ) : Prop :=
  match mode with
  | .automatic =>
    size ≤ 0 ∨ (size ≤ searchLimit d.isLandscape ∧
      GridOk d size (bestGrid d.isLandscape size (floorSqrt size)).1
        (bestGrid d.isLandscape size (floorSqrt size)).2)
  | .customGrid =>
    (-2^31 ≤ rows*cols ∧ rows*cols < 2^31) ∧
      (rows*cols < size ∨ (rows ≠ 0 ∧ cols ≠ 0) ∧ (size ≤ 0 ∨ GridOk d size rows cols))

theorem laidOut_nil (d : Display) (size : ℤ) : LaidOut d size (.ok []) :=
  ⟨[], rfl, Or.inl rfl⟩

theorem not_laidOut_error (d : Display) (size : ℤ) (e : Fault) : ¬ LaidOut d size (.error e) := by
  rintro ⟨rects,h,-⟩
  contradiction

section request
variable (d : Display) (size rows cols : ℤ)

/-- A size that asks for nothing leaves the list empty once the quotients are defined. -/
theorem gridLayoutInt_of_nonpos (hr : uint32 rows ≠ 0) (hc : uint32 cols ≠ 0) (hsize : size ≤ 0) :
    gridLayoutInt d size rows cols = .ok [] := by
  rw [gridLayoutInt_eq d size rows cols hr hc, Int.toNat_of_nonpos hsize]
  rfl

theorem automatic_laidOut_iff (hsize' : size < 2^31) (fuel : ℕ) (hfuel : 5 ≤ fuel) :
    ∃ r, requestRects d fuel .automatic size rows cols = some r ∧
      (LaidOut d size r ↔ RequestOk d .automatic size rows cols) := by
  unfold requestRects RequestOk
  dsimp only
  by_cases hsize : size ≤ 0
  · rw [if_pos hsize]
    exact ⟨_, rfl, iff_of_true (laidOut_nil d size) (Or.inl hsize)⟩
  have hn : 1 ≤ size := by omega
  rw [if_neg hsize]
  by_cases hlimit : size ≤ searchLimit d.isLandscape
  · rw [automaticGrid_eq_of_fits d.isLandscape size hn fuel hfuel
      (searchFits d.isLandscape size hn hlimit)]
    refine ⟨_, rfl, ?_⟩
    obtain ⟨hrows,hcols⟩ := bestGrid_pos d.isLandscape size hn
    have hsqrt := floorSqrt_spec size (by omega)
    have hcells := bestGrid_covers d.isLandscape size (floorSqrt size) hsqrt.2
    have hroot : floorSqrt size < 46341 := by nlinarith [floorSqrt_nonneg size]
    have hsmall : (bestGrid d.isLandscape size (floorSqrt size)).1 < 2^31 ∧
        (bestGrid d.isLandscape size (floorSqrt size)).2 < 2^31 := by
      have habs := bestGrid_balanced d.isLandscape size (floorSqrt size)
      have hfst := bestGrid_fst d.isLandscape size (floorSqrt size)
      rw [abs_le] at habs
      omega
    have hgrid := gridLayoutInt_laidOut_iff d size _ _ (by omega) (by omega)
      ⟨by omega, hsmall.1⟩ ⟨by omega, hsmall.2⟩ hcells hn
    exact hgrid.trans ⟨fun h => Or.inr ⟨hlimit, h⟩, fun h => (h.resolve_left hsize).2⟩
  · rw [automaticGrid_overflow d.isLandscape size (by omega) hsize' fuel hfuel]
    refine ⟨_, rfl, iff_of_false (not_laidOut_error d size _) ?_⟩
    rintro (h | h)
    · exact hsize h
    · exact hlimit h.1

theorem custom_laidOut_iff (hrows : -2^31 ≤ rows ∧ rows < 2^31) (hcols : -2^31 ≤ cols ∧ cols < 2^31)
    (fuel : ℕ) : ∃ r, requestRects d fuel .customGrid size rows cols = some r ∧
      (LaidOut d size r ↔ RequestOk d .customGrid size rows cols) := by
  unfold requestRects RequestOk
  dsimp only
  refine ⟨_, rfl, ?_⟩
  by_cases hfit : -2^31 ≤ rows*cols ∧ rows*cols < 2^31
  · rw [checkedInt, if_pos hfit, and_iff_right hfit]
    dsimp only [Except.bind]
    by_cases hfew : rows*cols < size
    · rw [if_pos hfew]
      exact iff_of_true (laidOut_nil d size) (Or.inl hfew)
    rw [if_neg hfew, or_iff_right hfew]
    by_cases hzero : rows ≠ 0 ∧ cols ≠ 0
    · rw [and_iff_right hzero]
      by_cases hsize : size ≤ 0
      · rw [gridLayoutInt_of_nonpos d size rows cols (uint32_ne_zero rows hrows.1 hrows.2 hzero.1)
          (uint32_ne_zero cols hcols.1 hcols.2 hzero.2) hsize]
        exact iff_of_true (laidOut_nil d size) (Or.inl hsize)
      · rw [or_iff_right hsize]
        exact gridLayoutInt_laidOut_iff d size rows cols hzero.1 hzero.2 hrows hcols (by omega)
          (by omega)
    · rw [gridLayoutInt_zero d size rows cols (by
        rw [not_and_or, not_not, not_not] at hzero
        refine hzero.imp ?_ ?_ <;> rintro rfl <;> rfl)]
      exact iff_of_false (not_laidOut_error d size _) fun h => hzero h.1
  · rw [checkedInt, if_neg hfit]
    exact iff_of_false (not_laidOut_error d size _) fun h => hfit h.1

theorem calculateGridLayout_of_gridLayoutInt (rows cols : ℤ) (rects : List Rect)
    (h : gridLayoutInt d size rows cols = .ok rects) :
    calculateGridLayout d size rows cols = .ok rects := by
  by_cases hzero : uint32 rows = 0 ∨ uint32 cols = 0
  · rw [gridLayoutInt_zero d size rows cols hzero] at h
    contradiction
  · obtain ⟨hr,hc⟩ := not_or.mp hzero
    rw [gridLayoutInt_eq d size rows cols hr hc, mapM_eq_ok_iff] at h
    have heach := h.imp fun i r hpass => (gridRectInt_ok _ _ _ _ _ i r hpass).symm
    rw [← List.forall₂_map_left_iff, List.forall₂_eq_eq_eq] at heach
    unfold calculateGridLayout
    rw [divUInt32_eq _ _ d.width_lt hc, divUInt32_eq _ _ d.height_lt hr,
      modUInt32_eq _ _ d.width_lt hc, modUInt32_eq _ _ d.height_lt hr]
    exact congrArg Except.ok heach

/-- Where the `int` arithmetic is defined, its rectangles are those of `layoutRects`. -/
theorem layoutRects_of_requestRects (mode : LayoutMode) (rects : List Rect)
    (h : requestRects d searchFuel mode size rows cols = some (.ok rects)) :
    layoutRects d mode size rows cols = some (.ok rects) := by
  have hgrid := calculateGridLayout_of_gridLayoutInt d size
  cases mode with
  | automatic =>
    unfold requestRects at h
    unfold layoutRects calculateAutomaticLayout
    dsimp only at h ⊢
    split_ifs at h ⊢ with hsize
    · exact h
    · cases hsearch : automaticGrid d.isLandscape searchFuel size with
      | none =>
        rw [hsearch] at h
        contradiction
      | some result =>
        rw [hsearch, Option.map_some, Option.some.injEq] at h
        cases result with
        | error e => contradiction
        | ok grid => exact congrArg some (hgrid _ _ _ h)
  | customGrid =>
    unfold requestRects at h
    unfold layoutRects calculateCustomLayout
    dsimp only at h ⊢
    rw [Option.some.injEq] at h ⊢
    cases hcells : checkedInt (rows*cols) with
    | error e =>
      rw [hcells] at h
      contradiction
    | ok cells =>
      rw [hcells] at h
      dsimp only [Except.bind] at h ⊢
      split_ifs at h ⊢
      · exact h
      · exact hgrid _ _ _ h

end request

/-- `set_layout` rejects a request or lays it out on the screen exactly when the
request is sound, and computes without undefined arithmetic only then. -/
theorem set_layout_request (d : Display) (mode : LayoutMode) (size rows cols : ℤ)
    (hsize : -2^31 ≤ size ∧ size < 2^31) (hrows : -2^31 ≤ rows ∧ rows < 2^31)
    (hcols : -2^31 ≤ cols ∧ cols < 2^31) (fuel : ℕ) (hfuel : 5 ≤ fuel) :
    ∃ r, requestRects d fuel mode size rows cols = some r ∧
      (LaidOut d size r ↔ RequestOk d mode size rows cols) := by
  cases mode with
  | automatic => exact automatic_laidOut_iff d size rows cols hsize.2 fuel hfuel
  | customGrid => exact custom_laidOut_iff d size rows cols hrows hcols fuel

/-- Three streams on two rows of two are laid out; the default counts are not. -/
theorem set_layout_request_default :
    (∃ r, requestRects ⟨1920, 1080⟩ 5 .customGrid 3 2 2 = some r ∧ LaidOut ⟨1920, 1080⟩ 3 r) ∧
    (∃ r, requestRects ⟨1920, 1080⟩ 5 .customGrid 0 0 0 = some r ∧ ¬ LaidOut ⟨1920, 1080⟩ 0 r) := by
  obtain ⟨r,hr,hiff⟩ := set_layout_request ⟨1920, 1080⟩ .customGrid 3 2 2 (by decide) (by decide)
    (by decide) 5 le_rfl
  obtain ⟨r',hr',hiff'⟩ := set_layout_request ⟨1920, 1080⟩ .customGrid 0 0 0 (by decide) (by decide)
    (by decide) 5 le_rfl
  have hok : RequestOk ⟨1920, 1080⟩ .customGrid 3 2 2 :=
    ⟨by decide, Or.inr ⟨by decide, Or.inr ⟨by decide, ⟨by decide, by decide, by decide⟩,
      ⟨by decide, by decide, by decide⟩⟩⟩⟩
  have hzero : ¬ RequestOk ⟨1920, 1080⟩ .customGrid 0 0 0 := by
    rintro ⟨-,hfew | ⟨⟨hrows,-⟩,-⟩⟩
    · exact absurd hfew (by decide)
    · exact hrows rfl
  exact ⟨⟨r, hr, hiff.mpr hok⟩, ⟨r', hr', mt hiff'.mp hzero⟩⟩

/-- What a grid of -2 rows and -3 columns gives for six streams. -/
def negativeCounts : List Rect :=
  [⟨0, 0, 1, 1⟩, ⟨1, 0, 1, 1⟩, ⟨2, 0, 1, 1⟩, ⟨0, -1, 1, 1⟩, ⟨1, -1, 1, 1⟩, ⟨2, -1, 1, 1⟩]

/-- The default counts divide by zero, two negative counts place cells above the
screen, and a large product overflows. -/
theorem set_layout_unsound :
    (requestRects ⟨1920, 1080⟩ 5 .customGrid 0 0 0 = some (.error .divideByZero) ∧
      ¬ LaidOut ⟨1920, 1080⟩ 0 (.error .divideByZero)) ∧
    (requestRects ⟨1920, 1080⟩ 5 .customGrid 6 (-2) (-3) = some (.ok negativeCounts) ∧
      ¬ LaidOut ⟨1920, 1080⟩ 6 (.ok negativeCounts)) ∧
    (requestRects ⟨1920, 1080⟩ 5 .customGrid 1 65536 65536 = some (.error .intOverflow) ∧
      ¬ LaidOut ⟨1920, 1080⟩ 1 (.error .intOverflow)) := by
  refine ⟨⟨rfl, not_laidOut_error _ _ _⟩, ⟨by decide +kernel, ?_⟩, ⟨rfl, not_laidOut_error _ _ _⟩⟩
  rintro ⟨rects,hrects,hall⟩
  cases hrects
  rcases hall with hnil | ⟨-,hwithin,-⟩
  · contradiction
  · exact absurd (hwithin ⟨0, -1, 1, 1⟩ (by decide)).1 (by decide)

end CppOperate.Stitch

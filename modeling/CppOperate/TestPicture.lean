import CppOperate.CLoops
import CppOperate.RowMajor
import Mathlib

/-! The picture test of the display: `decode_png` copies the rows that libpng
delivers to one buffer, and `show_png` draws it at any place of the screen. -/
namespace CppOperate.TestPic
open CNumbers CLoops RowMajor

/-- What libpng tells of an image. -/
structure Png where
  width : ℕ
  height : ℕ
  channels : ℕ
  bitDepth : ℕ
  width_range : 1 ≤ width ∧ width < 2^31
  height_range : 1 ≤ height ∧ height < 2^31
  channels_range : 1 ≤ channels ∧ channels ≤ 4
  bitDepth_eq : bitDepth = 8 ∨ bitDepth = 16
deriving DecidableEq, Repr

/-- `png_get_rowbytes`. -/
def Png.rowbytes (png : Png) : ℕ := png.width*png.channels*png.bitDepth/8

/-- The fields of `png_file` that `show_png` reads, and the size of its buffer. -/
structure PngFile where
  Bpp : ℤ
  size : ℤ
  rowsize : ℤ
  width : ℤ
  height : ℤ
deriving DecidableEq, Repr

/-- `decode_png` up to the allocation of the buffer. -/
def decodePng (png : Png) : Except Fault PngFile := do
  let Bpp := int32 png.channels
  let width := int32 png.width
  let height := int32 png.height
  let rowsize := int32 png.rowbytes
  let area ← checkedInt (width*height)
  let size ← checkedInt (area*Bpp)
  return { Bpp := Bpp, size := size, rowsize := rowsize, width := width, height := height }

/-- The loop of `decode_png`: the offset and the length of each `memcpy`, whose
length is a `size_t`. -/
def copyRows (rowsize : ℤ) : ℕ → ℤ → List (ℤ × ℤ)
  | 0, _ => []
  | rows+1, bufCpy => (bufCpy, rowsize % 2^64) :: copyRows rowsize rows (bufCpy+rowsize)

def PngFile.copies (pfd : PngFile) : List (ℤ × ℤ) := copyRows pfd.rowsize pfd.height.toNat 0

/-- The bytes of the buffer that `decode_png` has written. -/
def PngFile.written (pfd : PngFile) : Set ℤ := {b | ∃ c ∈ pfd.copies, c.1 ≤ b ∧ b < c.1+c.2}

/-- `buf.width` and `buf.height`. -/
structure Screen where
  width : ℕ
  height : ℕ
deriving DecidableEq, Repr

/-- The test of `show_png`, in which the sums become unsigned. -/
def Shown (buf : Screen) (x y : ℤ) (j i : ℕ) : Prop :=
  uint32 (j+y) < buf.height ∧ uint32 (i+x) < buf.width

/-- A pixel that is drawn: the first of the three bytes read and the word written. -/
structure Access where
  src : ℤ
  dst : ℤ
deriving DecidableEq, Repr

/-- The index `(j * pfd->width + i) * pfd->Bpp`, of which `+ 2` is read too. -/
def readPixel (pfd : PngFile) (j i : ℕ) : Except Fault ℤ := do
  let first ← checkedInt (j*pfd.width)
  let place ← checkedInt (first+i)
  let src ← checkedInt (place*pfd.Bpp)
  let _ ← checkedInt (src+2)
  return src

/-- The body of the loops of `show_png`; `none` for a pixel that is clipped. -/
def showPixel (pfd : PngFile) (buf : Screen) (x y : ℤ) (j i : ℕ) : Except Fault (Option Access) := do
  let row ← checkedInt (j+y)
  if uint32 row < buf.height then
    let col ← checkedInt (i+x)
    if uint32 col < buf.width then
      let src ← readPixel pfd j i
      return some ⟨src, uint32 (row*buf.width+col)⟩
    else return none
  else return none

/-- `show_png`. -/
def showPng (pfd : PngFile) (buf : Screen) (x y : ℤ) : Except Fault (List (Option Access)) :=
  (List.range pfd.height.toNat ×ˢ List.range pfd.width.toNat).mapM fun p =>
    showPixel pfd buf x y p.1 p.2

/-- The three bytes read were copied, and the word written is one of the screen. -/
def Access.Safe (pfd : PngFile) (buf : Screen) (p : Access) : Prop :=
  (∀ k : ℕ, k < 3 → p.src+k ∈ pfd.written) ∧ 0 ≤ p.dst ∧ p.dst < buf.width*buf.height

/-- The copies of `decode_png` stay in its buffer and the drawing of `show_png`
is safe. -/
def Safe (png : Png) (buf : Screen) (x y : ℤ) : Prop :=
  ∃ pfd, decodePng png = .ok pfd ∧ (∀ c ∈ pfd.copies, 0 ≤ c.1 ∧ c.1+c.2 ≤ pfd.size) ∧
    ∃ drawn, showPng pfd buf x y = .ok drawn ∧ ∀ r ∈ drawn, ∀ p ∈ r, p.Safe pfd buf

/-- The images and places at which the test is safe. -/
def PictureOk (png : Png) (buf : Screen) (x y : ℤ) : Prop :=
  (png.bitDepth = 8 ∧ png.width*png.height*png.channels < 2^31) ∧
    (png.height-1+y < 2^31 ∧
      ((∃ j < png.height, uint32 (j+y) < buf.height) → png.width-1+x < 2^31)) ∧
    (3 ≤ png.channels ∨ ∀ j < png.height, ∀ i < png.width, Shown buf x y j i →
      j*png.width+i+(3-png.channels) < png.width*png.height)

theorem uint32_lt_iff (z : ℤ) (n : ℕ) (h : -2^31 ≤ z ∧ z < 2^31) (hn : n ≤ 2^31) :
    uint32 z < n ↔ 0 ≤ z ∧ z < n := by
  unfold uint32
  omega

/-- On a screen whose sizes are an `int` the test keeps the pixels that lie on it. -/
theorem shown_iff (buf : Screen) (x y : ℤ) (j i : ℕ) (hh : buf.height ≤ 2^31)
    (hw : buf.width ≤ 2^31) (hrow : -2^31 ≤ j+y ∧ j+y < 2^31) (hcol : -2^31 ≤ i+x ∧ i+x < 2^31) :
    Shown buf x y j i ↔ (0 ≤ j+y ∧ j+y < buf.height) ∧ 0 ≤ i+x ∧ i+x < buf.width :=
  and_congr (uint32_lt_iff _ _ hrow hh) (uint32_lt_iff _ _ hcol hw)

section decode
variable (png : Png)

/-- The file of an image whose buffer size is an `int`. -/
def Png.file : PngFile :=
  { Bpp := png.channels
    size := (png.width*png.height*png.channels : ℕ)
    rowsize := int32 png.rowbytes
    width := png.width
    height := png.height }

theorem decodePng_eq_ok_iff (pfd : PngFile) :
    decodePng png = .ok pfd ↔ png.width*png.height*png.channels < 2^31 ∧ pfd = png.file := by
  obtain ⟨hc,hc'⟩ := png.channels_range
  have hbpp : int32 png.channels = png.channels := int32_natCast _ (by omega)
  have hw : int32 png.width = png.width := int32_natCast _ png.width_range.2
  have hh : int32 png.height = png.height := int32_natCast _ png.height_range.2
  have harea : png.width*png.height ≤ png.width*png.height*png.channels :=
    Nat.le_mul_of_pos_right _ hc
  unfold decodePng
  simp only [hbpp, hw, hh, bind_eq_ok_iff, checkedInt_eq_ok_iff]
  constructor
  · rintro ⟨area,⟨rfl,-⟩,size,⟨rfl,-,hlt⟩,hpfd⟩
    cases hpfd
    refine ⟨by zify; omega, ?_⟩
    simp [Png.file]
  · rintro ⟨hsize,rfl⟩
    zify at hsize harea
    have h0 : (0:ℤ) ≤ png.width*png.height := Int.natCast_nonneg (png.width*png.height)
    have hle : (png.width*png.height : ℤ) < 2^31 := harea.trans_lt hsize
    have h1 : (0:ℤ) ≤ png.width*png.height*png.channels := h0.trans harea
    refine ⟨png.width*png.height, ⟨rfl, by omega, hle⟩, png.width*png.height*png.channels,
      ⟨rfl, by omega, hsize⟩, ?_⟩
    simp [Png.file, pure, Except.pure]

theorem mem_copyRows (rowsize : ℤ) (rows : ℕ) (base : ℤ) (c : ℤ × ℤ) :
    c ∈ copyRows rowsize rows base ↔ ∃ j : ℕ, j < rows ∧ c = (base+j*rowsize, rowsize % 2^64) := by
  induction rows generalizing base with
  | zero => simp [copyRows]
  | succ rows ih =>
    rw [copyRows, List.mem_cons, ih]
    constructor
    · rintro (rfl | ⟨j,hj,rfl⟩)
      · exact ⟨0, Nat.succ_pos rows, by simp⟩
      · refine ⟨j+1, by omega, ?_⟩
        rw [Prod.mk.injEq]
        exact ⟨by push_cast; ring, rfl⟩
    · rintro ⟨j,hj,rfl⟩
      cases j with
      | zero => exact Or.inl (by simp)
      | succ j =>
        refine Or.inr ⟨j, by omega, ?_⟩
        rw [Prod.mk.injEq]
        exact ⟨by push_cast; ring, rfl⟩

theorem mem_copies (c : ℤ × ℤ) : c ∈ png.file.copies ↔
    ∃ j : ℕ, j < png.height ∧ c = (j*int32 png.rowbytes, int32 png.rowbytes % 2^64) := by
  unfold PngFile.copies
  rw [mem_copyRows]
  simp [Png.file]

variable (hsize : png.width*png.height*png.channels < 2^31)
include hsize

/-- The bytes of one row are an `int` when the buffer size is. -/
theorem row_lt : png.width*png.channels < 2^31 := by
  have hle : png.width*png.channels ≤ png.width*png.channels*png.height :=
    Nat.le_mul_of_pos_right _ png.height_range.1
  calc
    png.width*png.channels ≤ png.width*png.channels*png.height := hle
    _ = png.width*png.height*png.channels := by ring
    _ < 2^31 := hsize

theorem rowsize_of_eight (h8 : png.bitDepth = 8) :
    int32 png.rowbytes = (png.width*png.channels : ℕ) := by
  have hrow : png.rowbytes = png.width*png.channels := by
    rw [Png.rowbytes, h8]
    exact Nat.mul_div_cancel _ (by norm_num)
  rw [hrow]
  exact int32_natCast _ (row_lt png hsize)

/-- The copies lie in the buffer exactly for samples of eight bits: a row of
wider samples takes twice the bytes that the size counts. -/
theorem copies_inside_iff :
    (∀ c ∈ png.file.copies, 0 ≤ c.1 ∧ c.1+c.2 ≤ png.file.size) ↔ png.bitDepth = 8 := by
  have hrow := row_lt png hsize
  have hpos : 1 ≤ png.width*png.channels := Nat.mul_pos png.width_range.1 png.channels_range.1
  have htotal : png.file.size = png.height*(png.width*png.channels : ℕ) := by
    simp only [Png.file]
    push_cast
    ring
  constructor
  · intro hinside
    by_contra h8
    have hbytes : png.rowbytes = 2*(png.width*png.channels) := by
      rw [Png.rowbytes, png.bitDepth_eq.resolve_left h8]
      omega
    have hh := png.height_range.1
    have hcopy (j : ℕ) (hj : j < png.height) := hinside _ ((mem_copies png _).mpr ⟨j, hj, rfl⟩)
    have hfits : (png.height*(png.width*png.channels : ℕ) : ℤ) < 2^31 := by
      rw [← htotal]
      exact Int.ofNat_lt.mpr hsize
    rcases lt_or_ge png.rowbytes (2^31) with hint | hlong
    · -- the last row ends at twice the size
      obtain ⟨-,hlast⟩ := hcopy (png.height-1) (by omega)
      rw [int32_natCast _ hint, htotal, hbytes, Int.emod_eq_of_lt (by omega) (by omega)] at hlast
      push_cast [Nat.cast_sub hh] at hlast
      nlinarith
    · -- the length of a row is negative, and huge as a `size_t`
      obtain ⟨-,hfirst⟩ := hcopy 0 (by omega)
      rw [int32_of_large png.rowbytes (by omega) (by omega), htotal] at hfirst
      simp only [Nat.cast_zero, zero_mul, zero_add] at hfirst
      omega
  · intro h8 c hmem
    obtain ⟨j,hj,rfl⟩ := (mem_copies png c).mp hmem
    rw [rowsize_of_eight png hsize h8, htotal, Int.emod_eq_of_lt (by omega) (by omega)]
    refine ⟨mul_nonneg (Int.natCast_nonneg j) (Int.natCast_nonneg _), ?_⟩
    calc
      (j:ℤ)*(png.width*png.channels : ℕ)+(png.width*png.channels : ℕ) =
          (j+1)*(png.width*png.channels : ℕ) := by ring
      _ ≤ png.height*(png.width*png.channels : ℕ) :=
        mul_le_mul_of_nonneg_right (by omega) (Int.natCast_nonneg _)

/-- With samples of eight bits the copies fill the buffer. -/
theorem written_eq (h8 : png.bitDepth = 8) : png.file.written = Set.Ico 0 png.file.size := by
  have hinside := (copies_inside_iff png hsize).mpr h8
  have hpos : 1 ≤ png.width*png.channels := Nat.mul_pos png.width_range.1 png.channels_range.1
  have hrow := row_lt png hsize
  ext b
  constructor
  · rintro ⟨c,hc,hlo,hhi⟩
    obtain ⟨h0,hend⟩ := hinside c hc
    exact ⟨h0.trans hlo, hhi.trans_le hend⟩
  · rintro ⟨h0,hlt⟩
    obtain ⟨b, rfl⟩ := Int.eq_ofNat_of_zero_le h0
    have hlt' : b < png.height*(png.width*png.channels) := by
      have h : b < png.width*png.height*png.channels := Int.ofNat_lt.mp hlt
      calc
        b < png.width*png.height*png.channels := h
        _ = png.height*(png.width*png.channels) := by ring
    -- the row of the byte
    refine ⟨_, (mem_copies png _).mpr ⟨b / (png.width*png.channels), ?_, rfl⟩, ?_⟩
    · exact (Nat.div_lt_iff_lt_mul hpos).mpr hlt'
    · rw [rowsize_of_eight png hsize h8, Int.emod_eq_of_lt (by omega) (by omega)]
      have hle := Nat.div_mul_le_self b (png.width*png.channels)
      have hnext := Nat.lt_div_mul_add hpos (a := b)
      dsimp only
      exact ⟨by exact_mod_cast hle, by exact_mod_cast hnext⟩

end decode

/-- A word that passes the test of `show_png` is one of the screen, also where
its index wraps. -/
theorem dst_inside (buf : Screen) (row col : ℤ) (hrow : uint32 row < buf.height)
    (hcol : uint32 col < buf.width) :
    0 ≤ uint32 (row*buf.width+col) ∧ uint32 (row*buf.width+col) < buf.width*buf.height := by
  have hwrap : uint32 (row*buf.width+col) = uint32 (uint32 row*buf.width+uint32 col) := by
    simp [uint32, Int.add_emod, Int.mul_emod]
  refine ⟨uint32_nonneg _, ?_⟩
  calc
    uint32 (row*buf.width+col) = uint32 (uint32 row*buf.width+uint32 col) := hwrap
    _ ≤ uint32 row*buf.width+uint32 col :=
      uint32_le_self _ (index_nonneg _ _ _ (uint32_nonneg row) (Int.natCast_nonneg _)
        (uint32_nonneg col))
    _ < buf.height*buf.width := index_lt _ _ _ _ hrow hcol (Int.natCast_nonneg _)
    _ = buf.width*buf.height := mul_comm _ _

section draw
variable (png : Png) (buf : Screen) (x y : ℤ) (j i : ℕ)

/-- The last of the three bytes of a pixel begins the next one when there are
fewer than three channels. -/
def lastByte (png : Png) (j i : ℕ) : ℤ := (j*png.width+i)*png.channels+2

variable (hsize : png.width*png.height*png.channels < 2^31) (hj : j < png.height)
  (hi : i < png.width)

include hj hi in
theorem pixel_lt : j*png.width+i < png.width*png.height := by
  have h := index_lt png.width j i png.height (by omega) (by omega) (by omega)
  rw [mul_comm png.width]
  exact_mod_cast h

theorem readPixel_eq (pfd : PngFile) (j i : ℕ) (first place src : ℤ)
    (hfirst : checkedInt (j*pfd.width) = .ok first) (hplace : checkedInt (first+i) = .ok place)
    (hsrc : checkedInt (place*pfd.Bpp) = .ok src) :
    readPixel pfd j i = checkedInt (src+2) >>= fun _ => .ok src := by
  unfold readPixel
  rw [hfirst, ok_bind, hplace, ok_bind, hsrc, ok_bind]
  rfl

include hsize hj hi

theorem readPixel_eq_ok_iff (src : ℤ) : readPixel png.file j i = .ok src ↔
    src = ((j*png.width+i)*png.channels : ℕ) ∧ lastByte png j i < 2^31 := by
  have hpixel := pixel_lt png j i hj hi
  have hc := png.channels_range.1
  have hlt : (j*png.width+i)*png.channels < png.width*png.height*png.channels :=
    Nat.mul_lt_mul_of_pos_right hpixel hc
  have hle : j*png.width+i ≤ (j*png.width+i)*png.channels := Nat.le_mul_of_pos_right _ hc
  have hsrc := checkedInt_natCast _ (hlt.trans hsize)
  have hplace := checkedInt_natCast _ (hle.trans_lt (hlt.trans hsize))
  have hfirst := checkedInt_natCast (j*png.width)
    ((Nat.le_add_right _ i).trans_lt (hle.trans_lt (hlt.trans hsize)))
  push_cast at hfirst hplace hsrc
  have hread : readPixel png.file j i = checkedInt (lastByte png j i) >>= fun _ =>
      .ok (((j:ℤ)*png.width+i)*png.channels) := by
    exact readPixel_eq png.file j i _ _ _ hfirst hplace hsrc
  have hlow : -2^31 ≤ lastByte png j i := by
    have h0 := Int.natCast_nonneg ((j*png.width+i)*png.channels)
    push_cast at h0
    unfold lastByte
    omega
  rw [hread, bind_eq_ok_iff]
  simp only [checkedInt_eq_ok_iff, Except.ok.injEq]
  constructor
  · rintro ⟨z,⟨-,-,hlt⟩,rfl⟩
    exact ⟨by push_cast; rfl, hlt⟩
  · rintro ⟨rfl,hlt⟩
    exact ⟨_, ⟨rfl, hlow, hlt⟩, by push_cast; rfl⟩

/-- The test of one pixel is safe: its sums do not overflow, and when the pixel
is drawn its last byte is one of the buffer. -/
theorem showPixel_safe_iff (h8 : png.bitDepth = 8) (hx : -2^31 ≤ x) (hy : -2^31 ≤ y) :
    (∃ r, showPixel png.file buf x y j i = .ok r ∧ ∀ p ∈ r, p.Safe png.file buf) ↔
      j+y < 2^31 ∧ (uint32 (j+y) < buf.height → i+x < 2^31 ∧
        (uint32 (i+x) < buf.width → lastByte png j i < png.file.size)) := by
  have hrow0 : -2^31 ≤ j+y := by omega
  have hcol0 : -2^31 ≤ i+x := by omega
  have hsize' : png.file.size < 2^31 := Int.ofNat_lt.mpr hsize
  unfold showPixel
  by_cases hrow : j+y < 2^31
  · rw [checkedInt_of_range _ hrow0 hrow, ok_bind, and_iff_right hrow]
    by_cases hin : uint32 (j+y) < buf.height
    · rw [if_pos hin, imp_iff_right hin]
      by_cases hcol : i+x < 2^31
      · rw [checkedInt_of_range _ hcol0 hcol, ok_bind, and_iff_right hcol]
        by_cases hin' : uint32 (i+x) < buf.width
        · rw [if_pos hin', imp_iff_right hin']
          simp only [bind_eq_ok_iff, readPixel_eq_ok_iff png j i hsize hj hi]
          constructor
          · rintro ⟨r,⟨src,⟨rfl,-⟩,hr⟩,hsafe⟩
            cases hr
            have hread := (hsafe _ rfl).1 2 (by norm_num)
            rw [written_eq png hsize h8] at hread
            unfold lastByte
            exact_mod_cast hread.2
          · intro hlast
            refine ⟨_, ⟨_, ⟨rfl, hlast.trans hsize'⟩, rfl⟩, ?_⟩
            rintro p hp
            cases hp
            refine ⟨fun k hk => ?_, dst_inside buf _ _ hin hin'⟩
            rw [written_eq png hsize h8]
            unfold lastByte at hlast
            dsimp only
            push_cast
            refine ⟨by positivity, lt_of_le_of_lt ?_ hlast⟩
            omega
        · rw [if_neg hin']
          exact iff_of_true ⟨none, rfl, by simp⟩ (fun h => absurd h hin')
      · rw [checkedInt, if_neg (fun h => hcol h.2)]
        refine iff_of_false ?_ fun h => hcol h.1
        rintro ⟨r,hr,-⟩
        cases hr
    · rw [if_neg hin]
      exact iff_of_true ⟨none, rfl, by simp⟩ (fun h => absurd h hin)
  · rw [checkedInt, if_neg (fun h => hrow h.2)]
    refine iff_of_false ?_ fun h => hrow h.1
    rintro ⟨r,hr,-⟩
    cases hr

omit hsize in
/-- With three channels or more no pixel is read beyond the buffer; with fewer
the last pixels are. -/
theorem lastByte_lt_iff : lastByte png j i < png.file.size ↔
    3 ≤ png.channels ∨ j*png.width+i+(3-png.channels) < png.width*png.height := by
  have hpixel := pixel_lt png j i hj hi
  obtain ⟨hc,hc'⟩ := png.channels_range
  have hlast : lastByte png j i = ((j*png.width+i)*png.channels+2 : ℕ) := by
    unfold lastByte
    push_cast
    rfl
  rw [hlast, show png.file.size = (png.width*png.height*png.channels : ℕ) from rfl, Nat.cast_lt]
  have hcases : png.channels = 1 ∨ png.channels = 2 ∨ png.channels = 3 ∨ png.channels = 4 := by
    omega
  rcases hcases with h | h | h | h <;> rw [h] <;> omega

end draw

theorem showPng_safe_iff (png : Png) (buf : Screen) (x y : ℤ)
    (hsize : png.width*png.height*png.channels < 2^31) (h8 : png.bitDepth = 8)
    (hx : -2^31 ≤ x) (hy : -2^31 ≤ y) :
    (∃ drawn, showPng png.file buf x y = .ok drawn ∧ ∀ r ∈ drawn, ∀ p ∈ r, p.Safe png.file buf) ↔
      ∀ j < png.height, ∀ i < png.width, j+y < 2^31 ∧ (uint32 (j+y) < buf.height →
        i+x < 2^31 ∧ (uint32 (i+x) < buf.width → lastByte png j i < png.file.size)) := by
  have hpixels (j i : ℕ) :
      (j, i) ∈ List.range png.file.height.toNat ×ˢ List.range png.file.width.toNat ↔
        j < png.height ∧ i < png.width := by
    simp [Png.file]
  unfold showPng
  rw [mapM_ok_forall_iff]
  constructor
  · intro h j hj i hi
    exact (showPixel_safe_iff png buf x y j i hsize hj hi h8 hx hy).mp
      (h (j, i) ((hpixels j i).mpr ⟨hj, hi⟩))
  · intro h p hp
    obtain ⟨hj,hi⟩ := (hpixels p.1 p.2).mp hp
    exact (showPixel_safe_iff png buf x y p.1 p.2 hsize hj hi h8 hx hy).mpr (h p.1 hj p.2 hi)

/-- The test is safe exactly for the images and places of `PictureOk`. -/
theorem show_png_safe_iff (png : Png) (buf : Screen) (x y : ℤ) (hx : -2^31 ≤ x) (hy : -2^31 ≤ y) :
    Safe png buf x y ↔ PictureOk png buf x y := by
  have hw := png.width_range.1
  have hh := png.height_range.1
  unfold Safe PictureOk
  simp only [decodePng_eq_ok_iff]
  by_cases hok : png.bitDepth = 8 ∧ png.width*png.height*png.channels < 2^31
  · obtain ⟨h8,hsize⟩ := hok
    have hdecode (P : PngFile → Prop) :
        (∃ pfd, (png.width*png.height*png.channels < 2^31 ∧ pfd = png.file) ∧ P pfd) ↔
          P png.file := by
      constructor
      · rintro ⟨_,⟨-,rfl⟩,h⟩
        exact h
      · exact fun h => ⟨_, ⟨hsize, rfl⟩, h⟩
    rw [hdecode, copies_inside_iff png hsize, and_iff_right h8, and_iff_right ⟨h8, hsize⟩,
      showPng_safe_iff png buf x y hsize h8 hx hy]
    constructor
    · intro h
      refine ⟨⟨?_, ?_⟩, ?_⟩
      · have hlast := (h (png.height-1) (by omega) 0 (by omega)).1
        omega
      · rintro ⟨j,hj,hin⟩
        have hlast := ((h j hj (png.width-1) (by omega)).2 hin).1
        omega
      · by_contra! hread
        obtain ⟨hc,j,hj,i,hi,hshown,hlast⟩ := hread
        have hbyte := (lastByte_lt_iff png j i hj hi).mp (((h j hj i hi).2 hshown.1).2 hshown.2)
        omega
    · rintro ⟨⟨hrow,hcol⟩,hread⟩ j hj i hi
      refine ⟨by omega, fun hin => ?_⟩
      have hlast := hcol ⟨j, hj, hin⟩
      refine ⟨by omega, fun hin' => ?_⟩
      exact (lastByte_lt_iff png j i hj hi).mpr (hread.imp id fun h => h j hj i hi ⟨hin, hin'⟩)
  · refine iff_of_false ?_ fun h => hok h.1
    rintro ⟨pfd,⟨hsize,rfl⟩,hinside,-⟩
    exact hok ⟨(copies_inside_iff png hsize).mp hinside, hsize⟩

-- an icon of four pixels, and the same with one grey channel and with wide samples
def icon : Png := ⟨2, 2, 3, 8, by decide, by decide, by decide, Or.inl rfl⟩

def greyIcon : Png := { icon with channels := 1, channels_range := by decide }

def wideIcon : Png := { icon with bitDepth := 16, bitDepth_eq := Or.inr rfl }

/-- Three quarters of it are outside the screen, and it is safe. -/
theorem show_png_safe_iff_corner : Safe icon ⟨1920, 1080⟩ (-1) 1079 :=
  (show_png_safe_iff icon ⟨1920, 1080⟩ (-1) 1079 (by decide) (by decide)).mpr
    ⟨⟨rfl, by decide⟩, ⟨by decide, fun _ => by decide⟩, Or.inl le_rfl⟩

/-- A grey image is read beyond its buffer, and samples of 16 bits are copied
beyond it. -/
theorem grey_and_wide_unsafe :
    ¬ Safe greyIcon ⟨1920, 1080⟩ 0 0 ∧ ¬ Safe wideIcon ⟨1920, 1080⟩ 0 0 := by
  constructor
  · rintro ⟨pfd,hdecode,-,hdraw⟩
    obtain ⟨hsize,rfl⟩ := (decodePng_eq_ok_iff greyIcon pfd).mp hdecode
    have hall := (showPng_safe_iff greyIcon ⟨1920, 1080⟩ 0 0 hsize rfl (by decide) (by decide)).mp hdraw
    have hlast := ((hall 1 (by decide) 1 (by decide)).2 (by decide)).2 (by decide)
    exact absurd hlast (by decide)
  · rintro ⟨pfd,hdecode,hinside,-⟩
    obtain ⟨hsize,rfl⟩ := (decodePng_eq_ok_iff wideIcon pfd).mp hdecode
    exact absurd ((copies_inside_iff wideIcon hsize).mp hinside) (by decide)

end CppOperate.TestPic

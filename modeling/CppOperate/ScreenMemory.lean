import CppOperate.CLoops
import CppOperate.DriverPlacement
import Mathlib

/-! The ways in which the CPU writes the dumb buffer, whose rows are `pitch` bytes
apart: the clearing loop of `drm_init`, the copy loop of `show_img` and
`VideoWall::update_display`. -/
namespace CppOperate.Memory
open CNumbers CLoops RowMajor
open Show (Screen Geometry)
open Driver (Image)

/-- `BLACK`. -/
def black : ℤ := 0x000000

/-- The clearing loop of `drm_init`: the words it writes, in order. -/
def clearLoop (width height fuel : ℕ) : Option (Except Fault (List (ℤ × ℤ))) :=
  forInt (uint32 (width*height)).toNat (fun i words => words ++ [(i, black)]) fuel 0 []

/-- The bytes of words of 32 bits, the low one first. -/
def wordBytes (words : List (ℤ × ℤ)) : List (ℤ × ℤ) :=
  words.flatMap fun w => (List.range 4).map fun b : ℕ => (4*w.1+b, w.2 / 256^b % 256)

theorem mem_wordBytes (words : List (ℤ × ℤ)) (a v : ℤ) : (a, v) ∈ wordBytes words ↔
    ∃ w ∈ words, ∃ b : ℕ, b < 4 ∧ a = 4*w.1+b ∧ v = w.2 / 256^b % 256 := by
  simp only [wordBytes, List.mem_flatMap, List.mem_map, List.mem_range, Prod.mk.injEq]
  constructor
  · rintro ⟨w,hw,b,hb,rfl,rfl⟩
    exact ⟨w, hw, b, hb, rfl, rfl⟩
  · rintro ⟨w,hw,b,hb,rfl,rfl⟩
    exact ⟨w, hw, b, hb, rfl, rfl⟩

/-- The words of the clearing loop as far as its counter does not overflow. -/
def blackWords (count : ℕ) : List (ℤ × ℤ) := (List.range count).map fun k : ℕ => ((k:ℤ), black)

theorem clearLoop_eq (width height fuel : ℕ) (h : (uint32 (width*height)).toNat < 2^31)
    (hfuel : 2^31 ≤ fuel) :
    clearLoop width height fuel = some (.ok (blackWords (uint32 (width*height)).toNat)) := by
  obtain ⟨words,hrun,hwords⟩ := forInt_invariant (uint32 (width*height)).toNat
    (fun i words => words ++ [(i, black)]) h (fun k words => words = blackWords k) [] rfl
    (fun k words _ hk => by rw [hk, blackWords, blackWords, List.range_succ, List.map_append]; rfl)
    fuel (by omega)
  rw [clearLoop, hrun, hwords]

theorem clearLoop_overflow (width height fuel : ℕ) (h : 2^31 ≤ (uint32 (width*height)).toNat)
    (hfuel : 2^31 ≤ fuel) : clearLoop width height fuel = some (.error .intOverflow) := by
  apply forInt_overflow _ _ h _ _ _ hfuel
  have hnonneg := uint32_nonneg (width*height)
  unfold uint32
  omega

/-- The framebuffer of a display mode, with the pitch that the kernel returned. -/
structure Framebuffer where
  hdisplay : UInt16
  vdisplay : UInt16
  pitch : ℕ
  pitch_ge : 4*hdisplay.toNat ≤ pitch
deriving DecidableEq, Repr

namespace Framebuffer
variable (fb : Framebuffer)

-- `buf.width` and `buf.height`
def width : ℕ := fb.hdisplay.toNat

def height : ℕ := fb.vdisplay.toNat

def screen : Screen := ⟨fb.width, fb.height, true⟩

/-- The byte at which the pixel in row `r` and column `c` begins. -/
def pixelByte (r c : ℤ) : ℤ := r*fb.pitch+4*c

theorem width_lt : fb.width < 2^16 := fb.hdisplay.toNat_lt

theorem height_lt : fb.height < 2^16 := fb.vdisplay.toNat_lt

/-- The products of the sizes are exact in 32 bits. -/
theorem area_lt : fb.width*fb.height < 2^32 := by
  have hw := fb.width_lt
  have hh := fb.height_lt
  nlinarith

/-- After the clearing loop every visible pixel is black, whatever the memory held. -/
def Cleared : Prop :=
  ∀ fuel, 2^31 ≤ fuel → ∃ words, clearLoop fb.width fb.height fuel = some (.ok words) ∧
    ∀ mem : ℤ → ℤ, ∀ r < fb.height, ∀ c < fb.width, ∀ b : ℕ, b < 4 →
      store mem (wordBytes words) (fb.pixelByte r c+b) = black / 256^b % 256

/-- The copy loop of `show_img` writes every pixel it copies at its byte. -/
def Copied : Prop :=
  ∀ (frame : Image) (g : Geometry), g.For fb.screen frame →
    (1 ≤ frame.cols ∧ frame.cols < 2^31) → (1 ≤ frame.rows ∧ frame.rows < 2^31) →
    ∀ r c : ℤ, (g.startY ≤ r ∧ r < g.endY) → (g.startX ≤ c ∧ c < g.endX) →
      ∃ i, (i, int32 (r-g.y.value)*frame.rowBytes+(c-g.startX)*frame.channels) ∈
          Show.writes (Show.passAccesses fb.screen g frame.channels frame) ∧
        4*i = fb.pixelByte r c

/-- `stride` and `dst_buf_size` of `VideoWall`. -/
def stride : ℤ := int32 (uint32 (uint32 (fb.width*4)+3) / 4*4)

def dstBufSize : ℤ := int32 (uint32 (fb.stride*fb.height))

/-- `copy_all_ok`: `stitch_frame.isContinuous()` and rows as long as the pitch. -/
def copyAllOk : Prop := (fb.stride = fb.width*4 ∨ fb.height = 1) ∧ uint32 (fb.width*4) = fb.pitch

instance : Decidable fb.copyAllOk := by
  unfold copyAllOk; infer_instance

/-- The bytes that `memcpy` copies, each with its offset in the source. -/
def memcpyBytes (dst src : ℤ) (size : ℕ) : List (ℤ × ℤ) :=
  (List.range size).map fun k : ℕ => (dst+k, src+k)

/-- The loop over the rows in the branch without `copy_all_ok`; `src` has advanced
by a row for each one before. -/
def copyRows (startX : ℤ) : ℕ → ℤ → ℤ → List (ℤ × ℤ)
  | 0, _, _ => []
  | rows+1, row, src =>
    memcpyBytes (4*(uint32 (row*fb.width)+startX)) src (fb.width*4) ++
      copyRows startX rows (row+1) (src+fb.width*4)

/-- One copy of `stitch_frame` by `update_display`: the bytes written, each with
its offset in `stitch_frame`; `none` when the size of the `memcpy` is negative. -/
def updateDisplay : Option (List (ℤ × ℤ)) :=
  if fb.width*fb.height = 0 then some []
  else if fb.copyAllOk then
    if fb.dstBufSize < 0 then none else some (memcpyBytes 0 0 fb.dstBufSize.toNat)
  else
    let spanX := Show.bounds fb.width (Show.position fb.width fb.width) fb.width
    let spanY := Show.bounds fb.height (Show.position fb.height fb.height) fb.height
    some (fb.copyRows spanX.1 (spanY.2-spanY.1).toNat spanY.1 0)

/-- Every pixel of `stitch_frame` is put at its place on the screen. -/
def Stitched : Prop :=
  ∃ bytes, fb.updateDisplay = some bytes ∧ ∀ r < fb.height, ∀ c < fb.width, ∀ b : ℕ, b < 4 →
    origin bytes (fb.pixelByte r c+b) = some (r*fb.stride+4*c+b)

/-- The framebuffers whose rows are where the write paths expect them. -/
def RowsOk : Prop := fb.width = 0 ∨ fb.height ≤ 1 ∨ fb.pitch = 4*fb.width

/-- And whose size in bytes is an `int` where it is copied as a whole. -/
def PitchOk : Prop :=
  fb.width = 0 ∨ fb.height ≤ 1 ∨ (fb.pitch = 4*fb.width ∧ 4*fb.width*fb.height < 2^31)

theorem stride_eq : fb.stride = 4*fb.width := by
  have hw := fb.width_lt
  unfold stride
  rw [uint32_eq_self (fb.width*4) (by omega) (by omega), uint32_eq_self _ (by omega) (by omega),
    int32_eq_self _ (by omega) (by omega)]
  omega

theorem area_toNat : (uint32 (fb.width*fb.height)).toNat = fb.width*fb.height := by
  have harea := fb.area_lt
  rw [← Nat.cast_mul, uint32_eq_self _ (by omega) (by omega), Int.toNat_natCast]

theorem mem_memcpyBytes (dst src : ℤ) (size : ℕ) (a v : ℤ) :
    (a, v) ∈ memcpyBytes dst src size ↔ ∃ k : ℕ, k < size ∧ a = dst+k ∧ v = src+k := by
  simp only [memcpyBytes, List.mem_map, List.mem_range, Prod.mk.injEq]
  constructor
  · rintro ⟨k,hk,rfl,rfl⟩
    exact ⟨k, hk, rfl, rfl⟩
  · rintro ⟨k,hk,rfl,rfl⟩
    exact ⟨k, hk, rfl, rfl⟩

/-- Rows that are as long as the pixels need, or a single row: bytes of the screen
and of rows of words are the same. -/
theorem pixelByte_eq (h : fb.height ≤ 1 ∨ fb.pitch = 4*fb.width) (r c : ℤ) (h0 : 0 ≤ r)
    (hr : r < fb.height) : fb.pixelByte r c = 4*(r*fb.width+c) := by
  unfold pixelByte
  rcases h with h | h
  · have hzero : r = 0 := by omega
    rw [hzero, zero_mul, zero_mul, zero_add, zero_add]
  · rw [h]
    push_cast
    ring

section good
variable (hrows : fb.height ≤ 1 ∨ fb.pitch = 4*fb.width)
include hrows

theorem cleared_of_rows (hcount : fb.width*fb.height < 2^31) : fb.Cleared := by
  intro fuel hfuel
  refine ⟨_, clearLoop_eq _ _ _ (by rw [area_toNat]; exact hcount) hfuel, ?_⟩
  intro mem r hr c hc b hb
  rw [area_toNat, pixelByte_eq fb hrows r c (by omega) (by omega)]
  have hlt := index_lt fb.width r c fb.height (by omega) (by omega) (by omega)
  apply store_of_mem
  · refine (mem_wordBytes _ _ _).mpr ⟨((r*fb.width+c : ℕ), black), ?_, b, hb, by push_cast; rfl, rfl⟩
    refine List.mem_map.mpr ⟨r*fb.width+c, List.mem_range.mpr ?_, rfl⟩
    rw [Nat.mul_comm fb.width]
    exact_mod_cast hlt
  · rintro ⟨a,v⟩ hav ha
    obtain ⟨w,hw,b',hb',rfl,rfl⟩ := (mem_wordBytes _ a v).mp hav
    obtain ⟨k,hk,rfl⟩ := List.mem_map.mp hw
    dsimp only at ha ⊢
    have hbb : b' = b := by omega
    rw [hbb]

omit hrows in
/-- A word index of the screen does not wrap. -/
theorem row_index (r : ℤ) (h0 : 0 ≤ r) (hr : r < fb.height) :
    uint32 (r*fb.width) = r*fb.width := by
  have harea := fb.area_lt
  have h := mul_le_mul_of_nonneg_right hr.le (Int.natCast_nonneg fb.width)
  have hcast : (fb.height:ℤ)*fb.width = (fb.width*fb.height : ℕ) := by
    push_cast
    ring
  exact uint32_eq_self _ (mul_nonneg h0 (Int.natCast_nonneg _)) (by omega)

theorem copied_of_rows : fb.Copied := by
  intro frame g hg _ _ r c hr hc
  have hspan := hg.spanY
  have h0 : 0 ≤ r := by
    have hstart : g.startY = max 0 g.y.value := congrArg Prod.fst hspan
    omega
  have hlt : r < fb.height := by
    have hend : g.endY = min (fb.height:ℤ) (uint32 (g.y.value+frame.rows)) :=
      congrArg Prod.snd hspan
    omega
  refine ⟨uint32 (r*fb.width)+c, ?_, ?_⟩
  · exact (Show.mem_writes_pass fb.screen frame g _ _ _).mpr ⟨r, c, hr, hc, rfl, rfl⟩
  · rw [row_index fb r h0 hlt, pixelByte_eq fb hrows r c h0 hlt]

end good

/-- A `memcpy` gives every byte of its destination the one at the same distance. -/
theorem origin_memcpyBytes (dst src : ℤ) (size : ℕ) (a v : ℤ) :
    origin (memcpyBytes dst src size) a = some v ↔
      ∃ k : ℕ, k < size ∧ a = dst+k ∧ v = src+k := by
  rw [origin_eq_some_iff, mem_memcpyBytes]
  rintro ⟨a,v⟩ hw ⟨b,u⟩ hu hab
  obtain ⟨k,-,rfl,rfl⟩ := (mem_memcpyBytes dst src size a v).mp hw
  obtain ⟨l,-,rfl,rfl⟩ := (mem_memcpyBytes dst src size b u).mp hu
  dsimp only at hab ⊢
  omega

/-- The rows that the fallback copies: rows of words on the screen. -/
theorem mem_copyRows (startX : ℤ) (rows : ℕ) (row src a v : ℤ) :
    (a, v) ∈ fb.copyRows startX rows row src ↔ ∃ j : ℕ, j < rows ∧ ∃ k : ℕ, k < fb.width*4 ∧
      a = 4*(uint32 ((row+j)*fb.width)+startX)+k ∧ v = src+j*(fb.width*4)+k := by
  induction rows generalizing row src with
  | zero => simp [copyRows]
  | succ rows ih =>
    rw [copyRows, List.mem_append, mem_memcpyBytes, ih]
    constructor
    · rintro (⟨k,hk,rfl,rfl⟩ | ⟨j,hj,k,hk,rfl,rfl⟩)
      · exact ⟨0, Nat.succ_pos rows, k, hk, by simp, by simp⟩
      · refine ⟨j+1, by omega, k, hk, ?_, ?_⟩
        · push_cast
          congr 4
          ring
        · push_cast
          ring
    · rintro ⟨j,hj,k,hk,rfl,rfl⟩
      cases j with
      | zero => exact Or.inl ⟨k, hk, by simp, by simp⟩
      | succ j =>
        refine Or.inr ⟨j, by omega, k, hk, ?_, ?_⟩
        · push_cast
          congr 4
          ring
        · push_cast
          ring

theorem own_position (n : ℕ) : Show.position n n = 0 := by
  unfold Show.position
  rw [sub_self]
  rfl

/-- The bounds of `update_display`, whose display is as large as the screen. -/
theorem own_bounds (n : ℕ) (hn : n < 2^16) : Show.bounds n (Show.position n n) n = (0, (n:ℤ)) := by
  rw [own_position, Show.bounds, zero_add, uint32_eq_self _ (by omega) (by omega), max_self, min_self]

theorem copyAllOk_iff : fb.copyAllOk ↔ fb.pitch = 4*fb.width := by
  have hw := fb.width_lt
  unfold copyAllOk
  rw [stride_eq, uint32_eq_self _ (by omega) (by omega), and_iff_right (Or.inl (mul_comm _ _))]
  omega

theorem updateDisplay_fallback (hpitch : fb.pitch ≠ 4*fb.width) (h : fb.width*fb.height ≠ 0) :
    fb.updateDisplay = some (fb.copyRows 0 fb.height 0 0) := by
  unfold updateDisplay
  rw [if_neg h, if_neg ((copyAllOk_iff fb).not.mpr hpitch), own_bounds _ fb.width_lt,
    own_bounds _ fb.height_lt]
  simp

theorem updateDisplay_whole (hpitch : fb.pitch = 4*fb.width) (h : fb.width*fb.height ≠ 0) :
    fb.updateDisplay =
      if fb.dstBufSize < 0 then none else some (memcpyBytes 0 0 fb.dstBufSize.toNat) := by
  unfold updateDisplay
  rw [if_neg h, if_pos ((copyAllOk_iff fb).mpr hpitch)]

theorem int32_lt (z : ℤ) : int32 z < 2^31 := by
  unfold int32
  rw [Int.bmod_def]
  omega

theorem dstBufSize_eq (h : 4*fb.width*fb.height < 2^31) :
    fb.dstBufSize = (4*fb.width*fb.height : ℕ) := by
  have hcast : fb.stride*fb.height = (4*fb.width*fb.height : ℕ) := by
    rw [stride_eq]
    push_cast
    ring
  rw [dstBufSize, hcast, uint32_eq_self _ (by omega) (by omega), int32_natCast _ h]

/-- The pixels of the whole screen in rows of words. -/
theorem pixel_lt (r c b : ℕ) (hr : r < fb.height) (hc : c < fb.width) (hb : b < 4) :
    4*(r*fb.width+c)+b < 4*fb.width*fb.height := by
  have hlt := index_lt fb.width r c fb.height (by omega) (by omega) (by omega)
  have hlt' : r*fb.width+c < fb.height*fb.width := by exact_mod_cast hlt
  calc
    4*(r*fb.width+c)+b < 4*(fb.height*fb.width) := by omega
    _ = 4*fb.width*fb.height := by ring

/-- Rows that are further apart put the last pixel behind all words of the screen. -/
theorem last_pixel (hw : 1 ≤ fb.width) (hh : 2 ≤ fb.height) (hpitch : fb.pitch ≠ 4*fb.width) :
    ((4*fb.width*fb.height : ℕ) : ℤ) ≤
      fb.pixelByte (fb.height-1 : ℕ) (fb.width-1 : ℕ)+(3 : ℕ) := by
  have hge : 4*fb.width ≤ fb.pitch := fb.pitch_ge
  have hrows : (fb.height-1)*(4*fb.width+1) ≤ (fb.height-1)*fb.pitch :=
    Nat.mul_le_mul_left _ (by omega)
  obtain ⟨h, hh'⟩ : ∃ h, fb.height = h+2 := ⟨fb.height-2, by omega⟩
  obtain ⟨w, hw'⟩ : ∃ w, fb.width = w+1 := ⟨fb.width-1, by omega⟩
  unfold pixelByte
  rw [hh', hw'] at hrows ⊢
  simp only [Nat.add_sub_cancel] at hrows ⊢
  zify at hrows
  push_cast at hrows ⊢
  linarith

theorem cleared_iff : fb.Cleared ↔ fb.RowsOk ∧ fb.width*fb.height < 2^31 := by
  constructor
  · intro h
    obtain ⟨words,hwords,hblack⟩ := h (2^31) le_rfl
    have hcount : fb.width*fb.height < 2^31 := by
      by_contra! hbig
      rw [clearLoop_overflow _ _ _ (by rw [area_toNat]; exact hbig) le_rfl] at hwords
      cases hwords
    refine ⟨?_, hcount⟩
    rw [clearLoop_eq _ _ _ (by rw [area_toNat]; exact hcount) le_rfl, area_toNat] at hwords
    cases hwords
    by_contra hrows
    obtain ⟨hw,hh,hpitch⟩ : fb.width ≠ 0 ∧ ¬ fb.height ≤ 1 ∧ fb.pitch ≠ 4*fb.width := by
      unfold RowsOk at hrows
      push Not at hrows
      exact ⟨hrows.1, by omega, hrows.2.2⟩
    have hlast := last_pixel fb (by omega) (by omega) hpitch
    -- the white that `drm_create_fb` has left there stays
    have hbyte := hblack (fun _ => 255) (fb.height-1) (by omega) (fb.width-1) (by omega) 3 (by omega)
    rw [store_of_forall_ne] at hbyte
    · exact absurd hbyte (by decide)
    · rintro ⟨a,v⟩ hav rfl
      obtain ⟨w,hmem,b,hb,ha,-⟩ := (mem_wordBytes _ _ _).mp hav
      obtain ⟨k,hk,rfl⟩ := List.mem_map.mp hmem
      rw [List.mem_range] at hk
      have hall : (4*fb.width*fb.height : ℕ) = (4*(fb.width*fb.height) : ℕ) := by ring
      rw [hall] at hlast
      dsimp only at ha
      omega
  · rintro ⟨hrows,hcount⟩
    rcases hrows with hw | hrows
    · intro fuel hfuel
      refine ⟨_, clearLoop_eq _ _ _ (by rw [area_toNat]; exact hcount) hfuel, ?_⟩
      intro mem r _ c hc
      omega
    · exact cleared_of_rows fb hrows hcount

section nonempty
variable (hw : 1 ≤ fb.width) (hh : 1 ≤ fb.height)
include hw hh

/-- One `memcpy` puts every pixel in its place when its size is the exact one. -/
theorem stitched_whole_iff (hpitch : fb.pitch = 4*fb.width) :
    fb.Stitched ↔ 4*fb.width*fb.height < 2^31 := by
  have hupdate := updateDisplay_whole fb hpitch (Nat.mul_pos hw hh).ne'
  unfold Stitched
  rw [hupdate]
  constructor
  · rintro ⟨bytes,hbytes,hplaced⟩
    by_cases hneg : fb.dstBufSize < 0
    · rw [if_pos hneg] at hbytes
      cases hbytes
    rw [if_neg hneg, Option.some.injEq] at hbytes
    subst hbytes
    obtain ⟨k,hk,hlast,-⟩ := (origin_memcpyBytes _ _ _ _ _).mp
      (hplaced (fb.height-1) (by omega) (fb.width-1) (by omega) 3 (by omega))
    rw [pixelByte_eq fb (Or.inr hpitch) _ _ (by omega) (by omega)] at hlast
    have hsize : fb.dstBufSize < 2^31 := int32_lt _
    have hall : 4*((fb.height-1 : ℕ)*fb.width+(fb.width-1 : ℕ) : ℤ)+3 = (4*fb.width*fb.height : ℕ)-1 := by
      push_cast [Nat.cast_sub hw, Nat.cast_sub hh]
      ring
    push_cast at hlast
    omega
  · intro hsize
    rw [dstBufSize_eq fb hsize, if_neg (by omega)]
    refine ⟨_, rfl, ?_⟩
    intro r hr c hc b hb
    refine (origin_memcpyBytes _ _ _ _ _).mpr ⟨4*(r*fb.width+c)+b, ?_, ?_, ?_⟩
    · rw [Int.toNat_natCast]
      exact pixel_lt fb r c b hr hc hb
    · rw [pixelByte_eq fb (Or.inr hpitch) _ _ (by omega) (by omega)]
      push_cast
      ring
    · rw [stride_eq]
      push_cast
      ring

/-- The loop over the rows does so for a single row. -/
theorem stitched_fallback_iff (hpitch : fb.pitch ≠ 4*fb.width) : fb.Stitched ↔ fb.height = 1 := by
  have hupdate := updateDisplay_fallback fb hpitch (Nat.mul_pos hw hh).ne'
  unfold Stitched
  rw [hupdate]
  constructor
  · rintro ⟨bytes,hbytes,hplaced⟩
    cases hbytes
    by_contra hmany
    have hlast := last_pixel fb hw (by omega) hpitch
    obtain ⟨j,hj,k,hk,ha,-⟩ := (mem_copyRows fb _ _ _ _ _ _).mp (mem_of_origin _ _ _
      (hplaced (fb.height-1) (by omega) (fb.width-1) (by omega) 3 (by omega)))
    rw [zero_add, add_zero, row_index fb j (by omega) (by omega)] at ha
    have hrow := index_lt (4*fb.width) j k fb.height (by omega) (by omega) (by omega)
    push_cast at hlast ha
    nlinarith
  · intro hone
    refine ⟨_, rfl, ?_⟩
    intro r hr c hc b hb
    obtain rfl : r = 0 := by omega
    rw [hone, copyRows, copyRows, List.append_nil]
    refine (origin_memcpyBytes _ _ _ _ _).mpr ⟨4*c+b, by omega, ?_, ?_⟩
    · rw [zero_mul, show uint32 0 = 0 from rfl, pixelByte]
      push_cast
      ring
    · push_cast
      ring

end nonempty

theorem stitched_iff : fb.Stitched ↔ fb.PitchOk := by
  by_cases hempty : fb.width*fb.height = 0
  · refine iff_of_true ⟨[], by rw [updateDisplay, if_pos hempty], ?_⟩ ?_
    · intro r hr c hc
      have hpixels := Nat.mul_pos (Nat.zero_lt_of_lt hc) (Nat.zero_lt_of_lt hr)
      omega
    · rcases Nat.mul_eq_zero.mp hempty with h | h
      · exact Or.inl h
      · exact Or.inr (Or.inl (by omega))
  have hw : 1 ≤ fb.width := Nat.pos_of_ne_zero fun h => hempty (by rw [h, Nat.zero_mul])
  have hh : 1 ≤ fb.height := Nat.pos_of_ne_zero fun h => hempty (by rw [h, Nat.mul_zero])
  have hwidth := fb.width_lt
  unfold PitchOk
  by_cases hpitch : fb.pitch = 4*fb.width
  · rw [stitched_whole_iff fb hw hh hpitch]
    constructor
    · exact fun h => Or.inr (Or.inr ⟨hpitch, h⟩)
    · rintro (h | h | ⟨-,h⟩)
      · omega
      · obtain h1 : fb.height = 1 := by omega
        rw [h1]
        omega
      · exact h
  · rw [stitched_fallback_iff fb hw hh hpitch]
    omega

-- a frame of eight bits and three channels as large as the screen
def ownFrame : Image := ⟨fb.height, fb.width, 16, []⟩

def ownGeometry : Geometry :=
  { x := ⟨Show.position fb.width fb.width, 0⟩
    y := ⟨Show.position fb.height fb.height, 0⟩
    spanX := ⟨Show.bounds fb.width (Show.position fb.width fb.width) fb.width, 0⟩
    spanY := ⟨Show.bounds fb.height (Show.position fb.height fb.height) fb.height, 0⟩ }

theorem copied_iff : fb.Copied ↔ fb.RowsOk := by
  have hwidth := fb.width_lt
  have hheight := fb.height_lt
  constructor
  · intro h
    by_contra hrows
    obtain ⟨hw,hh,hpitch⟩ : fb.width ≠ 0 ∧ ¬ fb.height ≤ 1 ∧ fb.pitch ≠ 4*fb.width := by
      unfold RowsOk at hrows
      push Not at hrows
      exact ⟨hrows.1, by omega, hrows.2.2⟩
    have hfor : fb.ownGeometry.For fb.screen fb.ownFrame := ⟨rfl, rfl, rfl, rfl⟩
    have hspanX : fb.ownGeometry.spanX.value = (0, (fb.width:ℤ)) := own_bounds _ hwidth
    have hspanY : fb.ownGeometry.spanY.value = (0, (fb.height:ℤ)) := own_bounds _ hheight
    have hy : fb.ownGeometry.y.value = 0 := own_position _
    -- the first pixel of the second row
    obtain ⟨i,hmem,hi⟩ := h fb.ownFrame fb.ownGeometry hfor
      ⟨Nat.pos_of_ne_zero hw, by simp only [ownFrame]; omega⟩ ⟨by simp only [ownFrame]; omega,
        by simp only [ownFrame]; omega⟩ 1 0 (by simp only [Geometry.startY, Geometry.endY, hspanY]; omega)
      (by simp only [Geometry.startX, Geometry.endX, hspanX]; omega)
    obtain ⟨r,c,hr,hc,rfl,hvalue⟩ := (Show.mem_writes_pass _ _ _ _ _ _).mp hmem
    simp only [Geometry.startX, Geometry.endX, Geometry.startY, Geometry.endY, hspanX, hspanY, hy,
      sub_zero, zero_mul, add_zero] at hr hc hvalue
    have hbytes : fb.ownFrame.rowBytes = fb.width*3 := by
      simp [ownFrame, Image.rowBytes, Image.channels, Image.elemSize1]
    have hchannels : fb.ownFrame.channels = 3 := by
      simp [ownFrame, Image.channels]
    rw [int32_eq_self 1 (by norm_num) (by norm_num), int32_eq_self r (by omega) (by omega), hbytes,
      hchannels] at hvalue
    push_cast at hvalue
    obtain ⟨rfl,rfl⟩ := index_inj fb.width 1 0 r c (by omega) (by omega) (by linarith)
    have hrow := row_index fb 1 (by omega) (by omega)
    rw [show fb.screen.width = fb.width from rfl, hrow, pixelByte] at hi
    omega
  · rintro (hw | hrows)
    · intro frame g hg _ _ r c _ hc
      have hspan := hg.spanX
      have hstart : g.startX = max 0 g.x.value := congrArg Prod.fst hspan
      have hend : g.endX = min (fb.width:ℤ) (uint32 (g.x.value+frame.cols)) :=
        congrArg Prod.snd hspan
      omega
    · exact copied_of_rows fb hrows

/-- The write paths of the CPU address the pixels of the screen by its pitch
exactly where the rows lie close together, or there is only one: the clearing
loop as far as its counter does not overflow, the whole copy of `stitch_frame`,
which is made for rows of that pitch, as far as its size is an `int`. -/
theorem write_paths_iff :
    (fb.copyAllOk ↔ fb.pitch = 4*fb.width) ∧ (fb.Cleared ↔ fb.RowsOk ∧ fb.width*fb.height < 2^31) ∧
      (fb.Copied ↔ fb.RowsOk) ∧ (fb.Stitched ↔ fb.PitchOk) ∧ (fb.Cleared ∧ fb.Copied ∧ fb.Stitched ↔ fb.PitchOk) := by
  refine ⟨copyAllOk_iff fb, cleared_iff fb, copied_iff fb, stitched_iff fb, ?_⟩
  rw [cleared_iff, copied_iff, stitched_iff]
  constructor
  · exact fun h => h.2.2
  · intro h
    have hwidth := fb.width_lt
    have hrows : fb.RowsOk := h.imp id (Or.imp id And.left)
    refine ⟨⟨hrows, ?_⟩, hrows, h⟩
    rcases h with h | h | ⟨-,h⟩
    · rw [h]
      omega
    · calc
        fb.width*fb.height ≤ fb.width*1 := Nat.mul_le_mul_left _ h
        _ < 2^31 := by omega
    · calc
        fb.width*fb.height ≤ 4*fb.width*fb.height := by nlinarith
        _ < 2^31 := h

end Framebuffer

/-- A screen of 1366 x 768 whose rows the kernel aligns to 64 bytes. -/
def aligned : Framebuffer := ⟨1366, 768, 5504, by decide⟩

/-- Its last pixel is not cleared and its second row is written 40 bytes early. -/
theorem aligned_rows_shifted :
    ¬ aligned.Cleared ∧ ¬ aligned.Copied ∧ ¬ aligned.Stitched ∧
      aligned.pixelByte 1 0-4*(uint32 (1*aligned.width)+0) = 40 := by
  have hrows : ¬ aligned.RowsOk := by
    unfold Framebuffer.RowsOk
    decide
  have hpitch : ¬ aligned.PitchOk := by
    unfold Framebuffer.PitchOk
    decide
  exact ⟨fun h => hrows ((Framebuffer.cleared_iff _).mp h).1,
    fun h => hrows ((Framebuffer.copied_iff _).mp h),
    fun h => hpitch ((Framebuffer.stitched_iff _).mp h), by decide⟩

end CppOperate.Memory

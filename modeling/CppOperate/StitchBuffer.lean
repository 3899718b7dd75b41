import CppOperate.ScreenMemory
import CppOperate.StitchGrid
import Mathlib

/-! The sizes that the constructor of `VideoStitch` computes in 32 bits, and what
`drm_init` and `set_layout` write to the buffer allocated with them. -/
namespace CppOperate.Stitch
open CNumbers RowMajor
open Memory (clearLoop clearLoop_eq clearLoop_overflow wordBytes mem_wordBytes blackWords)

namespace Display
variable (d : Display)

/-- `stride`: `(display_width_ * channels + 3) & ~3`. -/
def stride : ℤ := uint32 (uint32 (d.width*4)+3) / 4*4

/-- `dst_buf_size`, the size of the allocation. -/
def dstBufSize : ℤ := uint32 (d.stride*d.height)

/-- The bytes of a row, rounded up to a multiple of four. -/
def exactStride : ℤ := (d.width*4+3) / 4*4

def exactSize : ℤ := d.exactStride*d.height

/-- `memset(dst_buf, 0, dst_buf_size)`. -/
def memsetBytes : List (ℤ × ℤ) := (List.range d.dstBufSize.toNat).map fun k : ℕ => ((k:ℤ), 0)

/-- Every byte that is written is one of the allocation. -/
def Inside (bytes : List (ℤ × ℤ)) : Prop := ∀ w ∈ bytes, 0 ≤ w.1 ∧ w.1 < d.dstBufSize

/-- The clearing loop of `drm_init` ends without an overflow and stays inside. -/
def ClearInside : Prop :=
  ∀ fuel, 2^31 ≤ fuel → ∃ words, clearLoop d.width d.height fuel = some (.ok words) ∧
    d.Inside (wordBytes words)

/-- The sizes are exact and the writes stay inside. -/
def BufferSafe : Prop :=
  (d.stride = d.exactStride ∧ d.dstBufSize = d.exactSize) ∧ d.ClearInside ∧ d.Inside d.memsetBytes

theorem stride_eq : d.stride = uint32 (d.width*4) := by
  unfold stride uint32
  omega

theorem exactStride_eq : d.exactStride = 4*d.width := by
  unfold exactStride
  omega

/-- The size wraps once, after the product. -/
theorem dstBufSize_eq : d.dstBufSize = uint32 (4*(d.width*d.height : ℕ)) := by
  have hwrap : uint32 (uint32 (d.width*4)*d.height) = uint32 (d.width*4*d.height) := by
    simp [uint32, Int.mul_emod]
  have hprod : (d.width*4*d.height : ℤ) = 4*(d.width*d.height : ℕ) := by
    push_cast
    ring
  rw [dstBufSize, stride_eq, hwrap, hprod]

theorem exactSize_eq : d.exactSize = 4*(d.width*d.height : ℕ) := by
  rw [exactSize, exactStride_eq]
  push_cast
  ring

theorem stride_exact_iff : d.stride = d.exactStride ↔ 4*d.width < 2^32 := by
  rw [stride_eq, exactStride_eq]
  unfold uint32
  omega

theorem size_exact_iff : d.dstBufSize = d.exactSize ↔ 4*(d.width*d.height) < 2^32 := by
  rw [dstBufSize_eq, exactSize_eq]
  unfold uint32
  omega

theorem memset_inside : d.Inside d.memsetBytes := by
  intro w hw
  obtain ⟨k,hk,rfl⟩ := List.mem_map.mp hw
  rw [List.mem_range] at hk
  dsimp only
  omega

/-- The clearing loop stays inside exactly when its bound, wrapped or not, is below
2^30: the bytes of so many words do not wrap. -/
theorem clear_inside_iff : d.ClearInside ↔ uint32 (d.width*d.height) < 2^30 := by
  have hsize := dstBufSize_eq d
  have h0 := uint32_nonneg (d.width*d.height)
  have hbound : uint32 (d.width*d.height) = (d.width*d.height : ℕ) % 2^32 := by
    rw [← Nat.cast_mul]
    rfl
  constructor
  · intro h
    by_contra! hbig
    obtain ⟨words,hwords,hinside⟩ := h (2^31) le_rfl
    rcases lt_or_ge (uint32 (d.width*d.height)).toNat (2^31) with hcount | hcount
    · rw [clearLoop_eq _ _ _ hcount le_rfl, Option.some.injEq, Except.ok.injEq] at hwords
      subst hwords
      -- the last byte of the last word
      have hlast := (hinside (4*((uint32 (d.width*d.height)).toNat-1 : ℕ)+(3 : ℕ), 0)
        ((mem_wordBytes _ _ _).mpr ⟨(((uint32 (d.width*d.height)).toNat-1 : ℕ), Memory.black),
          List.mem_map.mpr ⟨_, List.mem_range.mpr (by omega), rfl⟩, 3, by norm_num, rfl, rfl⟩)).2
      have hlt : d.dstBufSize < 2^32 := by
        rw [hsize]
        exact Int.emod_lt_of_pos _ (by norm_num)
      dsimp only at hlast
      omega
    · rw [clearLoop_overflow _ _ _ hcount le_rfl] at hwords
      cases hwords
  · intro h fuel hfuel
    refine ⟨_, clearLoop_eq _ _ _ (by omega) hfuel, ?_⟩
    rintro ⟨a,v⟩ hav
    obtain ⟨w,hw,b,hb,rfl,-⟩ := (mem_wordBytes _ a v).mp hav
    obtain ⟨k,hk,rfl⟩ := List.mem_map.mp hw
    rw [List.mem_range] at hk
    have hexact : d.dstBufSize = 4*uint32 (d.width*d.height) := by
      rw [hsize, hbound]
      unfold uint32
      omega
    dsimp only
    omega

/-- The sizes are exact while the bytes of the display are a `uint32_t`, and the
clearing loop stays inside on more displays: the sizes of the constructor are
sound exactly on the former. -/
theorem constructor_sizes : (d.stride = d.exactStride ↔ 4*d.width < 2^32) ∧
    (d.dstBufSize = d.exactSize ↔ 4*(d.width*d.height) < 2^32) ∧
    (d.ClearInside ↔ uint32 (d.width*d.height) < 2^30) ∧
    (d.BufferSafe ↔ 4*d.width < 2^32 ∧ 4*(d.width*d.height) < 2^32) := by
  refine ⟨stride_exact_iff d, size_exact_iff d, clear_inside_iff d, ?_⟩
  unfold BufferSafe
  rw [stride_exact_iff, size_exact_iff, clear_inside_iff, and_iff_left (memset_inside d),
    and_iff_left_iff_imp]
  rintro ⟨-,hsize⟩
  rw [← Nat.cast_mul, uint32_eq_self _ (by omega) (by omega)]
  omega

end Display

/-- 32769 x 32768 pixels wrap to an allocation of one row, and the clearing loop goes
on for all of them; the stride of 2^30 columns wraps as well. -/
theorem wrapped_sizes :
    ((Display.mk 32769 32768).dstBufSize = 131072 ∧ ¬ (Display.mk 32769 32768).ClearInside ∧
      ¬ (Display.mk 32769 32768).BufferSafe) ∧
    ((Display.mk (2^30) 1).stride = 0 ∧ ¬ (Display.mk (2^30) 1).BufferSafe) := by
  have hclear : ¬ (Display.mk 32769 32768).ClearInside := by
    rw [Display.clear_inside_iff]
    decide
  refine ⟨⟨by decide, hclear, fun h => hclear h.2.1⟩, by decide, ?_⟩
  intro h
  exact absurd ((Display.stride_exact_iff _).mp h.1.1) (by decide)

end CppOperate.Stitch

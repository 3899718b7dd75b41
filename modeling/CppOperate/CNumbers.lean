import Mathlib.Algebra.Order.Floor.Ring
import Mathlib.Data.Rat.Floor
import Mathlib.Tactic.Linarith

/-! Machine numbers of C and C++ over `ℤ`: the conversions between `int` and
`uint32_t`, the operations whose misuse is undefined, and the truncation of an
exact ratio to `int`. -/
namespace CNumbers

/-- What undefined arithmetic is reported as. -/
inductive Fault
  | divideByZero
  | intOverflow
deriving DecidableEq, Repr

/-- Conversion to `uint32_t`. -/
def uint32 (z : ℤ) : ℤ := z % 2^32

/-- Conversion to a 32-bit two's complement `int`. -/
def int32 (z : ℤ) : ℤ := Int.bmod z (2^32)

/-- Signed arithmetic: a result outside `int` is an overflow. -/
def checkedInt (z : ℤ) : Except Fault ℤ :=
  if -2^31 ≤ z ∧ z < 2^31 then .ok z else .error .intOverflow

/-- `a / b` of two `uint32_t`, `b` given by the `int` it is converted from. -/
def divUInt32 (a b : ℤ) : Except Fault ℤ :=
  if uint32 b = 0 then .error .divideByZero else .ok (uint32 a / uint32 b)

/-- `a % b` of two `uint32_t`, `b` given by the `int` it is converted from. -/
def modUInt32 (a b : ℤ) : Except Fault ℤ :=
  if uint32 b = 0 then .error .divideByZero else .ok (uint32 a % uint32 b)

/-- Conversion of an unsigned integer to `float`: 24 significant bits, ties to even. -/
def roundToFloat (n : ℕ) : ℕ :=
  if n < 2^24 then n else
    let ulp := 2^(Nat.log2 n-23)
    let q := n / ulp
    let rest := 2*(n % ulp)
    if rest < ulp ∨ (rest = ulp ∧ q % 2 = 0) then q*ulp else (q+1)*ulp

theorem uint32_eq_self (z : ℤ) (h0 : 0 ≤ z) (h : z < 2^32) : uint32 z = z :=
  Int.emod_eq_of_lt h0 h

theorem uint32_nonneg (z : ℤ) : 0 ≤ uint32 z := Int.emod_nonneg z (by norm_num)

theorem uint32_le_self (z : ℤ) (h : 0 ≤ z) : uint32 z ≤ z := by
  unfold uint32
  omega

theorem int32_eq_self (z : ℤ) (h0 : -2^31 ≤ z) (h : z < 2^31) : int32 z = z := by
  unfold int32
  apply Int.bmod_eq_of_le <;> omega

theorem int32_natCast (n : ℕ) (h : n < 2^31) : int32 (n:ℤ) = n :=
  int32_eq_self n (by omega) (by omega)

theorem checkedInt_of_range (z : ℤ) (h0 : -2^31 ≤ z) (h : z < 2^31) : checkedInt z = .ok z :=
  if_pos ⟨h0, h⟩

theorem checkedInt_natCast (n : ℕ) (h : n < 2^31) : checkedInt (n:ℤ) = .ok (n:ℤ) :=
  checkedInt_of_range n (by omega) (by omega)

theorem checkedInt_eq_ok_iff (z w : ℤ) :
    checkedInt z = .ok w ↔ w = z ∧ -2^31 ≤ z ∧ z < 2^31 := by
  unfold checkedInt
  split_ifs with h
  · rw [Except.ok.injEq]
    exact ⟨fun hw => ⟨hw.symm, h⟩, fun hw => hw.1.symm⟩
  · exact ⟨fun hw => by contradiction, fun hw => absurd hw.2 h⟩

/-- A value of `uint32_t` too large for `int` turns negative. -/
theorem int32_of_large (z : ℤ) (h0 : 2^31 ≤ z) (h : z < 2^32) : int32 z = z-2^32 := by
  unfold int32
  rw [Int.bmod_def]
  omega

theorem int32_natCast_neg (n : ℕ) (h0 : 2^31 ≤ n) (h : n < 2^32) : int32 (n:ℤ) < 0 := by
  rw [int32_of_large n (by omega) (by omega)]
  omega

theorem divUInt32_of_pos (a b : ℤ) (ha0 : 0 ≤ a) (ha : a < 2^32) (hb0 : 0 < b) (hb : b < 2^32) :
    divUInt32 a b = .ok (a / b) := by
  unfold divUInt32
  rw [uint32_eq_self b hb0.le hb, uint32_eq_self a ha0 ha, if_neg hb0.ne']

theorem modUInt32_of_pos (a b : ℤ) (ha0 : 0 ≤ a) (ha : a < 2^32) (hb0 : 0 < b) (hb : b < 2^32) :
    modUInt32 a b = .ok (a % b) := by
  unfold modUInt32
  rw [uint32_eq_self b hb0.le hb, uint32_eq_self a ha0 ha, if_neg hb0.ne']

/-- Truncation of an exact value toward zero, as a cast of a `double` to `int`. -/
def truncToInt (q : ℚ) : ℤ := if 0 ≤ q then ⌊q⌋ else ⌈q⌉

@[simp] theorem truncToInt_intCast (z : ℤ) : truncToInt z = z := by
  unfold truncToInt
  split_ifs <;> simp

theorem truncToInt_mono (p q : ℚ) (h : p ≤ q) : truncToInt p ≤ truncToInt q := by
  unfold truncToInt
  split_ifs with hp hq hq
  · exact Int.floor_mono h
  · exact absurd (hp.trans h) hq
  · have hp0 : ⌈p⌉ ≤ 0 := Int.ceil_le.mpr (by push_cast; linarith)
    exact hp0.trans (Int.floor_nonneg.mpr hq)
  · exact Int.ceil_mono h

theorem truncToInt_le_of_le (q : ℚ) (z : ℤ) (h : q ≤ z) : truncToInt q ≤ z := by
  simpa only [truncToInt_intCast] using truncToInt_mono q z h

theorem le_truncToInt_of_le (q : ℚ) (z : ℤ) (h : (z : ℚ) ≤ q) : z ≤ truncToInt q := by
  simpa only [truncToInt_intCast] using truncToInt_mono z q h

/-- A truncated length centred in `w` by a truncated offset stays inside `w`:
the two truncations never add up to more than the exact values. -/
theorem centred_trunc_within (w : ℤ) (a : ℚ) (h : a ≤ w) :
    0 ≤ truncToInt ((w-a)/2) ∧ truncToInt ((w-a)/2)+truncToInt a ≤ w := by
  have h0 : 0 ≤ ((w:ℚ)-a)/2 := by linarith
  have ht : truncToInt a ≤ w := truncToInt_le_of_le a w h
  refine ⟨le_truncToInt_of_le _ 0 (by exact_mod_cast h0), ?_⟩
  rw [show truncToInt (((w:ℚ)-a)/2) = ⌊((w:ℚ)-a)/2⌋ from if_pos h0]
  -- `a` lies less than one below its truncation, whatever its sign
  have ha : (truncToInt a : ℚ) < a+1 := by
    unfold truncToInt
    split_ifs
    · exact (Int.floor_le a).trans_lt (by linarith)
    · exact Int.ceil_lt_add_one a
  have hlt : ⌊((w:ℚ)-a)/2⌋ < w-truncToInt a+1 := by
    apply Int.floor_lt.mpr
    have hw : (truncToInt a : ℚ) ≤ w := by exact_mod_cast ht
    push_cast
    linarith
  omega

theorem truncToInt_of_nonneg (q : ℚ) (h : 0 ≤ q) :
    0 ≤ truncToInt q ∧ (truncToInt q : ℚ) ≤ q ∧ q < truncToInt q+1 := by
  rw [truncToInt, if_pos h]
  exact ⟨Int.floor_nonneg.mpr h, Int.floor_le q, Int.lt_floor_add_one q⟩

/-- A ratio that is not negative is truncated to the largest integer below it. -/
theorem truncToInt_isGreatest (q : ℚ) (a b : ℤ) (hb : 0 < b) (h : 0 ≤ q) (hq : q*b = a) :
    IsGreatest {k : ℤ | k*b ≤ a} (truncToInt q) := by
  have hb' : (0:ℚ) < b := Int.cast_pos.mpr hb
  have hk (k : ℤ) : k*b ≤ a ↔ (k:ℚ) ≤ q := by
    rw [← mul_le_mul_iff_left₀ hb', hq]
    norm_cast
  constructor
  · exact (hk _).mpr (truncToInt_of_nonneg q h).2.1
  · intro k hmem
    exact le_truncToInt_of_le q k ((hk k).mp hmem)

/-- The margin after the centred length is larger than the one before it by at
most two: one for each truncation. -/
theorem centred_trunc_margins (w : ℤ) (a : ℚ) (h0 : 0 ≤ a) (h : a ≤ w) :
    let offset := truncToInt ((w-a)/2)
    offset ≤ w-offset-truncToInt a ∧ w-offset-truncToInt a ≤ offset+2 := by
  have hd : 0 ≤ ((w:ℚ)-a)/2 := by linarith
  obtain ⟨-,hlo,hlt⟩ := truncToInt_of_nonneg _ hd
  obtain ⟨-,hlo',hlt'⟩ := truncToInt_of_nonneg a h0
  have hmin : ((2*truncToInt (((w:ℚ)-a)/2)+truncToInt a : ℤ) : ℚ) ≤ w := by
    push_cast
    linarith
  have hmax : (w : ℚ) < ((2*truncToInt (((w:ℚ)-a)/2)+truncToInt a+3 : ℤ) : ℚ) := by
    push_cast
    linarith
  have hmin' : 2*truncToInt (((w:ℚ)-a)/2)+truncToInt a ≤ w := by exact_mod_cast hmin
  have hmax' : w < 2*truncToInt (((w:ℚ)-a)/2)+truncToInt a+3 := by exact_mod_cast hmax
  dsimp only
  omega

end CNumbers

import CppOperate.RingBuffers
import Mathlib

/-! The byte queue between the log calls and the log task: `salof_fifo` with its
free-running `unsigned int` counters, and the queue of bytes it stands for. -/
namespace CppOperate.Log
open ByteMemory RingBuffers

/-- One test of `_flbs`: when the upper bits are clear, `x` moves up by as many. -/
def flbsHalf (mask shift : UInt32) (s : UInt32 × UInt32) : UInt32 × UInt32 :=
  if s.1 &&& mask = 0 then (s.1 <<< shift, s.2-shift) else s

/-- `_flbs`: find last bit set, 0 for 0. -/
def flbs (x : UInt32) : UInt32 :=
  if x = 0 then 0 else
    (flbsHalf 0x80000000 1 (flbsHalf 0xc0000000 2 (flbsHalf 0xf0000000 4
      (flbsHalf 0xff000000 8 (flbsHalf 0xffff0000 16 (x, 32)))))).2

/-- `_salof_fifo_align`. -/
def salofFifoAlign (x : UInt32) : UInt32 := 1 <<< (flbs (x-1)-1)

/-- The size `salof_fifo_create` gives the queue. -/
def fifoSize (size : UInt32) : UInt32 :=
  if size &&& (size-1) ≠ 0 then salofFifoAlign size else size

/-- The upper bits of a mask of `k` low zeros are clear in the numbers below `2^k`. -/
theorem and_mask_eq_zero_iff (x mask : UInt32) (k : ℕ) (hk : k ≤ 32)
    (hmask : mask.toNat = 2^32-2^k) : x &&& mask = 0 ↔ x.toNat < 2^k := by
  have hand : x.toNat &&& (2^32-2^k) = x.toNat / 2^k * 2^k := by
    apply Nat.eq_of_testBit_eq
    intro i
    have hsplit : 2^32-2^k = (2^(32-k)-1)*2^k := by
      rw [Nat.sub_mul, ← pow_add, Nat.sub_add_cancel hk, Nat.one_mul]
    rw [Nat.testBit_and, hsplit, Nat.testBit_mul_two_pow, Nat.testBit_mul_two_pow,
      Nat.testBit_two_pow_sub_one, Nat.testBit_div_two_pow]
    by_cases hi : k ≤ i
    · by_cases hi32 : i < 32
      · simp [hi, show i-k < 32-k by omega, show i-k+k = i by omega]
      · have hx : x.toNat.testBit i = false := by
          apply Nat.testBit_lt_two_pow
          exact lt_of_lt_of_le x.toNat_lt (Nat.pow_le_pow_right (by norm_num) (by omega))
        simp [hx, show i-k+k = i by omega]
    · simp [hi]
  rw [← UInt32.toNat_inj, UInt32.toNat_and, hmask, hand, UInt32.toNat_zero, Nat.mul_eq_zero]
  have hpos : 0 < 2^k := Nat.two_pow_pos k
  constructor
  · rintro (h | h)
    · exact (Nat.div_eq_zero_iff_lt hpos).mp h
    · omega
  · intro h
    exact Or.inl ((Nat.div_eq_zero_iff_lt hpos).mpr h)

/-- Between two tests of `_flbs`: `s.1` is `x` moved up by the `32 - s.2` places
found clear, and its top `k` bits are not all clear. -/
structure FlbsInv (x : ℕ) (k : ℕ) (s : UInt32 × UInt32) : Prop where
  moved : s.1.toNat = x*2^(32-s.2.toNat)
  le : s.2.toNat ≤ 32
  pos : 0 < s.2.toNat
  top : 2^(32-k) ≤ s.1.toNat

theorem FlbsInv.half {x k : ℕ} {s : UInt32 × UInt32} (h : FlbsInv x (2*k) s) (mask shift : UInt32)
    (hshift : shift.toNat = k) (hk : 0 < k) (hk16 : k ≤ 16) (hmask : mask.toNat = 2^32-2^(32-k)) :
    FlbsInv x k (flbsHalf mask shift s) := by
  unfold flbsHalf
  have hiff := and_mask_eq_zero_iff s.1 mask (32-k) (by omega) hmask
  have hle := h.le
  have htop := h.top
  split_ifs with hz
  · have hlt : s.1.toNat < 2^(32-k) := hiff.mp hz
    have hx : 0 < x := by
      apply Nat.pos_of_ne_zero
      rintro rfl
      have := h.moved
      have := Nat.two_pow_pos (32-2*k)
      omega
    -- the bits moved so far and the ones moved now stay inside the word
    have hs2 : k < s.2.toNat := by
      by_contra hge
      have hpow : 2^(32-k) ≤ 2^(32-s.2.toNat) := Nat.pow_le_pow_right (by norm_num) (by omega)
      have : 2^(32-s.2.toNat) ≤ x*2^(32-s.2.toNat) := Nat.le_mul_of_pos_left _ hx
      have := h.moved
      omega
    have hshl : (s.1 <<< shift).toNat = s.1.toNat*2^k := by
      rw [UInt32.toNat_shiftLeft, hshift, Nat.mod_eq_of_lt (by omega : k < 32),
        Nat.shiftLeft_eq, Nat.mod_eq_of_lt]
      calc s.1.toNat*2^k < 2^(32-k)*2^k := (Nat.mul_lt_mul_right (Nat.two_pow_pos k)).mpr hlt
        _ = 2^32 := by rw [← pow_add, Nat.sub_add_cancel (by omega)]
    have hsub : (s.2-shift).toNat = s.2.toNat-k := by
      rw [UInt32.toNat_sub, hshift]
      have := s.2.toNat_lt
      omega
    refine ⟨?_, ?_, ?_, ?_⟩
    · show (s.1 <<< shift).toNat = x*2^(32-(s.2-shift).toNat)
      rw [hshl, hsub, h.moved, Nat.mul_assoc, ← pow_add]
      congr 2
      omega
    · show (s.2-shift).toNat ≤ 32
      omega
    · show 0 < (s.2-shift).toNat
      omega
    · show 2^(32-k) ≤ (s.1 <<< shift).toNat
      rw [hshl]
      calc 2^(32-k) = 2^(32-2*k)*2^k := by rw [← pow_add]; congr 1; omega
        _ ≤ s.1.toNat*2^k := Nat.mul_le_mul_right _ htop
  · exact ⟨h.moved, hle, h.pos, Nat.le_of_not_lt fun hlt => hz (hiff.mpr hlt)⟩

/-- `_flbs` counts the places up to the highest set bit. -/
theorem flbs_toNat (x : UInt32) (hx : x ≠ 0) : (flbs x).toNat = Nat.log2 x.toNat+1 := by
  have hx0 : x.toNat ≠ 0 := by
    intro h
    exact hx (UInt32.toNat_inj.mp h)
  have h0 : FlbsInv x.toNat (2*16) (x, 32) :=
    ⟨(Nat.mul_one _).symm, le_rfl, Nat.zero_lt_succ _, Nat.pos_of_ne_zero hx0⟩
  have h1 := h0.half 0xffff0000 16 rfl (by norm_num) le_rfl (by decide)
  have h2 := FlbsInv.half (k := 8) h1 0xff000000 8 rfl (by norm_num) (by norm_num) (by decide)
  have h3 := FlbsInv.half (k := 4) h2 0xf0000000 4 rfl (by norm_num) (by norm_num) (by decide)
  have h4 := FlbsInv.half (k := 2) h3 0xc0000000 2 rfl (by norm_num) (by norm_num) (by decide)
  have h5 := FlbsInv.half (k := 1) h4 0x80000000 1 rfl Nat.one_pos (by norm_num) (by decide)
  rw [flbs, if_neg hx]
  revert h5
  generalize flbsHalf 0x80000000 1 _ = s
  intro h5
  obtain ⟨hmoved,hle,hgt,htop⟩ := h5
  have hlt := s.1.toNat_lt
  -- `2^31 ≤ x * 2^(32-r) < 2^32` leaves one value of `r`
  have hr : 2^(32-(32-s.2.toNat+1)) ≤ x.toNat ∧ x.toNat < 2^(32-(32-s.2.toNat)) := by
    constructor
    · have hpow : 2^(32-(32-s.2.toNat+1))*2^(32-s.2.toNat) = 2^31 := by
        rw [← pow_add]
        congr 1
        omega
      apply Nat.le_of_mul_le_mul_right _ (Nat.two_pow_pos (32-s.2.toNat))
      rw [hpow, ← hmoved]
      exact htop
    · have hpow : 2^(32-(32-s.2.toNat))*2^(32-s.2.toNat) = 2^32 := by
        rw [← pow_add]
        congr 1
        omega
      apply Nat.lt_of_mul_lt_mul_right (a := 2^(32-s.2.toNat))
      rw [hpow, ← hmoved]
      exact hlt
  have hlog : Nat.log2 x.toNat = s.2.toNat-1 := by
    rw [Nat.log2_eq_iff hx0]
    constructor
    · have := hr.1
      rwa [show 32-(32-s.2.toNat+1) = s.2.toNat-1 by omega] at this
    · have := hr.2
      rwa [show 32-(32-s.2.toNat) = s.2.toNat-1+1 by omega] at this
  omega

/-- The size of the queue is the largest power of two not above the size asked for. -/
theorem fifoSize_toNat (size : UInt32) (hsize : size ≠ 0) :
    (fifoSize size).toNat = 2^Nat.log2 size.toNat := by
  have hn : size.toNat ≠ 0 := by
    intro h
    exact hsize (UInt32.toNat_inj.mp h)
  have hpred : (size-1).toNat = size.toNat-1 := by
    rw [UInt32.toNat_sub, UInt32.toNat_one]
    have := size.toNat_lt
    omega
  have hiff : size &&& (size-1) = 0 ↔ size.toNat.isPowerOfTwo := by
    rw [← UInt32.toNat_inj, UInt32.toNat_and, hpred, UInt32.toNat_zero]
    exact Nat.and_sub_one_eq_zero_iff_isPowerOfTwo hn
  unfold fifoSize
  split_ifs with hpow
  · have hnot : ¬ size.toNat.isPowerOfTwo := fun h => hpow (hiff.mpr h)
    have hlt := (Nat.log2_eq_iff hn).mp rfl
    -- not a power of two: the number before it has the same highest bit
    have hne : size.toNat ≠ 2^Nat.log2 size.toNat := fun h => hnot ⟨_,h⟩
    have hpos : 0 < 2^Nat.log2 size.toNat := Nat.two_pow_pos _
    have hlog : Nat.log2 (size.toNat-1) = Nat.log2 size.toNat := by
      rw [Nat.log2_eq_iff (by omega)]
      omega
    have hpred0 : size-1 ≠ 0 := by
      intro h
      rw [h, UInt32.toNat_zero] at hpred
      omega
    have hflbs := flbs_toNat (size-1) hpred0
    rw [hpred, hlog] at hflbs
    have hlog32 : Nat.log2 size.toNat < 32 := (Nat.log2_lt hn).mpr size.toNat_lt
    have hsub : (flbs (size-1)-1).toNat = Nat.log2 size.toNat := by
      rw [UInt32.toNat_sub, hflbs, UInt32.toNat_one]
      omega
    rw [salofFifoAlign, UInt32.toNat_shiftLeft, hsub, UInt32.toNat_one, Nat.mod_eq_of_lt hlog32,
      Nat.shiftLeft_eq, Nat.one_mul, Nat.mod_eq_of_lt]
    exact Nat.pow_lt_pow_right (by norm_num) hlog32
  · obtain ⟨k,hk⟩ := hiff.mp (not_not.mp hpow)
    rw [hk, Nat.log2_two_pow]

/-- `SEM_VALUE_MAX` of Linux. -/
def semValueMax : ℕ := 2147483647

/-- `struct salof_fifo` without its mutex and semaphore. -/
structure Fifo where
  size : UInt32
  inPos : UInt32
  outPos : UInt32
  buff : List UInt8
  size_pow : size.toNat.isPowerOfTwo
  buff_length : buff.length = size.toNat

theorem fifoSize_pow (size : UInt32) (h : size ≠ 0) : (fifoSize size).toNat.isPowerOfTwo :=
  ⟨_, fifoSize_toNat size h⟩

/-- `salof_fifo_create`; `malloc` gives `NULL` or memory of any content, `mutexOk`
and `semOk` say whether the mutex and the semaphore could be made. -/
def salofFifoCreate (malloc : ∀ n : ℕ, Option (List.Vector UInt8 n)) (mutexOk semOk : Bool)
    (size : UInt32) : Option Fifo :=
  if h : size = 0 then none else
    (malloc (fifoSize size).toNat).bind fun memory =>
      if mutexOk && semOk then
        some ⟨fifoSize size, 0, 0, memory.toList, fifoSize_pow size h, memory.toList_length⟩
      else none

theorem salofFifoCreate_eq_some {malloc : ∀ n : ℕ, Option (List.Vector UInt8 n)}
    {mutexOk semOk : Bool} {size : UInt32} {f : Fifo}
    (h : salofFifoCreate malloc mutexOk semOk size = some f) :
    size ≠ 0 ∧ f.size = fifoSize size ∧ f.inPos = 0 ∧ f.outPos = 0 := by
  unfold salofFifoCreate at h
  split_ifs at h with hzero
  · obtain ⟨memory,_,hf⟩ := Option.bind_eq_some_iff.mp h
    obtain rfl := Option.some.inj hf
    exact ⟨hzero, rfl, rfl, rfl⟩
  · obtain ⟨_,_,hf⟩ := Option.bind_eq_some_iff.mp h
    contradiction

/-- Memory that is zero. -/
def zeroed (n : ℕ) : Option (List.Vector UInt8 n) := some (List.Vector.replicate n 0)

/-- Asked for five bytes, a queue has four. -/
def smallFifo : Fifo := ⟨4, 0, 0, [0, 0, 0, 0], ⟨2, rfl⟩, rfl⟩

theorem smallFifo_create : salofFifoCreate zeroed true true 5 = some smallFifo := rfl

namespace Fifo

/-- `memcpy` into the buffer at `d`. -/
def copyIn (f : Fifo) (d : ℕ) (src : List UInt8) (s n : ℕ) : Option Fifo :=
  match h : memcpy f.buff d src s n with
  | none => none
  | some m => some { f with
      buff := m
      buff_length := (memcpy_length f.buff d src s n m h).trans f.buff_length }

/-- The number of bytes `memcpy` is called for by an `int`: a negative one becomes
a huge `size_t`. -/
def intToSize (l : UInt32) : ℕ := if l.toNat < 2^31 then l.toNat else 2^64-2^32+l.toNat

/-- `size - in + out`: the bytes that can still be written. -/
def free (f : Fifo) : UInt32 := f.size-f.inPos+f.outPos

/-- The bytes from a position on to the end of the buffer. -/
def untilEnd (f : Fifo) (pos : UInt32) : UInt32 := f.size-(pos &&& (f.size-1))

/-- The cell of a position. -/
def cellOf (f : Fifo) (pos : UInt32) : ℕ := (pos &&& (f.size-1)).toNat

/-- `FIFO_MIN`. -/
def fifoMin (a b : UInt32) : UInt32 := if a < b then a else b

/-- `salof_fifo_write` while it holds the mutex: the queue afterwards and the number
of bytes written. -/
def put (f : Fifo) (buff : List UInt8) (len : UInt32) : Option (Fifo × UInt32) :=
  let len := fifoMin len f.free
  let l := fifoMin len (f.untilEnd f.inPos)
  (f.copyIn (f.cellOf f.inPos) buff 0 (intToSize l)).bind fun g =>
    (g.copyIn 0 buff l.toNat (len-l).toNat).map fun g => ({ g with inPos := g.inPos+len }, len)

/-- `salof_fifo_read` after its `salof_sem_pend`: the queue and the caller's memory
afterwards, and the number of bytes read. -/
def fetch (f : Fifo) (buff : List UInt8) (len : UInt32) :
    Option (Fifo × List UInt8 × UInt32) :=
  if len = 0 then some (f, buff, 0) else
    let len := fifoMin len (f.inPos-f.outPos)
    let l := fifoMin len (f.untilEnd f.outPos)
    (memcpy buff 0 f.buff (f.cellOf f.outPos) (intToSize l)).bind fun b =>
      (memcpy b l.toNat f.buff 0 (len-l).toNat).map fun b =>
        ({ f with outPos := f.outPos+len }, b, len)

/-- `salof_fifo_read_able`. -/
def salofFifoReadAble (f : Fifo) : UInt32 :=
  if f.inPos = f.outPos then 0
  else if f.inPos > f.outPos then f.inPos-f.outPos
  else f.size-(f.outPos-f.inPos)

/-- The cell the two copies of a write of `n` bytes give byte `k`. -/
def copyCell (f : Fifo) (n : UInt32) (k : ℕ) : ℕ :=
  let l := (fifoMin n (f.untilEnd f.inPos)).toNat
  if k < l then f.cellOf f.inPos+k else k-l

/-- The bytes `q` between the two positions, and behind them the bytes `ahead` of a
write that has not moved `in` yet. -/
structure Stores (f : Fifo) (q ahead : List UInt8) : Prop where
  inPos : f.inPos.toNat = (f.outPos.toNat+q.length) % 2^32
  holds : Holds f.buff f.outPos.toNat (q ++ ahead)

variable (f : Fifo)

theorem size_pos : 0 < f.size.toNat := Nat.pos_of_isPowerOfTwo f.size_pow

theorem size_dvd : f.size.toNat ∣ 2^32 := by
  obtain ⟨k,hk⟩ := f.size_pow
  rw [hk]
  apply Nat.pow_dvd_pow 2
  have hlt := f.size.toNat_lt
  rw [hk] at hlt
  exact ((Nat.pow_lt_pow_iff_right (by norm_num)).mp hlt).le

theorem cellOf_eq (pos : UInt32) : f.cellOf pos = pos.toNat % f.size.toNat := by
  obtain ⟨k,hk⟩ := f.size_pow
  have hpos := f.size_pos
  have hpred : (f.size-1).toNat = 2^k-1 := by
    rw [UInt32.toNat_sub, UInt32.toNat_one]
    have := f.size.toNat_lt
    omega
  rw [cellOf, UInt32.toNat_and, hpred, Nat.and_two_pow_sub_one_eq_mod, hk]

theorem cellOf_lt (pos : UInt32) : f.cellOf pos < f.size.toNat := by
  rw [cellOf_eq]
  exact Nat.mod_lt _ f.size_pos

theorem untilEnd_toNat (pos : UInt32) :
    (f.untilEnd pos).toNat = f.size.toNat-f.cellOf pos := by
  have hlt := f.cellOf_lt pos
  have hsize := f.size.toNat_lt
  unfold cellOf at hlt
  rw [untilEnd, UInt32.toNat_sub, cellOf]
  omega

theorem fifoMin_toNat (a b : UInt32) : (fifoMin a b).toNat = min a.toNat b.toNat := by
  unfold fifoMin
  split_ifs with h <;> rw [UInt32.lt_iff_toNat_lt] at h <;> omega

theorem intToSize_of_lt (l : UInt32) (h : l.toNat < 2^31) : intToSize l = l.toNat := if_pos h

/-- Only the buffer differs. -/
structure SameCounters (g f : Fifo) : Prop where
  size : g.size = f.size
  inPos : g.inPos = f.inPos
  outPos : g.outPos = f.outPos

/-- A copy into the buffer leaves the counters. -/
theorem copyIn_of_memcpy (d : ℕ) (src : List UInt8) (s n : ℕ) (m : List UInt8)
    (h : memcpy f.buff d src s n = some m) :
    ∃ g, f.copyIn d src s n = some g ∧ g.buff = m ∧ g.SameCounters f := by
  refine ⟨{ f with
    buff := m, buff_length := (memcpy_length _ _ _ _ _ m h).trans f.buff_length }, ?_, rfl, ?_⟩
  · unfold copyIn
    split
    · rename_i h'
      rw [h] at h'
      contradiction
    · rename_i m' h'
      rw [h, Option.some.injEq] at h'
      subst h'
      rfl
  · exact ⟨rfl, rfl, rfl⟩

namespace Stores
variable {f} {q ahead : List UInt8}

theorem length_le (h : f.Stores q ahead) : q.length+ahead.length ≤ f.size.toNat := by
  have := h.holds.fits
  rwa [List.length_append, f.buff_length] at this

/-- The room left, also after the counters have wrapped around. -/
theorem free_toNat (h : f.Stores q ahead) : f.free.toNat = f.size.toNat-q.length := by
  have hle := h.length_le
  have hin := h.inPos
  have hsize := f.size.toNat_lt
  have hout := f.outPos.toNat_lt
  rw [free, UInt32.toNat_add, UInt32.toNat_sub]
  omega

theorem used_toNat (h : f.Stores q ahead) : (f.inPos-f.outPos).toNat = q.length := by
  have hle := h.length_le
  have hin := h.inPos
  have hsize := f.size.toNat_lt
  have hout := f.outPos.toNat_lt
  rw [UInt32.toNat_sub]
  omega

theorem cellOf_inPos (h : f.Stores q ahead) :
    f.cellOf f.inPos = (f.outPos.toNat+q.length) % f.buff.length := by
  rw [cellOf_eq, h.inPos, f.buff_length, Nat.mod_mod_of_dvd _ f.size_dvd]

/-- A new queue is empty. -/
theorem of_create {malloc : ∀ n : ℕ, Option (List.Vector UInt8 n)} {mutexOk semOk : Bool}
    {size : UInt32} (h : salofFifoCreate malloc mutexOk semOk size = some f) :
    f.Stores [] [] := by
  obtain ⟨-,-,hin,hout⟩ := salofFifoCreate_eq_some h
  refine ⟨?_, Holds.nil _ _⟩
  rw [hin, hout]
  rfl

section copies
variable (data : List UInt8) (n : UInt32) (hint : n.toNat < 2^31)
include hint

/-- The length of the piece up to the end of the buffer. -/
theorem piece_toNat (f : Fifo) (pos : UInt32) :
    intToSize (fifoMin n (f.untilEnd pos)) = min n.toNat (f.buff.length-f.cellOf pos) ∧
    (fifoMin n (f.untilEnd pos)).toNat = min n.toNat (f.buff.length-f.cellOf pos) := by
  have hmin : (fifoMin n (f.untilEnd pos)).toNat = min n.toNat (f.buff.length-f.cellOf pos) := by
    rw [fifoMin_toNat, untilEnd_toNat, f.buff_length]
  rw [intToSize_of_lt _ (by omega)]
  exact ⟨hmin, hmin⟩

theorem rest_toNat (f : Fifo) (pos : UInt32) :
    (n-fifoMin n (f.untilEnd pos)).toNat = n.toNat-min n.toNat (f.buff.length-f.cellOf pos) := by
  have hpiece := (piece_toNat n hint f pos).2
  have := n.toNat_lt
  rw [UInt32.toNat_sub]
  omega

theorem first_copy (h : f.Stores q []) (hn : n.toNat ≤ data.length)
    (hfits : q.length+n.toNat ≤ f.size.toNat) :
    ∃ g, f.copyIn (f.cellOf f.inPos) data 0 (intToSize (fifoMin n (f.untilEnd f.inPos))) =
        some g ∧ g.SameCounters f ∧
      g.Stores q (data.take (fifoMin n (f.untilEnd f.inPos)).toNat) := by
  obtain ⟨hsize,hpiece⟩ := piece_toNat n hint f f.inPos
  have hholds := h.holds
  rw [List.append_nil] at hholds
  obtain ⟨mem,hmem,-,hnew⟩ := hholds.first_copy data n.toNat hn (by rw [f.buff_length]; exact hfits)
    (by rw [f.buff_length]; exact f.size_pos) _ _ h.cellOf_inPos hsize
  obtain ⟨g,hg,rfl,hsame⟩ := f.copyIn_of_memcpy _ data 0 _ mem hmem
  refine ⟨g, hg, hsame, ?_, ?_⟩
  · rw [hsame.inPos, hsame.outPos]
    exact h.inPos
  · rw [hsame.outPos, hpiece, ← hsize]
    exact hnew

theorem second_copy (h : f.Stores q (data.take (fifoMin n (f.untilEnd f.inPos)).toNat))
    (hn : n.toNat ≤ data.length) (hfits : q.length+n.toNat ≤ f.size.toNat) :
    ∃ g, f.copyIn 0 data (fifoMin n (f.untilEnd f.inPos)).toNat
        (n-fifoMin n (f.untilEnd f.inPos)).toNat = some g ∧ g.SameCounters f ∧
      g.Stores q (data.take n.toNat) := by
  have hpiece := (piece_toNat n hint f f.inPos).2
  have hholds := h.holds
  rw [hpiece] at hholds
  obtain ⟨mem,hmem,-,hnew⟩ := Holds.second_copy data n.toNat hn _ _ h.cellOf_inPos rfl hholds
    (by rw [f.buff_length]; exact hfits) (by rw [f.buff_length]; exact f.size_pos)
  rw [← rest_toNat n hint, ← hpiece] at hmem
  obtain ⟨g,hg,rfl,hsame⟩ := f.copyIn_of_memcpy _ data _ _ mem hmem
  refine ⟨g, hg, hsame, ?_, ?_⟩
  · rw [hsame.inPos, hsame.outPos]
    exact h.inPos
  · rw [hsame.outPos]
    exact hnew

theorem first_fetch (h : f.Stores q ahead) (hn : n.toNat ≤ q.length) (hdata : n.toNat ≤ data.length) :
    memcpy data 0 f.buff (f.cellOf f.outPos) (intToSize (fifoMin n (f.untilEnd f.outPos))) =
      some (q.take (fifoMin n (f.untilEnd f.outPos)).toNat ++
        data.drop (fifoMin n (f.untilEnd f.outPos)).toNat) := by
  obtain ⟨hsize,hpiece⟩ := piece_toNat n hint f f.outPos
  have hcell : f.cellOf f.outPos = f.outPos.toNat % f.buff.length := by
    rw [cellOf_eq, f.buff_length]
  have hfetch := h.holds.left.first_fetch data n.toNat hn hdata
    (by rw [f.buff_length]; exact f.size_pos) _ _ hcell hsize
  rwa [hpiece, ← hsize]

theorem second_fetch (h : f.Stores q ahead) (hn : n.toNat ≤ q.length)
    (hdata : n.toNat ≤ data.length) :
    memcpy (q.take (fifoMin n (f.untilEnd f.outPos)).toNat ++
        data.drop (fifoMin n (f.untilEnd f.outPos)).toNat)
      (fifoMin n (f.untilEnd f.outPos)).toNat f.buff 0
      (n-fifoMin n (f.untilEnd f.outPos)).toNat = some (q.take n.toNat ++ data.drop n.toNat) := by
  have hpiece := (piece_toNat n hint f f.outPos).2
  have hcell : f.cellOf f.outPos = f.outPos.toNat % f.buff.length := by
    rw [cellOf_eq, f.buff_length]
  rw [rest_toNat n hint, hpiece]
  exact h.holds.left.second_fetch data n.toNat hn hdata
    (by rw [f.buff_length]; exact f.size_pos) _ _ hcell rfl

end copies

/-- A write of `n` bytes, byte by byte: byte `k` goes behind the `k` bytes before it. -/
theorem copy_byte (h : f.Stores q ahead) (n : UInt32) (src : List UInt8) (b : UInt8)
    (hn : ahead.length < n.toNat) (hfits : q.length+n.toNat ≤ f.size.toNat)
    (hb : src[ahead.length]? = some b) :
    ∃ g, f.copyIn (f.copyCell n ahead.length) src ahead.length 1 = some g ∧ g.SameCounters f ∧
      g.Stores q (ahead ++ [b]) := by
  have hpos : 0 < f.buff.length := by
    rw [f.buff_length]
    exact f.size_pos
  have hlen : ahead.length < f.buff.length := by
    rw [f.buff_length]
    omega
  have hcell : f.copyCell n ahead.length =
      (f.outPos.toNat+(q ++ ahead).length) % f.buff.length := by
    have hbound := f.cellOf_lt f.inPos
    rw [List.length_append, ← Nat.add_assoc, cell_add _ _ _ hlen, ← h.cellOf_inPos, copyCell,
      fifoMin_toNat, untilEnd_toNat, f.buff_length]
    split_ifs <;> omega
  have hone : (src.drop ahead.length).take 1 = [b] := by
    rw [List.take_one, List.head?_drop, hb]
    rfl
  obtain ⟨hsrc,-⟩ := List.getElem?_eq_some_iff.mp hb
  -- the cell is free and does not pass the end of the buffer
  obtain ⟨mem,hmem,-,hnew⟩ := h.holds.writeAt [b]
    (by rw [List.length_append, List.length_singleton, f.buff_length]; omega)
    (by
      have hlt := Nat.mod_lt (f.outPos.toNat+(q ++ ahead).length) hpos
      rw [List.length_singleton]
      omega) hpos
  obtain ⟨g,hg,rfl,hsame⟩ := f.copyIn_of_memcpy (f.copyCell n ahead.length) src ahead.length 1 mem
    (by rw [memcpy_eq_writeAt _ _ _ _ _ hsrc, hone, hcell]; exact hmem)
  refine ⟨g, hg, hsame, ?_, ?_⟩
  · rw [hsame.inPos, hsame.outPos]
    exact h.inPos
  · rw [hsame.outPos, ← List.append_assoc]
    exact hnew

/-- `in += len` makes the bytes written ahead part of the queue. -/
theorem publish (h : f.Stores q ahead) (n : UInt32) (hn : n.toNat = ahead.length) :
    ({ f with inPos := f.inPos+n } : Fifo).Stores (q ++ ahead) [] := by
  refine ⟨?_, by rw [List.append_nil]; exact h.holds⟩
  show (f.inPos+n).toNat = (f.outPos.toNat+(q ++ ahead).length) % 2^32
  rw [UInt32.toNat_add, h.inPos, hn, List.length_append]
  omega

/-- `out += len` takes the first bytes out of the queue. -/
theorem release (h : f.Stores q ahead) (n : UInt32) (hn : n.toNat ≤ q.length) :
    ({ f with outPos := f.outPos+n } : Fifo).Stores (q.drop n.toNat) ahead := by
  refine ⟨?_, ?_⟩
  · show f.inPos.toNat = ((f.outPos+n).toNat+(q.drop n.toNat).length) % 2^32
    rw [UInt32.toNat_add, h.inPos, List.length_drop]
    omega
  · show Holds f.buff (f.outPos+n).toNat _
    have hdrop := h.holds.drop n.toNat
    rw [List.drop_append_of_le_length hn] at hdrop
    rw [UInt32.toNat_add]
    exact hdrop.mod _ (f.buff_length ▸ f.size_dvd)

/-- Writing appends as much of the caller's bytes as there is room for. -/
theorem write (h : f.Stores q []) (buff : List UInt8) (len : UInt32) (hlen : len.toNat ≤ buff.length)
    (hint : len.toNat < 2^31) :
    ∃ g n, f.put buff len = some (g, n) ∧ g.size = f.size ∧ g.outPos = f.outPos ∧
      n.toNat = min len.toNat (f.size.toNat-q.length) ∧ g.Stores (q ++ buff.take n.toNat) [] := by
  unfold put
  have hle := h.length_le
  have hn : (fifoMin len f.free).toNat = min len.toNat (f.size.toNat-q.length) := by
    rw [fifoMin_toNat, h.free_toNat]
  set n := fifoMin len f.free with hndef
  rw [List.length_nil] at hle
  obtain ⟨g,hg,hsame,hstores⟩ := h.first_copy buff n (by omega) (by omega) (by omega)
  rw [← hsame.inPos] at hstores
  have huntil : g.untilEnd g.inPos = f.untilEnd f.inPos := by
    rw [untilEnd, untilEnd, hsame.size, hsame.inPos]
  have hstores' : g.Stores q (buff.take (fifoMin n (g.untilEnd g.inPos)).toNat) := by
    rw [huntil, ← hsame.inPos]
    exact hstores
  obtain ⟨g',hg',hsame',hfinal⟩ := hstores'.second_copy buff n (by omega) (by omega)
    (by rw [hsame.size]; omega)
  rw [huntil] at hg'
  have htake : n.toNat = (buff.take n.toNat).length := by rw [List.length_take]; omega
  refine ⟨{ g' with inPos := g'.inPos+n }, n, ?_, ?_, ?_, hn, hfinal.publish n htake⟩
  · show (f.copyIn _ buff 0 (intToSize (fifoMin n (f.untilEnd f.inPos)))).bind (fun g =>
      (g.copyIn 0 buff (fifoMin n (f.untilEnd f.inPos)).toNat
        (n-fifoMin n (f.untilEnd f.inPos)).toNat).map fun g =>
          ({ g with inPos := g.inPos+n }, n)) = _
    rw [hg, Option.bind_some, hg', Option.map_some]
  · show g'.size = f.size
    rw [hsame'.size, hsame.size]
  · show g'.outPos = f.outPos
    rw [hsame'.outPos, hsame.outPos]

/-- Reading takes the first bytes of the queue, in order. -/
theorem read (h : f.Stores q []) (buff : List UInt8) (len : UInt32) (hlen : len.toNat ≤ buff.length)
    (hint : len.toNat < 2^31) :
    ∃ g n, f.fetch buff len =
        some (g, q.take n.toNat ++ buff.drop n.toNat, n) ∧ g.size = f.size ∧
      g.outPos = f.outPos+n ∧ n.toNat = min len.toNat q.length ∧ g.Stores (q.drop n.toNat) [] := by
  unfold fetch
  split_ifs with hzero
  · refine ⟨f, 0, rfl, rfl, (UInt32.add_zero _).symm, ?_, ?_⟩
    · rw [hzero, UInt32.toNat_zero, Nat.zero_min]
    · rw [UInt32.toNat_zero, List.drop_zero]
      exact h
  have hn : (fifoMin len (f.inPos-f.outPos)).toNat = min len.toNat q.length := by
    rw [fifoMin_toNat, h.used_toNat]
  set n := fifoMin len (f.inPos-f.outPos) with hndef
  refine ⟨{ f with outPos := f.outPos+n }, n, ?_, rfl, rfl, hn, h.release n (by omega)⟩
  show (memcpy buff 0 f.buff (f.cellOf f.outPos)
      (intToSize (fifoMin n (f.untilEnd f.outPos)))).bind (fun b =>
    (memcpy b (fifoMin n (f.untilEnd f.outPos)).toNat f.buff 0
      (n-fifoMin n (f.untilEnd f.outPos)).toNat).map fun b =>
        ({ f with outPos := f.outPos+n }, b, n)) = _
  rw [h.first_fetch buff n (by omega) (by omega) (by omega), Option.bind_some,
    h.second_fetch buff n (by omega) (by omega) (by omega), Option.map_some]

/-- `read_able` counts the bytes of the queue as long as the writing position has not
wrapped around before the reading position; in between it counts a whole buffer
too much. -/
theorem readAble_toNat (h : f.Stores q []) : f.salofFifoReadAble.toNat =
    if f.outPos.toNat+q.length < 2^32 then q.length else (q.length+f.size.toNat) % 2^32 := by
  have hle := h.length_le
  have hin := h.inPos
  have hsize := f.size.toNat_lt
  have hpos := f.size_pos
  have hout := f.outPos.toNat_lt
  rw [List.length_nil] at hle
  unfold salofFifoReadAble
  split_ifs with heq hroom hgt hroom hroom
  · rw [heq] at hin
    rw [UInt32.toNat_zero]
    omega
  · rw [heq] at hin
    -- an empty queue, and its position is below `2^32`
    omega
  · exact h.used_toNat
  · rw [gt_iff_lt, UInt32.lt_iff_toNat_lt] at hgt
    omega
  · rw [gt_iff_lt, UInt32.lt_iff_toNat_lt] at hgt
    have hne : f.inPos.toNat ≠ f.outPos.toNat := fun hn => heq (UInt32.toNat_inj.mp hn)
    omega
  · rw [UInt32.toNat_sub, UInt32.toNat_sub]
    omega

end Stores

end Fifo

end CppOperate.Log

import CppOperate.ByteMemory
import Mathlib

/-! Pieces of wire formats and how code writes and reads them: numbers base 128 with
a continuation bit, numbers in two bytes, strings behind their length, and a cursor
that stores one piece behind the other in a block of memory. -/
namespace WireFormats
open ByteMemory

/-- `n` base 128, low digit first, the top bit set on every digit but the last. -/
def base128 (n : ℕ) : List UInt8 :=
  if n < 128 then [UInt8.ofNat n] else UInt8.ofNat (n % 128+128) :: base128 (n / 128)

/-- The number at the front and what follows it: `none` if it does not end within
`k` digits or within the bytes. -/
def readBase128 : ℕ → List UInt8 → Option (ℕ × List UInt8)
  | 0, _ => none
  | _+1, [] => none
  | k+1, b :: bs =>
    if b.toNat < 128 then some (b.toNat, bs)
    else (readBase128 k bs).map fun r => (b.toNat-128+128*r.1, r.2)

theorem toNat_ofNat (n : ℕ) (h : n < 256) : (UInt8.ofNat n).toNat = n := by
  rw [UInt8.toNat_ofNat']
  omega

theorem base128_of_lt (n : ℕ) (h : n < 128) : base128 n = [UInt8.ofNat n] := by
  rw [base128, if_pos h]

theorem base128_of_ge (n : ℕ) (h : 128 ≤ n) :
    base128 n = UInt8.ofNat (n % 128+128) :: base128 (n / 128) := by
  rw [base128, if_neg (Nat.not_lt.mpr h)]

theorem base128_ne_nil (n : ℕ) : base128 n ≠ [] := by
  rw [base128]
  split_ifs <;> exact List.cons_ne_nil _ _

theorem base128_length_pos (n : ℕ) : 0 < (base128 n).length :=
  List.length_pos_of_ne_nil (base128_ne_nil n)

/-- A number has at most `k+1` digits exactly when it is below `128^(k+1)`. -/
theorem base128_length_le_iff (k n : ℕ) : (base128 n).length ≤ k+1 ↔ n < 128^(k+1) := by
  induction k generalizing n with
  | zero =>
    by_cases h : n < 128
    · rw [base128_of_lt n h]
      simpa using h
    · have hpos := base128_length_pos (n/128)
      rw [base128_of_ge n (by omega), List.length_cons]
      constructor
      · intro hle
        omega
      · intro hlt
        omega
  | succ k ih =>
    by_cases h : n < 128
    · rw [base128_of_lt n h]
      have hpow : 128^1 ≤ 128^(k+1+1) := Nat.pow_le_pow_right (by norm_num) (by omega)
      constructor
      · intro _
        exact h.trans_le hpow
      · intro _
        rw [List.length_singleton]
        omega
    · rw [base128_of_ge n (by omega), List.length_cons, Nat.add_le_add_iff_right, ih,
        Nat.div_lt_iff_lt_mul (by norm_num), ← pow_succ]

/-- A smaller number does not need more digits. -/
theorem base128_length_mono (m n : ℕ) (h : m ≤ n) : (base128 m).length ≤ (base128 n).length := by
  obtain ⟨k,hk⟩ := Nat.exists_eq_add_of_lt (base128_length_pos n)
  rw [Nat.zero_add] at hk
  have hn := (base128_length_le_iff k n).mp hk.le
  rw [hk]
  exact (base128_length_le_iff k m).mpr (h.trans_lt hn)

/-- Reading gives back what was written, and stops at its end. -/
theorem readBase128_base128 (k n : ℕ) (rest : List UInt8) (h : n < 128^(k+1)) :
    readBase128 (k+1) (base128 n ++ rest) = some (n,rest) := by
  induction k generalizing n with
  | zero =>
    rw [base128_of_lt n (by omega)]
    have hn : (UInt8.ofNat n).toNat = n := toNat_ofNat _ (by omega)
    rw [List.singleton_append, readBase128, hn, if_pos (by omega)]
  | succ k ih =>
    by_cases hn : n < 128
    · rw [base128_of_lt n hn, List.singleton_append, readBase128,
        toNat_ofNat _ (by omega), if_pos hn]
    · have hdigit : (UInt8.ofNat (n % 128+128)).toNat = n % 128+128 :=
        toNat_ofNat _ (by omega)
      have hdiv : n/128 < 128^(k+1) := by
        rw [Nat.div_lt_iff_lt_mul (by norm_num), ← pow_succ]
        exact h
      rw [base128_of_ge n (by omega), List.cons_append, readBase128, hdigit,
        if_neg (by omega), ih _ hdiv, Option.map_some]
      have hvalue : n % 128+128-128+128*(n/128) = n := by omega
      rw [hvalue]

/-- A number in two bytes, high byte first, modulo `2^16`. -/
def be16 (n : ℕ) : List UInt8 := [UInt8.ofNat (n/256), UInt8.ofNat n]

@[simp] theorem be16_length (n : ℕ) : (be16 n).length = 2 := rfl

theorem be16_value (n : ℕ) (h : n < 65536) :
    256*(UInt8.ofNat (n/256)).toNat+(UInt8.ofNat n).toNat = n := by
  rw [UInt8.toNat_ofNat', UInt8.toNat_ofNat']
  omega

theorem be16_of_value (hi lo : UInt8) : be16 (256*hi.toNat+lo.toNat) = [hi,lo] := by
  have hhi := hi.toNat_lt
  have hlo := lo.toNat_lt
  unfold be16
  congr 1
  · apply UInt8.toNat_inj.mp
    rw [UInt8.toNat_ofNat']
    omega
  · congr 1
    apply UInt8.toNat_inj.mp
    rw [UInt8.toNat_ofNat']
    omega

/-- A string behind its length in two bytes. -/
def prefixed (s : List UInt8) : List UInt8 := be16 s.length ++ s

@[simp] theorem prefixed_length (s : List UInt8) : (prefixed s).length = 2+s.length := by
  rw [prefixed, List.length_append, be16_length]

/-- The string at the front and what follows it. -/
def readPrefixed : List UInt8 → Option (List UInt8 × List UInt8)
  | hi :: lo :: bs =>
    let n := 256*hi.toNat+lo.toNat
    if n ≤ bs.length then some (bs.take n, bs.drop n) else none
  | _ => none

theorem readPrefixed_prefixed (s rest : List UInt8) (h : s.length < 65536) :
    readPrefixed (prefixed s ++ rest) = some (s,rest) := by
  unfold prefixed be16
  simp only [List.cons_append, List.nil_append, readPrefixed]
  rw [be16_value _ h, if_pos (by rw [List.length_append]; omega), List.take_left' rfl,
    List.drop_left' rfl]

theorem readPrefixed_eq_some_iff (bs s rest : List UInt8) :
    readPrefixed bs = some (s,rest) ↔ bs = prefixed s ++ rest ∧ s.length < 65536 := by
  constructor
  · intro h
    match bs, h with
    | hi :: lo :: bs, h =>
      have hhi := hi.toNat_lt
      have hlo := lo.toNat_lt
      simp only [readPrefixed] at h
      split_ifs at h with hle
      obtain ⟨rfl,rfl⟩ := Prod.mk.inj (Option.some.inj h)
      have hlen : (bs.take (256*hi.toNat+lo.toNat)).length = 256*hi.toNat+lo.toNat := by
        rw [List.length_take]
        omega
      refine ⟨?_, by omega⟩
      rw [prefixed, hlen, be16_of_value, List.append_assoc, List.take_append_drop]
      rfl
  · rintro ⟨rfl,hlen⟩
    exact readPrefixed_prefixed s rest hlen

/-- A loop over the indices of an array, from `before.length` on, is a loop over its elements. -/
theorem foldlM_indices {α β : Type*} (f : β → α → Option β) (before l : List α) (b : β) :
    (List.range' before.length l.length).foldlM (fun b i => ((before ++ l)[i]?).bind (f b)) b =
      l.foldlM f b := by
  induction l generalizing before b with
  | nil => rfl
  | cons x l ih =>
    have hx : (before ++ x :: l)[before.length]? = some x := by
      rw [List.getElem?_append_right le_rfl, Nat.sub_self]
      rfl
    rw [List.length_cons, List.range'_succ, List.foldlM_cons, List.foldlM_cons, hx, Option.bind_some]
    congr 1
    funext b'
    have htail := ih (before ++ [x]) b'
    rw [List.length_append, List.length_singleton, List.append_assoc, List.singleton_append] at htail
    exact htail

theorem foldlM_range {α β : Type*} (f : β → α → Option β) (l : List α) (b : β) :
    (List.range l.length).foldlM (fun b i => (l[i]?).bind (f b)) b = l.foldlM f b := by
  rw [List.range_eq_range']
  exact foldlM_indices f [] l b

/-- A place in a block of memory. -/
structure Cursor where
  mem : List UInt8
  pos : ℕ
deriving DecidableEq, Repr

/-- Stores a piece at the cursor and moves behind it. -/
def Cursor.put (c : Cursor) (bs : List UInt8) : Option Cursor :=
  (writeAt c.mem c.pos bs).map fun mem => ⟨mem, c.pos+bs.length⟩

theorem Cursor.put_append (c : Cursor) (as bs : List UInt8) :
    c.put (as ++ bs) = (c.put as).bind fun c => c.put bs := by
  unfold Cursor.put
  rw [writeAt_append, Option.map_bind, Option.bind_map, List.length_append]
  congr 1
  funext mem
  simp only [Function.comp_apply, Nat.add_assoc]

/-- From the start of the memory a piece is stored exactly if it fits. -/
theorem Cursor.put_start (mem bs : List UInt8) : Cursor.put ⟨mem,0⟩ bs =
    if bs.length ≤ mem.length then some ⟨bs ++ mem.drop bs.length, bs.length⟩ else none := by
  unfold Cursor.put writeAt
  simp only [Nat.zero_add, List.take_zero, List.nil_append]
  split_ifs <;> rfl

theorem Cursor.put_mem_length (c c' : Cursor) (bs : List UInt8) (h : c.put bs = some c') :
    c'.mem.length = c.mem.length ∧ c'.pos = c.pos+bs.length := by
  obtain ⟨mem,hmem,rfl⟩ := Option.map_eq_some_iff.mp h
  exact ⟨writeAt_length _ _ _ _ hmem, rfl⟩

end WireFormats

import Mathlib.Data.List.TakeWhile
import Mathlib.Tactic.Common

/-! C strings in byte arrays of a fixed size: `strcpy`, `strncpy` and `memset`,
and what is read back as a string afterwards. -/
namespace CStrings

/-- The bytes of a C string before its NUL. -/
structure CString where
  bytes : List UInt8
  noNul : 0 ∉ bytes
deriving DecidableEq, Repr

/-- A char array of `n` bytes that holds a string and its NUL. -/
structure Buffer (n : ℕ) where
  bytes : List UInt8
  size : bytes.length = n
  terminated : 0 ∈ bytes

/-- The bytes up to the first NUL. -/
def str (mem : List UInt8) : List UInt8 := mem.takeWhile (· ≠ 0)

def strcpy (dst src : List UInt8) : List UInt8 := src ++ 0 :: dst.drop (src.length+1)

-- the string cut to `n` bytes, or padded with NULs to `n` bytes
def strncpy (dst src : List UInt8) (n : ℕ) : List UInt8 :=
  (src.take n ++ List.replicate (n-src.length) 0) ++ dst.drop n

def memset (dst : List UInt8) (c : UInt8) (n : ℕ) : List UInt8 := List.replicate n c ++ dst.drop n

theorem str_append (src rest : List UInt8) (hsrc : 0 ∉ src) : str (src ++ rest) = src ++ str rest := by
  apply List.takeWhile_append_of_pos
  intro b hb
  have hne : b ≠ 0 := fun h => hsrc (h ▸ hb)
  simpa using hne

@[simp] theorem str_nul (rest : List UInt8) : str (0 :: rest) = [] := by
  simp [str]

theorem str_nuls (k : ℕ) (rest : List UInt8) (hk : 0 < k) :
    str (List.replicate k 0 ++ rest) = [] := by
  obtain ⟨k,rfl⟩ := Nat.exists_eq_succ_of_ne_zero hk.ne'
  simp [List.replicate_succ]

@[simp] theorem length_strcpy (dst src : List UInt8) (h : src.length < dst.length) :
    (strcpy dst src).length = dst.length := by
  simp only [strcpy, List.length_append, List.length_cons, List.length_drop]
  omega

@[simp] theorem length_strncpy (dst src : List UInt8) (n : ℕ) (h : n ≤ dst.length) :
    (strncpy dst src n).length = dst.length := by
  simp only [strncpy, List.length_append, List.length_take, List.length_replicate, List.length_drop]
  omega

@[simp] theorem length_memset (dst : List UInt8) (c : UInt8) (n : ℕ) (h : n ≤ dst.length) :
    (memset dst c n).length = dst.length := by
  simp only [memset, List.length_append, List.length_replicate, List.length_drop]
  omega

theorem str_strcpy (dst src : List UInt8) (hsrc : 0 ∉ src) : str (strcpy dst src) = src := by
  rw [strcpy, str_append src _ hsrc, str_nul, List.append_nil]

theorem str_memset (dst : List UInt8) (n : ℕ) (hn : 0 < n) : str (memset dst 0 n) = [] :=
  str_nuls n _ hn

/-- `strncpy` of `n` bytes, and the byte after them cleared. -/
theorem str_strncpy_set (dst src : List UInt8) (n : ℕ) (hsrc : 0 ∉ src) (hn : n < dst.length) :
    str ((strncpy dst src n).set n 0) = src.take n := by
  have hlen : (src.take n ++ List.replicate (n-src.length) 0).length = n := by
    simp only [List.length_append, List.length_take, List.length_replicate]
    omega
  have htake : 0 ∉ src.take n := fun h => hsrc (List.mem_of_mem_take h)
  obtain ⟨b,rest,hdrop⟩ := List.exists_cons_of_length_pos (l := dst.drop n) (by
    rw [List.length_drop]
    omega)
  have hset : (strncpy dst src n).set n 0 =
      src.take n ++ (List.replicate (n-src.length) 0 ++ 0 :: rest) := by
    rw [strncpy, hdrop, List.set_append_right _ _ hlen.le, hlen, Nat.sub_self, List.set_cons_zero,
      List.append_assoc]
  rw [hset, str_append _ _ htake]
  rcases Nat.eq_zero_or_pos (n-src.length) with hpad | hpad
  · simp [hpad]
  · rw [str_nuls _ _ hpad, List.append_nil]

theorem nul_mem_set (mem : List UInt8) (i : ℕ) (h : i < mem.length) : 0 ∈ mem.set i 0 :=
  List.mem_set h 0

end CStrings

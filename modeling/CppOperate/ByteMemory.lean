import Mathlib

/-! A block of memory as a list of cells. An access is a block of cells from an
offset on, `none` when it leaves the memory, so that code which never returns
`none` never touches a cell outside. -/
namespace ByteMemory

variable {α : Type*}

/-- The `n` cells from `i` on. -/
def readAt (mem : List α) (i n : ℕ) : Option (List α) :=
  if i+n ≤ mem.length then some ((mem.drop i).take n) else none

/-- Stores `bs` from `i` on. -/
def writeAt (mem : List α) (i : ℕ) (bs : List α) : Option (List α) :=
  if i+bs.length ≤ mem.length then some (mem.take i ++ bs ++ mem.drop (i+bs.length)) else none

/-- `memcpy(dst + d, src + s, n)`. -/
def memcpy (dst : List α) (d : ℕ) (src : List α) (s n : ℕ) : Option (List α) :=
  (readAt src s n).bind (writeAt dst d)

theorem readAt_eq_some_iff (mem : List α) (i n : ℕ) (bs : List α) :
    readAt mem i n = some bs ↔ i+n ≤ mem.length ∧ bs = (mem.drop i).take n := by
  unfold readAt
  split_ifs with h
  · rw [Option.some.injEq]
    exact ⟨fun hb => ⟨h,hb.symm⟩, fun hb => hb.2.symm⟩
  · exact ⟨fun hb => by contradiction, fun hb => absurd hb.1 h⟩

theorem writeAt_eq_some_iff (mem : List α) (i : ℕ) (bs mem' : List α) :
    writeAt mem i bs = some mem' ↔
      i+bs.length ≤ mem.length ∧ mem' = mem.take i ++ bs ++ mem.drop (i+bs.length) := by
  unfold writeAt
  split_ifs with h
  · rw [Option.some.injEq]
    exact ⟨fun hb => ⟨h,hb.symm⟩, fun hb => hb.2.symm⟩
  · exact ⟨fun hb => by contradiction, fun hb => absurd hb.1 h⟩

theorem writeAt_isSome_iff (mem : List α) (i : ℕ) (bs : List α) :
    (writeAt mem i bs).isSome ↔ i+bs.length ≤ mem.length := by
  unfold writeAt
  split_ifs with h <;> simp [h]

theorem readAt_length (mem : List α) (i n : ℕ) (bs : List α) (h : readAt mem i n = some bs) :
    bs.length = n := by
  obtain ⟨hle,rfl⟩ := (readAt_eq_some_iff mem i n bs).mp h
  rw [List.length_take, List.length_drop]
  omega

theorem writeAt_length (mem : List α) (i : ℕ) (bs mem' : List α)
    (h : writeAt mem i bs = some mem') : mem'.length = mem.length := by
  obtain ⟨hle,rfl⟩ := (writeAt_eq_some_iff mem i bs mem').mp h
  simp only [List.length_append, List.length_take, List.length_drop]
  omega

/-- What a read returns, cell by cell. -/
theorem getElem?_of_readAt (mem : List α) (i n : ℕ) (bs : List α) (h : readAt mem i n = some bs)
    (j : ℕ) (hj : j < n) : bs[j]? = mem[i+j]? := by
  obtain ⟨hle,rfl⟩ := (readAt_eq_some_iff mem i n bs).mp h
  rw [List.getElem?_take_of_lt hj, List.getElem?_drop]

/-- What memory holds after a write, cell by cell. -/
theorem getElem?_of_writeAt (mem : List α) (i : ℕ) (bs mem' : List α)
    (h : writeAt mem i bs = some mem') (j : ℕ) :
    mem'[j]? = if i ≤ j ∧ j < i+bs.length then bs[j-i]? else mem[j]? := by
  obtain ⟨hle,rfl⟩ := (writeAt_eq_some_iff mem i bs mem').mp h
  have hlen : (mem.take i).length = i := by rw [List.length_take]; omega
  rw [List.append_assoc]
  by_cases hlo : j < i
  · rw [if_neg (by omega), List.getElem?_append_left (by omega), List.getElem?_take_of_lt hlo]
  · rw [List.getElem?_append_right (by omega), hlen]
    by_cases hhi : j < i+bs.length
    · rw [if_pos (by omega), List.getElem?_append_left (by omega)]
    · rw [if_neg (by omega), List.getElem?_append_right (by omega), List.getElem?_drop,
        show i+bs.length+(j-i-bs.length) = j by omega]

@[simp] theorem writeAt_nil (mem : List α) (i : ℕ) (h : i ≤ mem.length) :
    writeAt mem i [] = some mem := by
  rw [writeAt_eq_some_iff]
  exact ⟨h, by simp⟩

/-- A write replaces the cells between what stands before and after them. -/
theorem writeAt_eq_some_iff_exists (mem : List α) (i : ℕ) (bs mem' : List α) :
    writeAt mem i bs = some mem' ↔ ∃ before old after, mem = before ++ (old ++ after) ∧
      before.length = i ∧ old.length = bs.length ∧ mem' = before ++ (bs ++ after) := by
  rw [writeAt_eq_some_iff]
  constructor
  · rintro ⟨hle,rfl⟩
    refine ⟨mem.take i, (mem.drop i).take bs.length, mem.drop (i+bs.length), ?_, ?_, ?_, ?_⟩
    · rw [← List.drop_drop, List.take_append_drop, List.take_append_drop]
    · rw [List.length_take]
      omega
    · rw [List.length_take, List.length_drop]
      omega
    · rw [List.append_assoc]
  · rintro ⟨before,old,after,rfl,rfl,hlen,rfl⟩
    rw [List.length_append, List.length_append, List.take_left' rfl, ← List.drop_drop,
      List.drop_left' rfl, List.drop_left' hlen, List.append_assoc]
    exact ⟨by omega, rfl⟩

/-- Two adjacent writes are one write. -/
theorem writeAt_append (mem : List α) (i : ℕ) (as bs : List α) :
    writeAt mem i (as ++ bs) = (writeAt mem i as).bind fun m => writeAt m (i+as.length) bs := by
  ext mem'
  simp only [Option.bind_eq_some_iff, writeAt_eq_some_iff_exists]
  constructor
  · rintro ⟨before,old,after,rfl,rfl,hlen,rfl⟩
    rw [List.length_append] at hlen
    refine ⟨before ++ (as ++ (old.drop as.length ++ after)),
      ⟨before, old.take as.length, old.drop as.length ++ after, ?_, rfl, ?_, rfl⟩,
      before ++ as, old.drop as.length, after, ?_, ?_, ?_, ?_⟩
    · rw [← List.append_assoc (old.take _), List.take_append_drop]
    · rw [List.length_take]
      omega
    · rw [List.append_assoc]
    · rw [List.length_append]
    · rw [List.length_drop]
      omega
    · simp only [List.append_assoc]
  · rintro ⟨_,⟨before,old,after,rfl,rfl,hlen,rfl⟩,before',old',after',hsplit,hbefore,hlen',rfl⟩
    obtain ⟨rfl,rfl⟩ : before' = before ++ as ∧ old' ++ after' = after := by
      rw [← List.append_assoc] at hsplit
      have := List.append_inj hsplit (by rw [hbefore, List.length_append])
      exact ⟨this.1.symm,this.2.symm⟩
    refine ⟨before, old ++ old', after', ?_, rfl, ?_, ?_⟩
    · rw [List.append_assoc]
    · rw [List.length_append, List.length_append, hlen, hlen']
    · simp only [List.append_assoc]

/-- A copy between distinct objects that stays inside both. -/
theorem memcpy_eq_writeAt (dst : List α) (d : ℕ) (src : List α) (s n : ℕ)
    (h : s+n ≤ src.length) : memcpy dst d src s n = writeAt dst d ((src.drop s).take n) := by
  unfold memcpy
  rw [(readAt_eq_some_iff src s n _).mpr ⟨h,rfl⟩]
  rfl

theorem memcpy_length (dst : List α) (d : ℕ) (src : List α) (s n : ℕ) (dst' : List α)
    (h : memcpy dst d src s n = some dst') : dst'.length = dst.length := by
  obtain ⟨bs,_,hbs⟩ := Option.bind_eq_some_iff.mp h
  exact writeAt_length dst d bs dst' hbs

end ByteMemory

import CppOperate.ByteMemory
import Mathlib

/-! Queues kept in a circular memory. The queue starts at a position that only
grows, position `k` lives in cell `k % mem.length`, and a block that passes the
end of the memory is stored and fetched in two pieces. -/
namespace RingBuffers
open ByteMemory

variable {α : Type*}

/-- The memory holds `q` from position `o` on. -/
structure Holds (mem : List α) (o : ℕ) (q : List α) : Prop where
  fits : q.length ≤ mem.length
  cell : ∀ i < q.length, mem[(o+i) % mem.length]? = q[i]?

/-- The cell of a position less than one round after `o`. -/
theorem cell_add (o i n : ℕ) (hi : i < n) :
    (o+i) % n = if o % n+i < n then o % n+i else o % n+i-n := by
  have ho : o % n < n := Nat.mod_lt o (Nat.zero_lt_of_lt hi)
  rw [Nat.add_mod, Nat.mod_eq_of_lt hi]
  split_ifs with h
  · exact Nat.mod_eq_of_lt h
  · rw [Nat.mod_eq_sub_mod (by omega), Nat.mod_eq_of_lt (by omega)]

/-- Positions less than one round apart have different cells. -/
theorem cell_inj (o i j n : ℕ) (hi : i < n) (hj : j < n) (h : (o+i) % n = (o+j) % n) : i = j := by
  have ho : o % n < n := Nat.mod_lt o (Nat.zero_lt_of_lt hi)
  rw [cell_add o i n hi, cell_add o j n hj] at h
  split_ifs at h <;> omega

/-- A block that reaches exactly to the end of the memory goes on in cell 0. -/
theorem cell_wrap (o l n : ℕ) (h : o % n+l = n) : (o+l) % n = 0 := by
  rw [← Nat.mod_add_mod, h, Nat.mod_self]

namespace Holds
variable {mem : List α} {o : ℕ} {q : List α}

theorem nil (mem : List α) (o : ℕ) : Holds mem o [] :=
  ⟨Nat.zero_le _, fun _ hi => absurd hi (Nat.not_lt_zero _)⟩

/-- A block behind the queue that does not pass the end of the memory. -/
theorem writeAt (h : Holds mem o q) (bs : List α) (hbs : q.length+bs.length ≤ mem.length)
    (hend : bs.length ≤ mem.length-(o+q.length) % mem.length) (hpos : 0 < mem.length) :
    ∃ mem', writeAt mem ((o+q.length) % mem.length) bs = some mem' ∧
      mem'.length = mem.length ∧ Holds mem' o (q ++ bs) := by
  have hp : (o+q.length) % mem.length < mem.length := Nat.mod_lt _ hpos
  set p := (o+q.length) % mem.length with hpdef
  obtain ⟨mem',hmem'⟩ := Option.isSome_iff_exists.mp
    ((writeAt_isSome_iff mem p bs).mpr (by omega))
  have hlen := writeAt_length mem p bs mem' hmem'
  refine ⟨mem', hmem', hlen, by rw [List.length_append, hlen]; exact hbs, ?_⟩
  intro i hi
  rw [List.length_append] at hi
  rw [hlen, getElem?_of_writeAt mem p bs mem' hmem']
  by_cases hiq : i < q.length
  · -- no cell of the block is a cell of the queue
    rw [if_neg, List.getElem?_append_left hiq, h.cell i hiq]
    rintro ⟨hge,hlt⟩
    have hcell : (o+i) % mem.length =
        (o+(q.length+((o+i) % mem.length-p))) % mem.length := by
      rw [← Nat.add_assoc, cell_add (o+q.length) _ mem.length (by omega), ← hpdef,
        if_pos (by omega)]
      omega
    have := cell_inj o i _ mem.length (by omega) (by omega) hcell
    omega
  · have hcell : (o+i) % mem.length = p+(i-q.length) := by
      rw [show o+i = o+q.length+(i-q.length) by omega,
        cell_add (o+q.length) _ mem.length (by omega), ← hpdef, if_pos (by omega)]
    rw [List.getElem?_append_right (by omega), if_pos (by omega), hcell, Nat.add_sub_cancel_left]

/-- The first elements of the queue, as far as the end of the memory. -/
theorem readAt (h : Holds mem o q) (n : ℕ) (hn : n ≤ q.length)
    (hend : n ≤ mem.length-o % mem.length) (hpos : 0 < mem.length) :
    readAt mem (o % mem.length) n = some (q.take n) := by
  have hfits := h.fits
  have hp : o % mem.length < mem.length := Nat.mod_lt _ hpos
  have hread : ByteMemory.readAt mem (o % mem.length) n = some ((mem.drop (o % mem.length)).take n) :=
    (readAt_eq_some_iff mem _ n _).mpr ⟨by omega,rfl⟩
  rw [hread, Option.some.injEq]
  have hlen := readAt_length mem _ n _ hread
  apply List.ext_getElem?
  intro i
  by_cases hi : i < n
  · rw [getElem?_of_readAt mem _ n _ hread i hi, List.getElem?_take_of_lt hi,
      ← h.cell i (by omega), cell_add o i mem.length (by omega), if_pos (by omega)]
  · rw [List.getElem?_eq_none (by omega), List.getElem?_eq_none]
    rw [List.length_take]
    omega

/-- What is fetched leaves the queue when the start moves on. -/
theorem drop (h : Holds mem o q) (n : ℕ) : Holds mem (o+n) (q.drop n) := by
  have hfits := h.fits
  refine ⟨by rw [List.length_drop]; omega, ?_⟩
  intro i hi
  rw [List.length_drop] at hi
  rw [List.getElem?_drop, ← h.cell (n+i) (by omega), Nat.add_assoc]

/-- A queue holds also its beginning. -/
theorem left {bs : List α} (h : Holds mem o (q ++ bs)) : Holds mem o q := by
  have hfits := h.fits
  rw [List.length_append] at hfits
  refine ⟨by omega, ?_⟩
  intro i hi
  rw [h.cell i (by rw [List.length_append]; omega), List.getElem?_append_left hi]

/-- Only the cells of the positions matter: the start may wrap at a multiple of
the memory's length. -/
theorem mod (h : Holds mem o q) (k : ℕ) (hk : mem.length ∣ k) : Holds mem (o % k) q := by
  refine ⟨h.fits, ?_⟩
  intro i hi
  rw [← h.cell i hi, Nat.add_mod, Nat.mod_mod_of_dvd o hk, ← Nat.add_mod]

/-- The first copy of a block: up to the end of the memory. -/
theorem first_copy (h : Holds mem o q) (src : List α) (n : ℕ) (hn : n ≤ src.length)
    (hfits : q.length+n ≤ mem.length) (hpos : 0 < mem.length) (p l : ℕ)
    (hp : p = (o+q.length) % mem.length) (hl : l = min n (mem.length-p)) :
    ∃ mem', memcpy mem p src 0 l = some mem' ∧ mem'.length = mem.length ∧
      Holds mem' o (q ++ src.take l) := by
  have htake : (src.take l).length = l := by rw [List.length_take]; omega
  subst hp
  rw [memcpy_eq_writeAt mem _ src 0 l (by omega), List.drop_zero]
  exact h.writeAt (src.take l) (by omega) (by omega) hpos

/-- The second copy of a block: the rest, from cell 0 on. -/
theorem second_copy (src : List α) (n : ℕ) (hn : n ≤ src.length) (p l : ℕ)
    (hp : p = (o+q.length) % mem.length) (hl : l = min n (mem.length-p))
    (h : Holds mem o (q ++ src.take l))
    (hfits : q.length+n ≤ mem.length) (hpos : 0 < mem.length) :
    ∃ mem', memcpy mem 0 src l (n-l) = some mem' ∧ mem'.length = mem.length ∧
      Holds mem' o (q ++ src.take n) := by
  have hplt : p < mem.length := hp ▸ Nat.mod_lt _ hpos
  have htake : (src.take l).length = l := by rw [List.length_take]; omega
  have hrest : ((src.drop l).take (n-l)).length = n-l := by
    rw [List.length_take, List.length_drop]
    omega
  have hjoin : src.take l ++ (src.drop l).take (n-l) = src.take n := by
    rw [← List.take_add, Nat.add_sub_cancel' (by omega)]
  rw [memcpy_eq_writeAt mem 0 src l (n-l) (by omega)]
  by_cases hln : l = n
  · subst hln
    rw [Nat.sub_self, List.take_zero, writeAt_nil mem 0 (Nat.zero_le _)]
    exact ⟨mem, rfl, rfl, h⟩
  · have hzero : (o+(q ++ src.take l).length) % mem.length = 0 := by
      rw [List.length_append, htake, ← Nat.add_assoc]
      exact cell_wrap _ l _ (by omega)
    obtain ⟨mem',hmem',hlen,hholds⟩ := h.writeAt ((src.drop l).take (n-l))
      (by rw [List.length_append, htake, hrest]; omega) (by rw [hzero, hrest]; omega) hpos
    rw [hzero] at hmem'
    rw [List.append_assoc, hjoin] at hholds
    exact ⟨mem', hmem', hlen, hholds⟩

/-- The first copy out of the queue: up to the end of the memory. -/
theorem first_fetch (h : Holds mem o q) (dst : List α) (n : ℕ) (hn : n ≤ q.length)
    (hdst : n ≤ dst.length) (hpos : 0 < mem.length) (p l : ℕ) (hp : p = o % mem.length)
    (hl : l = min n (mem.length-p)) :
    memcpy dst 0 mem p l = some (q.take l ++ dst.drop l) := by
  subst hp
  have htake : (q.take l).length = l := by rw [List.length_take]; omega
  unfold memcpy
  rw [h.readAt l (by omega) (by omega) hpos, Option.bind_some, writeAt_eq_some_iff, htake,
    List.take_zero, List.nil_append, Nat.zero_add]
  exact ⟨by omega, rfl⟩

/-- The second copy out of the queue: the rest, from cell 0 on. -/
theorem second_fetch (h : Holds mem o q) (dst : List α) (n : ℕ) (hn : n ≤ q.length)
    (hdst : n ≤ dst.length) (hpos : 0 < mem.length) (p l : ℕ) (hp : p = o % mem.length)
    (hl : l = min n (mem.length-p)) :
    memcpy (q.take l ++ dst.drop l) l mem 0 (n-l) = some (q.take n ++ dst.drop n) := by
  have hfits := h.fits
  have hplt : p < mem.length := hp ▸ Nat.mod_lt _ hpos
  have htake : (q.take l).length = l := by rw [List.length_take]; omega
  have hread : ByteMemory.readAt mem 0 (n-l) = some ((q.drop l).take (n-l)) := by
    by_cases hln : l = n
    · subst hln
      rw [Nat.sub_self, List.take_zero, readAt_eq_some_iff]
      exact ⟨by omega, by rw [List.take_zero]⟩
    · have hzero : (o+l) % mem.length = 0 := cell_wrap o l _ (by omega)
      have := (h.drop l).readAt (n-l) (by rw [List.length_drop]; omega) (by omega) hpos
      rwa [hzero] at this
  have hrest : ((q.drop l).take (n-l)).length = n-l := readAt_length mem 0 _ _ hread
  unfold memcpy
  rw [hread, Option.bind_some, writeAt_eq_some_iff, hrest, List.length_append, htake,
    List.length_drop, List.take_left' htake, ← List.take_add, List.drop_append,
    List.drop_eq_nil_of_le (by omega : (q.take l).length ≤ l+(n-l)), htake, List.drop_drop,
    List.nil_append, show l+(n-l) = n by omega]
  exact ⟨by omega, by rw [show l+(n-l) = n by omega]⟩

end Holds

end RingBuffers

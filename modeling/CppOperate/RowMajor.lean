import Mathlib

/-! A memory of cells that is written in order, and cells laid out row by row. -/
namespace RowMajor

section stores
variable {α : Type*}

/-- The memory after the writes, each given by its index and its value. -/
def store (mem : ℤ → α) (writes : List (ℤ × α)) : ℤ → α :=
  writes.foldl (fun m w => Function.update m w.1 w.2) mem

/-- Where the value of a cell comes from: `none` for a cell that was not written. -/
def origin (writes : List (ℤ × α)) : ℤ → Option α :=
  store (fun _ => none) (writes.map fun w => (w.1, some w.2))

theorem store_append (mem : ℤ → α) (ws vs : List (ℤ × α)) :
    store mem (ws ++ vs) = store (store mem ws) vs :=
  List.foldl_append

/-- A cell that is not written keeps its value. -/
theorem store_of_forall_ne (mem : ℤ → α) (ws : List (ℤ × α)) (i : ℤ) (h : ∀ w ∈ ws, w.1 ≠ i) :
    store mem ws i = mem i := by
  induction ws generalizing mem with
  | nil => rfl
  | cons w ws ih =>
    obtain ⟨hw,hws⟩ := List.forall_mem_cons.mp h
    calc
      store mem (w :: ws) i = store (Function.update mem w.1 w.2) ws i := rfl
      _ = Function.update mem w.1 w.2 i := ih _ hws
      _ = mem i := Function.update_of_ne hw.symm _ _

/-- A cell whose writes all agree holds their value. -/
theorem store_of_mem (mem : ℤ → α) (ws : List (ℤ × α)) (i : ℤ) (v : α) (hmem : (i, v) ∈ ws)
    (hall : ∀ w ∈ ws, w.1 = i → w.2 = v) : store mem ws i = v := by
  induction ws using List.reverseRecOn with
  | nil => simp at hmem
  | append_singleton ws w ih =>
    have hlast : w.1 = i → w.2 = v := hall w (by simp)
    rw [store_append]
    change Function.update (store mem ws) w.1 w.2 i = v
    by_cases hw : w.1 = i
    · rw [← hw, Function.update_self, hlast hw]
    · rw [Function.update_of_ne (Ne.symm hw)]
      apply ih
      · rcases List.mem_append.mp hmem with h | h
        · exact h
        · exact absurd (congrArg Prod.fst (List.mem_singleton.mp h)).symm hw
      · exact fun u hu => hall u (List.mem_append_left _ hu)

theorem origin_of_mem (ws : List (ℤ × α)) (i : ℤ) (v : α) (hmem : (i, v) ∈ ws)
    (hall : ∀ w ∈ ws, w.1 = i → w.2 = v) : origin ws i = some v := by
  apply store_of_mem
  · exact List.mem_map.mpr ⟨(i, v), hmem, rfl⟩
  · exact List.forall_mem_map.mpr fun w hw hi => congrArg some (hall w hw hi)

/-- A cell that has an origin was written with it. -/
theorem mem_of_origin (ws : List (ℤ × α)) (i : ℤ) (v : α) (h : origin ws i = some v) :
    (i, v) ∈ ws := by
  induction ws using List.reverseRecOn with
  | nil => cases h
  | append_singleton ws w ih =>
    unfold origin at h ih
    rw [List.map_append, store_append] at h
    change Function.update (store (fun _ => none) _) w.1 (some w.2) i = some v at h
    by_cases hw : w.1 = i
    · rw [← hw, Function.update_self, Option.some.injEq] at h
      rw [← hw, ← h]
      exact List.mem_append_right _ (List.mem_singleton_self _)
    · rw [Function.update_of_ne (Ne.symm hw)] at h
      exact List.mem_append_left _ (ih h)

/-- Where no cell is written with two values, the origins are the writes. -/
theorem origin_eq_some_iff (ws : List (ℤ × α)) (i : ℤ) (v : α)
    (hone : ∀ w ∈ ws, ∀ u ∈ ws, w.1 = u.1 → w.2 = u.2) :
    origin ws i = some v ↔ (i, v) ∈ ws :=
  ⟨mem_of_origin ws i v, fun h => origin_of_mem ws i v h fun w hw hi => hone w hw (i, v) h hi⟩

end stores

section index
variable (w r c s d : ℤ)

/-- Row and column are determined by the index. -/
theorem index_inj (hc : 0 ≤ c ∧ c < w) (hd : 0 ≤ d ∧ d < w) (h : r*w+c = s*w+d) :
    r = s ∧ c = d := by
  have hpos : 0 < w := by omega
  have hrs : r = s := by
    have hr : (r*w+c) / w = r := by
      rw [add_comm, Int.add_mul_ediv_right _ _ hpos.ne', Int.ediv_eq_zero_of_lt hc.1 hc.2, zero_add]
    have hs : (s*w+d) / w = s := by
      rw [add_comm, Int.add_mul_ediv_right _ _ hpos.ne', Int.ediv_eq_zero_of_lt hd.1 hd.2, zero_add]
    rw [← hr, h, hs]
  subst hrs
  exact ⟨rfl, by omega⟩

theorem index_nonneg (hr : 0 ≤ r) (hw : 0 ≤ w) (hc : 0 ≤ c) : 0 ≤ r*w+c :=
  add_nonneg (mul_nonneg hr hw) hc

/-- The cells of the first `s` rows come before all others. -/
theorem index_lt (hr : r < s) (hc : c < w) (hw : 0 ≤ w) : r*w+c < s*w := by
  calc
    r*w+c < r*w+w := by omega
    _ = (r+1)*w := by ring
    _ ≤ s*w := mul_le_mul_of_nonneg_right hr hw

end index

end RowMajor

import CppOperate.CNumbers
import Mathlib

/-! Loops of C as functions: passes that may fail one after the other, and a loop
that counts an `int` up to a `uint32_t`. -/
namespace CLoops
open CNumbers

universe u

@[simp] theorem ok_bind {α β : Type u} {ε : Type*} (a : α) (f : α → Except ε β) :
    (Except.ok a >>= f) = f a := rfl

/-- A computation with a first step succeeds when the step and the rest do. -/
theorem bind_eq_ok_iff {α β : Type u} {ε : Type*} (x : Except ε α) (f : α → Except ε β) (b : β) :
    (x >>= f) = .ok b ↔ ∃ a, x = .ok a ∧ f a = .ok b := by
  cases x <;> simp [bind, Except.bind]

theorem bind_eq_error_iff {α β : Type u} {ε : Type*} (x : Except ε α) (f : α → Except ε β) (e : ε) :
    (x >>= f) = .error e ↔ x = .error e ∨ ∃ a, x = .ok a ∧ f a = .error e := by
  cases x <;> simp [bind, Except.bind]

/-- A list of computations succeeds with the list of their values. -/
theorem mapM_eq_ok_iff {α β ε : Type*} (f : α → Except ε β) (l : List α) (bs : List β) :
    l.mapM f = .ok bs ↔ List.Forall₂ (fun a b => f a = .ok b) l bs := by
  induction l generalizing bs with
  | nil =>
    rw [List.mapM_nil, List.forall₂_nil_left_iff]
    simp [pure, Except.pure, eq_comm]
  | cons a l ih =>
    rw [List.mapM_cons, List.forall₂_cons_left_iff]
    simp only [← ih]
    cases ha : f a with
    | error e => simp [bind, Except.bind]
    | ok b =>
      cases hl : l.mapM f with
      | error e => simp [bind, Except.bind]
      | ok cs => simp [bind, Except.bind, pure, Except.pure, eq_comm]

/-- A property of all results, pass by pass. -/
theorem mapM_ok_forall_iff {α β ε : Type*} (f : α → Except ε β) (P : β → Prop) (l : List α) :
    (∃ bs, l.mapM f = .ok bs ∧ ∀ b ∈ bs, P b) ↔ ∀ a ∈ l, ∃ b, f a = .ok b ∧ P b := by
  simp only [mapM_eq_ok_iff]
  induction l with
  | nil => simp
  | cons a l ih =>
    simp only [List.forall₂_cons_left_iff, List.forall_mem_cons, ← ih]
    constructor
    · rintro ⟨_,⟨b,bs,hb,hbs,rfl⟩,hall⟩
      obtain ⟨hPb,hPbs⟩ := List.forall_mem_cons.mp hall
      exact ⟨⟨b, hb, hPb⟩, bs, hbs, hPbs⟩
    · rintro ⟨⟨b,hb,hPb⟩,bs,hbs,hPbs⟩
      exact ⟨b :: bs, ⟨b, bs, hb, hbs, rfl⟩, List.forall_mem_cons.mpr ⟨hPb, hPbs⟩⟩

section counted
variable {σ : Type*} (bound : ℕ) (body : ℤ → σ → σ)

/-- `for (int i = ...; i < bound; i++)`; `none` when `fuel` tests did not end it. -/
def forInt : ℕ → ℤ → σ → Option (Except Fault σ)
  | 0, _, _ => none
  | fuel+1, i, s =>
    if uint32 i < bound then
      match checkedInt (i+1) with
      | .error e => some (.error e)
      | .ok next => forInt fuel next (body i s)
    else some (.ok s)

/-- With a bound in the range of `int` the loop ends, and what every pass
preserves holds for the bound. -/
theorem forInt_invariant (hbound : bound < 2^31) (I : ℕ → σ → Prop) (s : σ) (hs : I 0 s)
    (hbody : ∀ k s, k < bound → I k s → I (k+1) (body k s)) (fuel : ℕ) (hfuel : bound < fuel) :
    ∃ t, forInt bound body fuel 0 s = some (.ok t) ∧ I bound t := by
  -- by the number of passes left
  suffices h : ∀ left k s fuel, k+left = bound → left < fuel → I k s →
      ∃ t, forInt bound body fuel k s = some (.ok t) ∧ I bound t by
    exact h bound 0 s fuel (Nat.zero_add _) hfuel hs
  intro left
  induction left with
  | zero =>
    intro k s fuel hk hfuel hI
    obtain ⟨fuel, rfl⟩ := Nat.exists_eq_add_of_le' hfuel
    rw [forInt, uint32_eq_self k (by omega) (by omega), if_neg (by omega)]
    obtain rfl : k = bound := hk
    exact ⟨s, rfl, hI⟩
  | succ left ih =>
    intro k s fuel hk hfuel hI
    obtain ⟨fuel, rfl⟩ := Nat.exists_eq_add_of_le' (Nat.one_le_of_lt hfuel)
    rw [forInt, uint32_eq_self k (by omega) (by omega), if_pos (by omega),
      checkedInt_of_range _ (by omega) (by omega)]
    exact ih (k+1) (body k s) fuel (by omega) (by omega) (hbody k s (by omega) hI)

/-- A larger bound is never reached: the counter overflows. -/
theorem forInt_overflow (hbound : 2^31 ≤ bound) (hbound' : bound < 2^32) (s : σ) (fuel : ℕ)
    (hfuel : 2^31 ≤ fuel) : forInt bound body fuel 0 s = some (.error .intOverflow) := by
  suffices h : ∀ left k s fuel, k+left+1 = 2^31 → left < fuel →
      forInt bound body fuel (k:ℕ) s = some (.error .intOverflow) by
    exact h (2^31-1) 0 s fuel (by norm_num) (by omega)
  intro left
  induction left with
  | zero =>
    intro k s fuel hk hfuel
    obtain ⟨fuel, rfl⟩ := Nat.exists_eq_add_of_le' hfuel
    rw [forInt, uint32_eq_self k (by omega) (by omega), if_pos (by omega), checkedInt,
      if_neg (by omega)]
  | succ left ih =>
    intro k s fuel hk hfuel
    obtain ⟨fuel, rfl⟩ := Nat.exists_eq_add_of_le' (Nat.one_le_of_lt hfuel)
    rw [forInt, uint32_eq_self k (by omega) (by omega), if_pos (by omega),
      checkedInt_of_range _ (by omega) (by omega)]
    exact ih (k+1) (body k s) fuel (by omega) (by omega)

end counted

end CLoops

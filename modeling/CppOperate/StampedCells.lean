import Mathlib.Data.Nat.Notation
import Mathlib.Order.Nat

/-! Cells stamped with the number of the write that filled them, and values
computed from such a cell: the computed value keeps the stamp of what was read,
so that equal stamps mean an up-to-date value. -/
namespace StampedCells

variable {α β : Type*}

structure Stamped (α : Type*) where
  value : α
  stamp : ℕ
deriving DecidableEq, Repr

/-- What a read of the cell computes. -/
def Stamped.map (cell : Stamped α) (f : α → β) : Stamped β := ⟨f cell.value, cell.stamp⟩

/-- `out` was computed by `f` from `cell`, now or when an earlier write filled it. -/
def Derived (out : Stamped β) (cell : Stamped α) (f : α → β) : Prop :=
  out.stamp ≤ cell.stamp ∧ (out.stamp = cell.stamp → out.value = f cell.value)

/-- `out` is derived from a write of the cell not older than the `n`-th. -/
def DerivedSince (n : ℕ) (out : Stamped β) (cell : Stamped α) (f : α → β) : Prop :=
  Derived out cell f ∧ n ≤ out.stamp

theorem derived_map (cell : Stamped α) (f : α → β) : Derived (cell.map f) cell f :=
  ⟨le_rfl, fun _ => rfl⟩

theorem derivedSince_map (n : ℕ) (cell : Stamped α) (f : α → β) (h : n ≤ cell.stamp) :
    DerivedSince n (cell.map f) cell f :=
  ⟨derived_map cell f, h⟩

/-- A later write only makes the computed value older. -/
theorem DerivedSince.write {n : ℕ} {out : Stamped β} {cell : Stamped α} {f : α → β}
    (h : DerivedSince n out cell f) (v : α) (k : ℕ) (hk : cell.stamp < k) :
    DerivedSince n out ⟨v, k⟩ f := by
  have hlt : out.stamp < k := h.1.1.trans_lt hk
  exact ⟨⟨hlt.le, fun heq => absurd heq hlt.ne⟩, h.2⟩

theorem DerivedSince.since {m n : ℕ} {out : Stamped β} {cell : Stamped α} {f : α → β}
    (h : DerivedSince m out cell f) (hn : n ≤ out.stamp) : DerivedSince n out cell f :=
  ⟨h.1, hn⟩

/-- A cell not written since the `n`-th write shows in what was derived since then. -/
theorem DerivedSince.value_eq {n : ℕ} {out : Stamped β} {cell : Stamped α} {f : α → β}
    (h : DerivedSince n out cell f) (hcell : cell.stamp ≤ n) : out.value = f cell.value :=
  h.1.2 (h.1.1.antisymm (hcell.trans h.2))

end StampedCells

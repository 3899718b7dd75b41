import Mathlib

/-! Ledgers: lists of entries of which no two have the same key. An entry is recorded
unless its key is there already, settled by its key, or dropped with others; until one of
the last two happens to it, it stays as it is. -/
namespace Ledgers

variable {α κ : Type*} [DecidableEq κ]

/-- What can happen to a ledger. -/
inductive Move (α κ : Type*)
  | record (a : α)
  | settle (k : κ)
  | retain (keep : α → Bool)

section Play
variable (key : α → κ)

def Distinct (es : List α) : Prop := (es.map key).Nodup

def Move.apply : Move α κ → List α → List α
  | record a, es => if key a ∈ es.map key then es else es ++ [a]
  | settle k, es => es.filter fun e => key e ≠ k
  | retain keep, es => es.filter keep

def play (ms : List (Move α κ)) (es : List α) : List α := ms.foldl (fun es m => m.apply key es) es

/-- The move takes the entry off the ledger. -/
def Move.Ends (a : α) : Move α κ → Prop
  | record _ => False
  | settle k => k = key a
  | retain keep => keep a = false

@[simp] theorem play_nil (es : List α) : play key [] es = es := rfl

@[simp] theorem play_cons (m : Move α κ) (ms : List (Move α κ)) (es : List α) :
    play key (m :: ms) es = play key ms (m.apply key es) := rfl

theorem play_append (ms ns : List (Move α κ)) (es : List α) :
    play key (ms ++ ns) es = play key ns (play key ms es) := List.foldl_append

omit [DecidableEq κ] in
theorem Distinct.filter {es : List α} (h : Distinct key es) (keep : α → Bool) :
    Distinct key (es.filter keep) := h.sublist (List.filter_sublist.map key)

theorem Distinct.apply {es : List α} (h : Distinct key es) (m : Move α κ) :
    Distinct key (m.apply key es) := by
  cases m with
  | record a =>
    by_cases hmem : key a ∈ es.map key
    · rw [Move.apply, if_pos hmem]
      exact h
    · rw [Move.apply, if_neg hmem, Distinct, List.map_append, List.map_singleton]
      have hnodup := h.concat hmem
      rwa [List.concat_eq_append] at hnodup
  | settle k => exact h.filter key _
  | retain keep => exact h.filter key _

theorem mem_apply {a : α} {es : List α} (ha : a ∈ es) (m : Move α κ) (hm : ¬ m.Ends key a) :
    a ∈ m.apply key es := by
  cases m with
  | record b =>
    by_cases hmem : key b ∈ es.map key
    · rw [Move.apply, if_pos hmem]
      exact ha
    · rw [Move.apply, if_neg hmem]
      exact List.mem_append_left _ ha
  | settle k =>
    apply List.mem_filter.mpr
    exact ⟨ha, decide_eq_true (Ne.symm hm)⟩
  | retain keep =>
    apply List.mem_filter.mpr
    exact ⟨ha, by simpa only [Move.Ends, Bool.not_eq_false] using hm⟩

/-- An entry that no move takes off is there in the end. -/
theorem mem_play {a : α} {es : List α} (ha : a ∈ es) (ms : List (Move α κ))
    (hms : ∀ m ∈ ms, ¬ m.Ends key a) : a ∈ play key ms es := by
  induction ms generalizing es with
  | nil => exact ha
  | cons m ms ih =>
    obtain ⟨hm,hms⟩ := List.forall_mem_cons.mp hms
    exact ih (mem_apply key ha m hm) hms

/-- How many entries there can be if there are not more keys than these. -/
theorem Distinct.length_le {es : List α} (h : Distinct key es) (keys : Finset κ)
    (hkeys : ∀ a ∈ es, key a ∈ keys) : es.length ≤ keys.card := by
  have hsub : (es.map key).toFinset ⊆ keys := by
    intro k hk
    obtain ⟨a,ha,rfl⟩ := List.mem_map.mp (List.mem_toFinset.mp hk)
    exact hkeys a ha
  calc es.length = (es.map key).length := (List.length_map key).symm
    _ = (es.map key).toFinset.card := (List.toFinset_card_of_nodup h).symm
    _ ≤ keys.card := Finset.card_le_card hsub

end Play

end Ledgers

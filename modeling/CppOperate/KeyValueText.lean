import Mathlib.Data.List.DropRight
import Mathlib.Data.List.Induction
import Mathlib.Logic.Function.Basic

/-! Line-oriented key/value text over any alphabet: splitting into lines,
stripping blanks, cutting at the first separator, and tables in which the last
assignment of a key wins. -/
namespace KeyValueText

section text
variable {α : Type*} [DecidableEq α]

/-- The lines of a text, each ended by `nl` except perhaps the last. -/
def getLines (nl : α) : List α → List (List α)
  | [] => []
  | c :: cs =>
    if c = nl then [] :: getLines nl cs
    else match getLines nl cs with
      -- the text ends here, without a newline
      | [] => [[c]]
      | l :: ls => (c :: l) :: ls

def unlines (nl : α) (ls : List (List α)) : List α := ls.flatMap fun l => l ++ [nl]

theorem getLines_append (nl : α) (l text : List α) (hl : nl ∉ l) :
    getLines nl (l ++ nl :: text) = l :: getLines nl text := by
  induction l with
  | nil => simp [getLines]
  | cons c l ih =>
    rw [List.mem_cons, not_or] at hl
    rw [List.cons_append, getLines, if_neg (Ne.symm hl.1), ih hl.2]

/-- Text written line by line is read back as these lines. -/
theorem getLines_unlines (nl : α) (ls : List (List α)) (h : ∀ l ∈ ls, nl ∉ l) :
    getLines nl (unlines nl ls) = ls := by
  induction ls with
  | nil => rfl
  | cons l ls ih =>
    have hrest := ih fun l' hl' => h l' (List.mem_cons_of_mem l hl')
    have happ : unlines nl (l :: ls) = l ++ nl :: unlines nl ls := by
      simp [unlines]
    rw [happ, getLines_append nl l _ (h l List.mem_cons_self), hrest]

theorem newline_not_mem (nl : α) (text l : List α) (hl : l ∈ getLines nl text) : nl ∉ l := by
  induction text generalizing l with
  | nil => simp [getLines] at hl
  | cons c cs ih =>
    rw [getLines] at hl
    split_ifs at hl with hc
    · rcases List.mem_cons.mp hl with rfl | hl
      · exact List.not_mem_nil
      · exact ih l hl
    · cases hls : getLines nl cs with
      | nil =>
        rw [hls] at hl
        rw [List.mem_singleton.mp hl, List.mem_singleton]
        exact Ne.symm hc
      | cons l' ls =>
        rw [hls] at hl ih
        rcases List.mem_cons.mp hl with rfl | hl
        · rw [List.mem_cons, not_or]
          exact ⟨Ne.symm hc, ih l' List.mem_cons_self⟩
        · exact ih l (List.mem_cons_of_mem l' hl)

/-- Without the symbols of `p` at its two ends. -/
def strip (p : α → Bool) (s : List α) : List α := (s.dropWhile p).rdropWhile p

omit [DecidableEq α] in
theorem mem_of_mem_strip (p : α → Bool) (s : List α) (x : α) (hx : x ∈ strip p s) : x ∈ s :=
  (List.dropWhile_sublist p).subset ((List.rdropWhile_prefix p _).subset hx)

omit [DecidableEq α] in
/-- What is stripped begins and ends with symbols that are kept. -/
theorem strip_eq_self_iff (p : α → Bool) (s : List α) : strip p s = s ↔
    ∀ h : s ≠ [], p (s.head h) = false ∧ p (s.getLast h) = false := by
  cases s with
  | nil => simp [strip]
  | cons c s =>
    constructor
    · intro h hne
      by_cases hc : p c = true
      · have hlen := congrArg List.length h
        have hle := (List.rdropWhile_prefix p ((c :: s).dropWhile p)).length_le
        have hlt := (List.dropWhile_sublist (l := s) p).length_le
        rw [strip] at hlen
        rw [List.dropWhile_cons_of_pos hc] at hlen hle
        rw [List.length_cons] at hlen
        omega
      · rw [strip, List.dropWhile_cons_of_neg hc, List.rdropWhile_eq_self_iff] at h
        exact ⟨by simpa using hc, by simpa using h hne⟩
    · intro h
      obtain ⟨hhead,hlast⟩ := h (List.cons_ne_nil c s)
      rw [strip, List.dropWhile_cons_of_neg (by simpa using hhead), List.rdropWhile_eq_self_iff]
      intro _
      simpa using hlast

omit [DecidableEq α] in
theorem strip_idem (p : α → Bool) (s : List α) : strip p (strip p s) = strip p s := by
  rw [strip_eq_self_iff]
  intro h
  have hlast := List.rdropWhile_last_not p (s.dropWhile p) h
  have hne : s.dropWhile p ≠ [] := fun h' => h (by rw [strip, h', List.rdropWhile_nil])
  have hhead : (strip p s).head h = (s.dropWhile p).head hne :=
    (List.rdropWhile_prefix p (s.dropWhile p)).head h
  refine ⟨?_, by simpa [strip] using hlast⟩
  rw [hhead]
  exact List.head_dropWhile_not p hne

omit [DecidableEq α] in
/-- Two stripped parts around a kept symbol make a stripped whole. -/
theorem strip_join (p : α → Bool) (a b : List α) (c : α) (ha : strip p a = a)
    (hb : strip p b = b) (hc : p c = false) : strip p (a ++ c :: b) = a ++ c :: b := by
  rw [strip_eq_self_iff] at ha hb ⊢
  intro _
  constructor
  · cases a with
    | nil => exact hc
    | cons x a => exact (ha (List.cons_ne_nil x a)).1
  · by_cases hnil : b = []
    · subst hnil
      simpa using hc
    · rw [List.getLast_append_of_ne_nil _ (List.cons_ne_nil c b), List.getLast_cons hnil]
      exact (hb hnil).2

/-- The parts before and after the first `c`. -/
def cutAt (c : α) (s : List α) : Option (List α × List α) :=
  let pos := s.idxOf c
  if pos = s.length then none else some (s.take pos, s.drop (pos+1))

theorem cutAt_append (c : α) (a b : List α) (ha : c ∉ a) : cutAt c (a ++ c :: b) = some (a, b) := by
  have hpos : (a ++ c :: b).idxOf c = a.length := by
    rw [List.idxOf_append_of_notMem ha, List.idxOf_cons_self, Nat.add_zero]
  rw [cutAt, hpos, if_neg (by simp)]
  simp

theorem cutAt_eq_some_iff (c : α) (s a b : List α) :
    cutAt c s = some (a, b) ↔ s = a ++ c :: b ∧ c ∉ a := by
  constructor
  · intro h
    have hmem : c ∈ s := by
      by_contra hc
      rw [cutAt, List.idxOf_eq_length_iff.mpr hc, if_pos rfl] at h
      contradiction
    obtain ⟨a',b',rfl,ha'⟩ := List.eq_append_cons_of_mem hmem
    rw [cutAt_append c a' b' ha', Option.some.injEq, Prod.mk.injEq] at h
    exact ⟨by rw [h.1, h.2], h.1 ▸ ha'⟩
  · intro ⟨hs,ha⟩
    rw [hs, cutAt_append c a b ha]

end text

section table
variable {K V : Type*} [DecidableEq K]

/-- The table after the assignments, the later ones over the earlier ones. -/
def assign (m : K → Option V) (es : List (K × V)) : K → Option V :=
  es.foldl (fun m e => Function.update m e.1 (some e.2)) m

theorem assign_append (m : K → Option V) (es fs : List (K × V)) :
    assign m (es ++ fs) = assign (assign m es) fs := List.foldl_append

theorem assign_snoc (m : K → Option V) (es : List (K × V)) (e : K × V) :
    assign m (es ++ [e]) = Function.update (assign m es) e.1 (some e.2) := by
  rw [assign_append]
  rfl

/-- Whatever the table holds was there before or was assigned. -/
theorem assign_eq_some (m : K → Option V) (es : List (K × V)) (k : K) (v : V)
    (h : assign m es k = some v) : m k = some v ∨ (k, v) ∈ es := by
  induction es using List.reverseRecOn with
  | nil => exact Or.inl h
  | append_singleton es e ih =>
    rw [assign_snoc] at h
    by_cases hk : k = e.1
    · rw [hk, Function.update_self, Option.some.injEq] at h
      exact Or.inr (by rw [hk, ← h]; simp)
    · rw [Function.update_of_ne hk] at h
      exact (ih h).imp_right (List.mem_append_left [e])

/-- Rewriting every assignment of `key` amounts to one more assignment at the
end, when there is one to rewrite. -/
theorem assign_rewrite (m : K → Option V) (es : List (K × V)) (key : K) (value : V) :
    assign m (es.map fun e => if e.1 = key then (key, value) else e) =
      if key ∈ es.map Prod.fst then Function.update (assign m es) key (some value)
      else assign m es := by
  induction es using List.reverseRecOn with
  | nil => rfl
  | append_singleton es e ih =>
    rw [List.map_append, List.map_singleton, assign_snoc, ih, assign_snoc, List.map_append,
      List.map_singleton]
    by_cases he : e.1 = key
    · have hmem : key ∈ es.map Prod.fst ++ [e.1] := by
        rw [he]
        exact List.mem_append_right _ (List.mem_singleton_self key)
      rw [if_pos hmem, if_pos he, he, Function.update_idem]
      split_ifs
      · exact Function.update_idem _ _ _
      · rfl
    · have hiff : key ∈ es.map Prod.fst ++ [e.1] ↔ key ∈ es.map Prod.fst := by
        rw [List.mem_append, List.mem_singleton, or_iff_left (Ne.symm he)]
      simp only [if_neg he, hiff]
      split_ifs
      · exact Function.update_comm (Ne.symm he) _ _ _
      · rfl

end table

end KeyValueText

import Mathlib.Data.List.Induction

/-! Finite runs of a partial labelled step `σ → α → Option σ`: `none` says that
the action is not enabled in the state. An invariant is proved for one step and
carried to every run, also for runs whose steps all meet a side condition. -/
namespace StepRuns

variable {σ α : Type*} (step : σ → α → Option σ)

/-- Performs the actions in order, `none` as soon as one of them is not enabled. -/
def run : σ → List α → Option σ
  | s, [] => some s
  | s, a :: as => (step s a).bind fun t => run t as

@[simp] theorem run_nil (s : σ) : run step s [] = some s := rfl

theorem run_cons_iff (s u : σ) (a : α) (as : List α) :
    run step s (a :: as) = some u ↔ ∃ t, step s a = some t ∧ run step t as = some u := by
  simp only [run, Option.bind_eq_some_iff]

theorem run_append_iff (s u : σ) (as bs : List α) :
    run step s (as ++ bs) = some u ↔ ∃ t, run step s as = some t ∧ run step t bs = some u := by
  induction as generalizing s with
  | nil => simp
  | cons a as ih =>
    simp only [List.cons_append, run_cons_iff, ih]
    constructor
    · rintro ⟨t, ht, v, hv, hu⟩
      exact ⟨v, ⟨t, ht, hv⟩, hu⟩
    · rintro ⟨v, ⟨t, ht, hv⟩, hu⟩
      exact ⟨t, ht, v, hv, hu⟩

theorem run_snoc_iff (s u : σ) (as : List α) (a : α) :
    run step s (as ++ [a]) = some u ↔ ∃ t, run step s as = some t ∧ step t a = some u := by
  simp only [run_append_iff, run_cons_iff, run_nil, Option.some.injEq, exists_eq_right]

/-- What one step preserves holds at the end of every run. -/
theorem run_invariant (I : σ → Prop) (hstep : ∀ s a t, I s → step s a = some t → I t)
    (s t : σ) (as : List α) (hs : I s) (hrun : run step s as = some t) : I t := by
  induction as generalizing s with
  | nil =>
    rw [run_nil, Option.some.injEq] at hrun
    exact hrun ▸ hs
  | cons a as ih =>
    obtain ⟨u, hu, hrun⟩ := (run_cons_iff step s t a as).mp hrun
    exact ih u (hstep s a u hs hu) hrun

/-- An invariant that also speaks of the actions performed so far. -/
theorem run_history_invariant (s : σ) (P : List α → σ → Prop) (hnil : P [] s)
    (hsnoc : ∀ as t a u, run step s as = some t → P as t → step t a = some u → P (as ++ [a]) u)
    (as : List α) (t : σ) (hrun : run step s as = some t) : P as t := by
  induction as using List.reverseRecOn generalizing t with
  | nil =>
    rw [run_nil, Option.some.injEq] at hrun
    exact hrun ▸ hnil
  | append_singleton as a ih =>
    obtain ⟨u, hu, ht⟩ := (run_snoc_iff step s t as a).mp hrun
    exact hsnoc as u a t hu (ih u hu) ht

/-- Every action of the run is performed in a state where `ok` allows it. -/
def Meets (ok : σ → α → Prop) : σ → List α → Prop
  | _, [] => True
  | s, a :: as => ok s a ∧ ∀ t, step s a = some t → Meets ok t as

-- a run of fixed actions can be tested against a decidable condition
instance decidableMeets (ok : σ → α → Prop) [hok : ∀ s a, Decidable (ok s a)] :
    ∀ s as, Decidable (Meets step ok s as)
  | _, [] => isTrue trivial
  | s, a :: as =>
    match ht : step s a with
    | none => decidable_of_iff (ok s a) (by simp [Meets, ht])
    | some t =>
      have := decidableMeets ok t as
      decidable_of_iff (ok s a ∧ Meets step ok t as) (by simp [Meets, ht])

theorem meets_snoc_iff (ok : σ → α → Prop) (s : σ) (as : List α) (a : α) :
    Meets step ok s (as ++ [a]) ↔
      Meets step ok s as ∧ ∀ t, run step s as = some t → ok t a := by
  induction as generalizing s with
  | nil => simp [Meets]
  | cons b as ih =>
    simp only [List.cons_append, Meets, ih, run_cons_iff]
    constructor
    · rintro ⟨hb, h⟩
      exact ⟨⟨hb, fun t ht => (h t ht).1⟩, fun u ⟨t, ht, hu⟩ => (h t ht).2 u hu⟩
    · rintro ⟨⟨hb, h⟩, hu⟩
      exact ⟨hb, fun t ht => ⟨h t ht, fun u hru => hu u ⟨t, ht, hru⟩⟩⟩

/-- The invariant rule for runs all of whose steps meet `ok`. -/
theorem run_invariant_of_meets (ok : σ → α → Prop) (I : σ → Prop)
    (hstep : ∀ s a t, I s → ok s a → step s a = some t → I t)
    (s t : σ) (as : List α) (hs : I s) (hok : Meets step ok s as)
    (hrun : run step s as = some t) : I t := by
  induction as generalizing s with
  | nil =>
    rw [run_nil, Option.some.injEq] at hrun
    exact hrun ▸ hs
  | cons a as ih =>
    obtain ⟨u, hu, hrun⟩ := (run_cons_iff step s t a as).mp hrun
    exact ih u (hstep s a u hs hok.1 hu) (hok.2 u hu) hrun

/-- A condition on the actions alone. -/
theorem meets_of_forall (P : α → Prop) (s : σ) (as : List α) (h : ∀ a ∈ as, P a) :
    Meets step (fun _ a => P a) s as := by
  induction as generalizing s with
  | nil => trivial
  | cons a as ih =>
    obtain ⟨ha,has⟩ := List.forall_mem_cons.mp h
    exact ⟨ha, fun t _ => ih t has⟩

/-- What holds of every allowed action in a state of the invariant. -/
theorem meets_of_meets (ok good : σ → α → Prop) (I : σ → Prop)
    (hgood : ∀ s a, I s → ok s a → good s a)
    (hstep : ∀ s a t, I s → ok s a → step s a = some t → I t)
    (s : σ) (as : List α) (hs : I s) (hok : Meets step ok s as) : Meets step good s as := by
  induction as generalizing s with
  | nil => trivial
  | cons a as ih =>
    refine ⟨hgood s a hs hok.1, ?_⟩
    intro t ht
    exact ih t (hstep s a t hs hok.1 ht) (hok.2 t ht)

/-- When `ok` decides at every step whether the next state is good, the runs
that meet it are the runs in which every state is good. -/
theorem meets_iff_good_states (ok : σ → α → Prop) (I Good : σ → Prop) (hgood : ∀ s, I s → Good s)
    (hstep : ∀ s a t, I s → step s a = some t → (ok s a ↔ Good t) ∧ (ok s a → I t))
    (s u : σ) (as : List α) (hs : I s) (hrun : run step s as = some u) :
    Meets step ok s as ↔ ∀ pre t, pre <+: as → run step s pre = some t → Good t := by
  induction as generalizing s with
  | nil =>
    simp only [Meets, true_iff, List.prefix_nil]
    intro pre t hpre ht
    rw [hpre, run_nil, Option.some.injEq] at ht
    exact ht ▸ hgood s hs
  | cons a as ih =>
    obtain ⟨t,ht,hrest⟩ := (run_cons_iff step s u a as).mp hrun
    obtain ⟨hiff,hkeep⟩ := hstep s a t hs ht
    constructor
    · intro hmeets pre v hpre hv
      cases pre with
      | nil =>
        rw [run_nil, Option.some.injEq] at hv
        exact hv ▸ hgood s hs
      | cons b pre =>
        obtain ⟨rfl,htail⟩ := List.cons_prefix_cons.mp hpre
        obtain ⟨t',ht',hv'⟩ := (run_cons_iff step s v b pre).mp hv
        rw [ht, Option.some.injEq] at ht'
        subst ht'
        exact (ih t (hkeep hmeets.1) hrest).mp (hmeets.2 t ht) pre v htail hv'
    · intro hall
      have hone : run step s [a] = some t := (run_cons_iff step s t a []).mpr ⟨t, ht, rfl⟩
      have hok := hiff.mpr (hall [a] t (List.cons_prefix_cons.mpr ⟨rfl,List.nil_prefix⟩) hone)
      refine ⟨hok, fun t' ht' => ?_⟩
      rw [ht, Option.some.injEq] at ht'
      subst ht'
      apply (ih t (hkeep hok) hrest).mpr
      intro pre v hpre hv
      exact hall (a :: pre) v (List.cons_prefix_cons.mpr ⟨rfl,hpre⟩)
        ((run_cons_iff step s v a pre).mpr ⟨t,ht,hv⟩)

/-- The same for runs whose actions all meet `base`. -/
theorem meets_iff_good_states_of_meets (base ok : σ → α → Prop) (I Good : σ → Prop)
    (hgood : ∀ s, I s → Good s)
    (hstep : ∀ s a t, I s → base s a → step s a = some t → (ok s a ↔ Good t) ∧ (ok s a → I t))
    (s u : σ) (as : List α) (hbase : Meets step base s as) (hs : I s)
    (hrun : run step s as = some u) :
    Meets step ok s as ↔ ∀ pre t, pre <+: as → run step s pre = some t → Good t := by
  -- the invariant rule applies to the step that refuses what `base` does not allow
  classical
  let step' : σ → α → Option σ := fun s a => if base s a then step s a else none
  have hrun' (v : σ) (bs : List α) (hbs : Meets step base v bs) :
      ∀ pre, pre <+: bs → run step' v pre = run step v pre := by
    induction bs generalizing v with
    | nil =>
      intro pre hpre
      rw [List.prefix_nil.mp hpre]
      rfl
    | cons b bs ih =>
      intro pre hpre
      cases pre with
      | nil => rfl
      | cons a pre =>
        obtain ⟨rfl,htail⟩ := List.cons_prefix_cons.mp hpre
        have hone : step' v a = step v a := if_pos hbs.1
        simp only [run, hone]
        apply Option.bind_congr
        intro t ht
        exact ih t (hbs.2 t ht) pre htail
  have hmeets' (v : σ) (bs : List α) (hbs : Meets step base v bs) :
      Meets step' ok v bs ↔ Meets step ok v bs := by
    induction bs generalizing v with
    | nil => exact Iff.rfl
    | cons b bs ih =>
      have hone : step' v b = step v b := if_pos hbs.1
      simp only [Meets, hone]
      apply and_congr_right
      intro _
      apply forall₂_congr
      intro t ht
      exact ih t (hbs.2 t ht)
  rw [← hmeets' s as hbase, meets_iff_good_states step' ok I Good hgood ?_ s u as hs
    ((hrun' s as hbase as List.prefix_rfl).trans hrun)]
  · apply forall₂_congr
    intro pre t
    apply imp_congr_right
    intro hpre
    rw [hrun' s as hbase pre hpre]
  · intro v a w hv hw
    by_cases ha : base v a
    · exact hstep v a w hv ha ((if_pos ha).symm.trans hw)
    · exact absurd ((if_neg ha).symm.trans hw) (by simp)

/-- Repeating one action leads from `s` to `t`. -/
def Repeats (a : α) (s t : σ) : Prop := ∃ n, run step s (List.replicate n a) = some t

theorem Repeats.refl (a : α) (s : σ) : Repeats step a s s := ⟨0, rfl⟩

theorem Repeats.head {a : α} {s t u : σ} (hs : step s a = some t) (ht : Repeats step a t u) :
    Repeats step a s u := by
  obtain ⟨n,hn⟩ := ht
  refine ⟨n+1, ?_⟩
  rw [List.replicate_succ, run_cons_iff]
  exact ⟨t, hs, hn⟩

theorem Repeats.trans {a : α} {s t u : σ} (hs : Repeats step a s t) (ht : Repeats step a t u) :
    Repeats step a s u := by
  obtain ⟨m,hm⟩ := hs
  obtain ⟨n,hn⟩ := ht
  refine ⟨m+n, ?_⟩
  rw [← List.replicate_append_replicate, run_append_iff]
  exact ⟨t, hm, hn⟩

end StepRuns

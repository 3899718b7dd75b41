import CppOperate.StepRuns
import Mathlib.Data.Fintype.Basic
import Mathlib.Logic.Function.Basic

/-! Double-checked initialisation by any number of threads. A thread tests the
flag without the lock; if it is clear it locks, tests again, and performs a
fixed list of writes to the flag and to the variables; then it reads them. -/
namespace DoubleCheckedInit
open StepRuns

inductive Write (κ : Type*)
  | flag
  | var (k : κ)
deriving DecidableEq, Repr

/-- Where a thread stands in a call with the request `r`. -/
inductive Pc (ρ κ : Type*)
  | idle
  | test (r : ρ)
  | lock (r : ρ)
  | recheck (r : ρ)
  | write (r : ρ) (rest : List (Write κ))
  | unlock
  | read (rest : List κ)
deriving DecidableEq, Repr

structure State (ι ρ κ : Type*) where
  pc : ι → Pc ρ κ
  owner : Option ι
  flag : Bool
  -- the request a variable was last computed from, `none` before the first write
  vars : κ → Option ρ

inductive Event (ι ρ : Type*)
  | call (i : ι) (r : ρ)
  | next (i : ι)
  -- the call ends before it has read everything
  | leave (i : ι)
deriving DecidableEq, Repr

variable {ι ρ κ : Type*}

namespace State

/-- Nothing is written yet and nobody is in a call. -/
def init : State ι ρ κ := ⟨fun _ => .idle, none, false, fun _ => none⟩

def goto [DecidableEq ι] (s : State ι ρ κ) (i : ι) (pc : Pc ρ κ) : State ι ρ κ :=
  { s with pc := Function.update s.pc i pc }

def perform [DecidableEq κ] (s : State ι ρ κ) (r : ρ) : Write κ → State ι ρ κ
  | .flag => { s with flag := true }
  | .var k => { s with vars := Function.update s.vars k (some r) }

end State

section machine
variable [DecidableEq ι] [DecidableEq κ] (writes : List (Write κ)) (reads : List κ)

/-- The next step of thread `i`; only a lock held by another thread blocks it. -/
def advance (s : State ι ρ κ) (i : ι) : Option (State ι ρ κ) :=
  match s.pc i with
  | .idle => none
  -- the test without the lock
  | .test r => some (s.goto i (if s.flag then .read reads else .lock r))
  | .lock r =>
    match s.owner with
    | none => some { s.goto i (.recheck r) with owner := some i }
    | some _ => none
  -- the test under the lock
  | .recheck r => some (s.goto i (if s.flag then .unlock else .write r writes))
  | .write r (w :: rest) => some ((s.perform r w).goto i (.write r rest))
  | .write _ [] => some (s.goto i .unlock)
  | .unlock => some { s.goto i (.read reads) with owner := none }
  | .read (_ :: rest) => some (s.goto i (.read rest))
  | .read [] => some (s.goto i .idle)

def step (s : State ι ρ κ) : Event ι ρ → Option (State ι ρ κ)
  | .call i r =>
    match s.pc i with
    | .idle => some (s.goto i (.test r))
    | _ => none
  | .next i => advance writes reads s i
  | .leave i =>
    match s.pc i with
    | .read _ => some (s.goto i .idle)
    | _ => none

end machine

/-- All variables are written, from one request. -/
def Complete (s : State ι ρ κ) : Prop := ∃ r, ∀ k, s.vars k = some r

/-- No thread has a variable left to write. -/
def NoPending (s : State ι ρ κ) : Prop :=
  ∀ j r rest, s.pc j = .write r rest → ∀ k, Write.var k ∉ rest

/-- The event is no read that comes before the writes are complete. -/
def ReadsComplete (s : State ι ρ κ) : Event ι ρ → Prop
  | .next i => ∀ k rest, s.pc i = .read (k :: rest) → Complete s
  | _ => True

/-- The event is no unlocked test that sees the flag of an unfinished writer. -/
def TestsSettled (s : State ι ρ κ) : Event ι ρ → Prop
  | .next i => ∀ r, s.pc i = .test r → s.flag = true → NoPending s
  | _ => True

namespace Pc

-- no variable is left to write here
def quiet : Pc ρ κ → Bool
  | .write _ rest => rest.all fun w => match w with
    | .flag => true
    | .var _ => false
  | _ => true

theorem quiet_iff (pc : Pc ρ κ) :
    pc.quiet = true ↔ ∀ r rest, pc = .write r rest → ∀ k, Write.var k ∉ rest := by
  cases pc with
  | write r rest =>
    simp only [quiet, List.all_eq_true, Pc.write.injEq]
    constructor
    · rintro h _ _ ⟨rfl,rfl⟩ k hk
      exact absurd (h _ hk) (by simp)
    · intro h w hw
      cases w with
      | flag => rfl
      | var k => exact absurd hw (h r rest ⟨rfl,rfl⟩ k)
  | _ => simp [quiet]

def InLock : Pc ρ κ → Prop
  | .recheck _ => True
  | .write _ _ => True
  | .unlock => True
  | _ => False

-- past the tests and the writes
def Past : Pc ρ κ → Prop
  | .unlock => True
  | .read _ => True
  | _ => False

end Pc

instance decidableNoPending [Fintype ι] (s : State ι ρ κ) : Decidable (NoPending s) :=
  decidable_of_iff (∀ j, (s.pc j).quiet = true) (by simp only [NoPending, Pc.quiet_iff])

-- a run of fixed events of finitely many threads can be tested
instance decidableTestsSettled [Fintype ι] (s : State ι ρ κ) :
    ∀ e : Event ι ρ, Decidable (TestsSettled s e)
  | .call _ _ => isTrue trivial
  | .leave _ => isTrue trivial
  | .next i =>
    match h : s.pc i with
    | .test r => decidable_of_iff (s.flag = true → NoPending s) (by simp [TestsSettled, h])
    | .idle | .lock _ | .recheck _ | .write _ _ | .unlock | .read _ =>
      isTrue (by simp [TestsSettled, h])

/-- The invariant of the runs whose unlocked tests are all settled. -/
structure Inv (writes : List (Write κ)) (s : State ι ρ κ) : Prop where
  owns : ∀ i, (s.pc i).InLock → s.owner = some i
  writing : ∀ i r rest, s.pc i = .write r rest → ∃ done, writes = done ++ rest ∧
    (∀ k, .var k ∈ done → s.vars k = some r) ∧ (∀ k, .var k ∉ done → s.vars k = none) ∧
    (.flag ∈ done ↔ s.flag = true)
  clear : s.flag = false → (∀ i r rest, s.pc i ≠ .write r rest) → ∀ k, s.vars k = none
  -- a set flag leaves a moment of incompleteness only while its writer is at work
  settled : s.flag = true → NoPending s → Complete s
  -- the flag is never cleared again, so what was settled at a test stays settled
  past : ∀ i, (s.pc i).Past → s.flag = true ∧ NoPending s

section invariant
variable {writes : List (Write κ)} {s : State ι ρ κ}

theorem init_inv : Inv writes (State.init : State ι ρ κ) := by
  refine ⟨?_, ?_, ?_, ?_, ?_⟩
  · intro i h
    exact h.elim
  · intro i r rest h
    contradiction
  · intro _ _ k
    rfl
  · intro h
    contradiction
  · intro i h
    exact h.elim

/-- Two threads are never in the lock together. -/
theorem Inv.alone (hinv : Inv writes s) (i j : ι) (hi : (s.pc i).InLock) (hj : (s.pc j).InLock) :
    j = i :=
  Option.some.inj ((hinv.owns j hj).symm.trans (hinv.owns i hi))

theorem Inv.noPending_of_inLock (hinv : Inv writes s) (i : ι) (hi : (s.pc i).InLock)
    (hself : ∀ r rest, s.pc i = .write r rest → rest = []) : NoPending s := by
  intro j r rest hj k hk
  have heq := hinv.alone i j hi (by rw [hj]; trivial)
  rw [heq] at hj
  rw [hself r rest hj] at hk
  contradiction

theorem Inv.readsComplete (hinv : Inv writes s) (e : Event ι ρ) : ReadsComplete s e := by
  cases e with
  | next i =>
    intro k rest hpc
    obtain ⟨hset,hnone⟩ := hinv.past i (by rw [hpc]; trivial)
    exact hinv.settled hset hnone
  | call i r => trivial
  | leave i => trivial

/-- With the flag written last every unlocked test is settled. -/
theorem Inv.testsSettled (hlast : ∀ done rest, writes = done ++ rest → .flag ∈ done →
    ∀ k, Write.var k ∉ rest) (hinv : Inv writes s) (e : Event ι ρ) : TestsSettled s e := by
  cases e with
  | next i =>
    intro r _ hset j r' rest hj
    obtain ⟨done,hsplit,-,-,hflag⟩ := hinv.writing j r' rest hj
    exact hlast done rest hsplit (hflag.mpr hset)
  | call i r => trivial
  | leave i => trivial

-- a variable that is left to write carries nothing yet
theorem Inv.not_complete (hnodup : writes.Nodup) (hinv : Inv writes s) (h : ¬ NoPending s) :
    ¬ Complete s := by
  intro ⟨r,hall⟩
  apply h
  intro j r' rest hj k hk
  obtain ⟨done,hsplit,-,hleft,-⟩ := hinv.writing j r' rest hj
  rw [hsplit] at hnodup
  have hnone := hleft k fun hdone => (List.nodup_append.mp hnodup).2.2 _ hdone _ hk rfl
  rw [hall k] at hnone
  contradiction

section perform
variable [DecidableEq κ]

theorem perform_pc (r : ρ) (w : Write κ) : (s.perform r w).pc = s.pc := by
  cases w <;> rfl

theorem perform_owner (r : ρ) (w : Write κ) : (s.perform r w).owner = s.owner := by
  cases w <;> rfl

theorem perform_flag_eq_true_iff (r : ρ) (w : Write κ) :
    (s.perform r w).flag = true ↔ w = .flag ∨ s.flag = true := by
  cases w <;> simp [State.perform]

-- a variable that already carries the request `r` keeps it
theorem perform_vars (r : ρ) (w : Write κ) (k : κ) (h : w = .var k ∨ s.vars k = some r) :
    (s.perform r w).vars k = some r := by
  cases w with
  | flag => exact h.resolve_left (by simp)
  | var m =>
    unfold State.perform
    rcases eq_or_ne k m with rfl | hne
    · exact Function.update_self k _ _
    · dsimp only
      rw [Function.update_of_ne hne]
      apply h.resolve_left
      intro heq
      cases heq
      contradiction

theorem perform_vars_other (r : ρ) (w : Write κ) (k : κ) (h : w ≠ .var k) :
    (s.perform r w).vars k = s.vars k := by
  cases w with
  | flag => rfl
  | var m =>
    apply Function.update_of_ne
    rintro rfl
    exact h rfl

end perform

variable [DecidableEq ι]

theorem goto_pc_self (i : ι) (pc : Pc ρ κ) : (s.goto i pc).pc i = pc := by
  simp [State.goto]

theorem goto_pc_other (i j : ι) (pc : Pc ρ κ) (h : j ≠ i) : (s.goto i pc).pc j = s.pc j := by
  simp [State.goto, h]

/-- The steps that write nothing and do not start writing. -/
theorem Inv.goto (hflag : .flag ∈ writes) (hinv : Inv writes s) (i : ι) (pc : Pc ρ κ) (owner : Option ι)
    (hpc : ∀ r rest, pc ≠ .write r rest) (hself : ∀ r rest, s.pc i = .write r rest → rest = [])
    (hlock : pc.InLock → owner = some i) (hother : ∀ j, j ≠ i → (s.pc j).InLock → owner = some j)
    (hpast : pc.Past → s.flag = true ∧ NoPending s) :
    Inv writes { s.goto i pc with owner := owner } := by
  have hstay : ∀ j r rest, (s.goto i pc).pc j = .write r rest → s.pc j = .write r rest := by
    intro j r rest hj
    rcases eq_or_ne j i with rfl | hne
    · rw [goto_pc_self] at hj
      exact absurd hj (hpc r rest)
    · rwa [goto_pc_other i j pc hne] at hj
  have hpending (h : NoPending s) : NoPending { s.goto i pc with owner := owner } :=
    fun j r rest hj => h j r rest (hstay j r rest hj)
  refine ⟨?_, ?_, ?_, ?_, ?_⟩
  · intro j hj
    rcases eq_or_ne j i with rfl | hne
    · apply hlock
      rwa [goto_pc_self] at hj
    · apply hother j hne
      rwa [goto_pc_other i j pc hne] at hj
  · intro j r rest hj
    exact hinv.writing j r rest (hstay j r rest hj)
  · intro hclear hnone
    apply hinv.clear hclear
    intro j r rest hj
    rcases eq_or_ne j i with rfl | hne
    · -- a writer that is done has set the flag
      obtain ⟨done,hsplit,-,-,hset⟩ := hinv.writing j r rest hj
      rw [hself r rest hj, List.append_nil] at hsplit
      have htrue := hset.mp (hsplit ▸ hflag)
      rw [show s.flag = false from hclear] at htrue
      contradiction
    · exact hnone j r rest ((goto_pc_other i j pc hne).trans hj)
  · intro hset hnone
    apply hinv.settled hset
    intro j r rest hj k hk
    -- thread `i` itself had nothing left to write
    rcases eq_or_ne j i with rfl | hne
    · rw [hself r rest hj] at hk
      contradiction
    · exact hnone j r rest ((goto_pc_other i j pc hne).trans hj) k hk
  · intro j hj
    rcases eq_or_ne j i with rfl | hne
    · rw [goto_pc_self] at hj
      exact ⟨(hpast hj).1, hpending (hpast hj).2⟩
    · rw [goto_pc_other i j pc hne] at hj
      exact ⟨(hinv.past j hj).1, hpending (hinv.past j hj).2⟩

theorem Inv.startWriting (hinv : Inv writes s) (i : ι) (r : ρ) (hpc : s.pc i = .recheck r)
    (hflag : s.flag = false) : Inv writes (s.goto i (.write r writes)) := by
  have hlock : (s.pc i).InLock := by
    rw [hpc]
    trivial
  refine ⟨?_, ?_, ?_, ?_, ?_⟩
  · intro j hj
    rcases eq_or_ne j i with rfl | hne
    · exact hinv.owns j hlock
    · rw [goto_pc_other i j _ hne] at hj
      exact hinv.owns j hj
  · intro j r' rest hj
    rcases eq_or_ne j i with rfl | hne
    · rw [goto_pc_self] at hj
      cases hj
      refine ⟨[], rfl, fun k hk => absurd hk List.not_mem_nil, ?_, by simp [State.goto, hflag]⟩
      intro k _
      apply hinv.clear hflag
      -- nobody else is in the lock to write
      intro m r' rest hm
      have heq := hinv.alone j m hlock (by rw [hm]; trivial)
      rw [heq, hpc] at hm
      contradiction
    · rw [goto_pc_other i j _ hne] at hj
      exact hinv.writing j r' rest hj
  · intro _ hnone
    exact absurd (goto_pc_self i _) (hnone i r writes)
  · intro h
    rw [State.goto, hflag] at h
    contradiction
  · intro j hj
    rcases eq_or_ne j i with rfl | hne
    · rw [goto_pc_self] at hj
      exact hj.elim
    · rw [goto_pc_other i j _ hne] at hj
      have := (hinv.past j hj).1
      rw [hflag] at this
      contradiction

variable [DecidableEq κ]

theorem Inv.performWrite (hvars : ∀ k, .var k ∈ writes) (hinv : Inv writes s) (i : ι) (r : ρ)
    (w : Write κ) (rest : List (Write κ)) (hpc : s.pc i = .write r (w :: rest)) :
    Inv writes ((s.perform r w).goto i (.write r rest)) := by
  have hlock : (s.pc i).InLock := by
    rw [hpc]
    trivial
  obtain ⟨done,hsplit,hdone,hleft,hflag⟩ := hinv.writing i r (w :: rest) hpc
  have hwrite : ∀ k, .var k ∈ done ++ [w] → (s.perform r w).vars k = some r := by
    intro k hk
    apply perform_vars
    rcases List.mem_append.mp hk with hk | hk
    · exact Or.inr (hdone k hk)
    · exact Or.inl (List.mem_singleton.mp hk).symm
  have hother : ∀ j, j ≠ i → ((s.perform r w).goto i (.write r rest)).pc j = s.pc j := by
    intro j hne
    rw [goto_pc_other i j _ hne, perform_pc]
  refine ⟨?_, ?_, ?_, ?_, ?_⟩
  · intro j hj
    rw [State.goto, perform_owner]
    rcases eq_or_ne j i with rfl | hne
    · exact hinv.owns j hlock
    · rw [hother j hne] at hj
      exact hinv.owns j hj
  · intro j r' rest' hj
    rcases eq_or_ne j i with rfl | hne
    · rw [goto_pc_self] at hj
      cases hj
      refine ⟨done ++ [w], by simp [hsplit], hwrite, ?_, ?_⟩
      · intro k hk
        rw [List.mem_append, not_or, List.mem_singleton] at hk
        exact (perform_vars_other r w k (Ne.symm hk.2)).trans (hleft k hk.1)
      · rw [State.goto, perform_flag_eq_true_iff, ← hflag]
        simp [or_comm, eq_comm]
    · rw [hother j hne] at hj
      exact absurd (hinv.alone i j hlock (by rw [hj]; trivial)) hne
  · intro _ hnone
    exact absurd (goto_pc_self i _) (hnone i r rest)
  · intro _ hnone
    -- nothing is left to this thread, so every variable carries its request
    refine ⟨r, fun k => hwrite k ?_⟩
    have hk := hvars k
    rw [hsplit, List.append_cons, List.mem_append] at hk
    rcases hk with hk | hk
    · exact hk
    · exact absurd hk (hnone i r rest (goto_pc_self i _) k)
  · intro j hj
    rcases eq_or_ne j i with rfl | hne
    · rw [goto_pc_self] at hj
      exact hj.elim
    · rw [hother j hne] at hj
      obtain ⟨hset,hnone⟩ := hinv.past j hj
      refine ⟨(perform_flag_eq_true_iff r w).mpr (Or.inr hset), ?_⟩
      intro m r' rest' hm k hk
      rcases eq_or_ne m i with rfl | hne'
      · rw [goto_pc_self] at hm
        cases hm
        exact hnone m r (w :: rest) hpc k (List.mem_cons_of_mem w hk)
      · rw [hother m hne'] at hm
        exact hnone m r' rest' hm k hk

end invariant

section runs
variable [DecidableEq ι] [DecidableEq κ] {writes : List (Write κ)} (reads : List κ)
  {s : State ι ρ κ}

theorem Inv.advance (hvars : ∀ k, .var k ∈ writes) (hflag : .flag ∈ writes) (hinv : Inv writes s)
    (i : ι) (t : State ι ρ κ) (hok : TestsSettled s (.next i))
    (h : advance writes reads s i = some t) : Inv writes t := by
  have hothers : ∀ j, j ≠ i → (s.pc j).InLock → s.owner = some j := fun j _ => hinv.owns j
  unfold DoubleCheckedInit.advance at h
  cases hpc : s.pc i with
  | idle => simp [hpc] at h
  | test r =>
    simp only [hpc, Option.some.injEq] at h
    subst h
    have hself : ∀ r' rest, s.pc i = .write r' rest → rest = [] := by simp [hpc]
    by_cases hset : s.flag = true
    · rw [if_pos hset]
      exact hinv.goto hflag i (.read reads) s.owner (by simp) hself (fun h => h.elim) hothers
        fun _ => ⟨hset, hok r hpc hset⟩
    · rw [if_neg hset]
      exact hinv.goto hflag i (.lock r) s.owner (by simp) hself (fun h => h.elim) hothers fun h => h.elim
  | lock r =>
    cases howner : s.owner with
    | some j => simp [hpc, howner] at h
    | none =>
      simp only [hpc, howner, Option.some.injEq] at h
      subst h
      -- a free lock means that nobody is inside
      apply hinv.goto hflag i (.recheck r) (some i) (by simp) (by simp [hpc]) (fun _ => rfl)
      · intro j _ hj
        rw [hinv.owns j hj] at howner
        contradiction
      · exact fun h => h.elim
  | recheck r =>
    simp only [hpc, Option.some.injEq] at h
    subst h
    have hlock : (s.pc i).InLock := by
      rw [hpc]
      trivial
    by_cases hset : s.flag = true
    · rw [if_pos hset]
      have hself : ∀ r' rest, s.pc i = .write r' rest → rest = [] := by simp [hpc]
      exact hinv.goto hflag i .unlock s.owner (by simp) hself (fun _ => hinv.owns i hlock) hothers
        fun _ => ⟨hset, hinv.noPending_of_inLock i hlock hself⟩
    · rw [if_neg hset]
      exact hinv.startWriting i r hpc (by simpa using hset)
  | write r rest =>
    have hlock : (s.pc i).InLock := by
      rw [hpc]
      trivial
    cases rest with
    | cons w rest =>
      simp only [hpc, Option.some.injEq] at h
      subst h
      exact hinv.performWrite hvars i r w rest hpc
    | nil =>
      simp only [hpc, Option.some.injEq] at h
      subst h
      have hself : ∀ r' rest, s.pc i = .write r' rest → rest = [] := by simp [hpc]
      obtain ⟨done,hsplit,-,-,hset⟩ := hinv.writing i r [] hpc
      rw [List.append_nil] at hsplit
      exact hinv.goto hflag i .unlock s.owner (by simp) hself (fun _ => hinv.owns i hlock) hothers
        fun _ => ⟨hset.mp (hsplit ▸ hflag), hinv.noPending_of_inLock i hlock hself⟩
  | unlock =>
    simp only [hpc, Option.some.injEq] at h
    subst h
    have hlock : (s.pc i).InLock := by
      rw [hpc]
      trivial
    apply hinv.goto hflag i (.read reads) none (by simp) (by simp [hpc]) (fun h => h.elim)
    · intro j hne hj
      exact absurd (hinv.alone i j hlock hj) hne
    · intro _
      apply hinv.past i
      rw [hpc]
      trivial
  | read rest =>
    have hpast := hinv.past i (by rw [hpc]; trivial)
    cases rest with
    | cons k rest =>
      simp only [hpc, Option.some.injEq] at h
      subst h
      exact hinv.goto hflag i (.read rest) s.owner (by simp) (by simp [hpc]) (fun h => h.elim) hothers
        fun _ => hpast
    | nil =>
      simp only [hpc, Option.some.injEq] at h
      subst h
      exact hinv.goto hflag i .idle s.owner (by simp) (by simp [hpc]) (fun h => h.elim) hothers
        fun h => h.elim

theorem Inv.step (hvars : ∀ k, .var k ∈ writes) (hflag : .flag ∈ writes) (hinv : Inv writes s)
    (e : Event ι ρ) (t : State ι ρ κ) (hok : TestsSettled s e)
    (h : step writes reads s e = some t) : Inv writes t := by
  have hothers (i : ι) : ∀ j, j ≠ i → (s.pc j).InLock → s.owner = some j := fun j _ => hinv.owns j
  cases e with
  | next i => exact hinv.advance reads hvars hflag i t hok h
  | call i r =>
    simp only [DoubleCheckedInit.step] at h
    split at h
    · rename_i hpc
      rw [Option.some.injEq] at h
      subst h
      exact hinv.goto hflag i (.test r) s.owner (by simp) (by simp [hpc]) (fun h => h.elim) (hothers i)
        fun h => h.elim
    · contradiction
  | leave i =>
    simp only [DoubleCheckedInit.step] at h
    split at h
    · rename_i hpc
      rw [Option.some.injEq] at h
      subst h
      exact hinv.goto hflag i .idle s.owner (by simp) (by simp [hpc]) (fun h => h.elim) (hothers i)
        fun h => h.elim
    · contradiction

/-- Every read of a run whose unlocked tests are settled finds all variables
written, from one request. -/
theorem readsComplete_of_testsSettled (hvars : ∀ k, .var k ∈ writes) (hflag : .flag ∈ writes)
    (events : List (Event ι ρ))
    (hok : Meets (DoubleCheckedInit.step writes reads) TestsSettled State.init events) :
    Meets (DoubleCheckedInit.step writes reads) ReadsComplete State.init events := by
  apply meets_of_meets _ TestsSettled ReadsComplete (Inv writes) ?_ ?_ State.init events init_inv hok
  · intro s e hinv _
    exact hinv.readsComplete e
  · intro s e t hinv hok h
    exact hinv.step reads hvars hflag e t hok h

theorem inv_run (hvars : ∀ k, .var k ∈ writes) (hflag : .flag ∈ writes)
    (events : List (Event ι ρ))
    (hok : Meets (DoubleCheckedInit.step writes reads) TestsSettled State.init events)
    (hrun : run (DoubleCheckedInit.step writes reads) State.init events = some s) :
    Inv writes s :=
  run_invariant_of_meets _ TestsSettled (Inv writes)
    (fun _ e t hinv hok h => hinv.step reads hvars hflag e t hok h) _ s events init_inv hok hrun

/-- An unlocked test that is not settled is answered by a read before the writes
are complete: the next step of that thread. -/
theorem Inv.early_read (hnodup : writes.Nodup) (hinv : Inv writes s) (e : Event ι ρ) (k : κ)
    (h : ¬ TestsSettled s e) : ∃ t, DoubleCheckedInit.step writes (k :: reads) s e = some t ∧
      ¬ ReadsComplete t e := by
  cases e with
  | next i =>
    simp only [TestsSettled, not_forall, exists_prop] at h
    obtain ⟨r,hpc,hset,hpending⟩ := h
    refine ⟨s.goto i (.read (k :: reads)), ?_, ?_⟩
    · simp [DoubleCheckedInit.step, DoubleCheckedInit.advance, hpc, hset]
    · intro hread
      exact hinv.not_complete hnodup hpending (hread k reads (goto_pc_self i _))
  | call i r => exact absurd trivial h
  | leave i => exact absurd trivial h

/-- With the flag written last no run has a read before the writes are complete. -/
theorem readsComplete_of_flag_last (hvars : ∀ k, .var k ∈ writes) (hflag : .flag ∈ writes)
    (hlast : ∀ done rest, writes = done ++ rest → .flag ∈ done → ∀ k, Write.var k ∉ rest)
    (events : List (Event ι ρ))
    (hrun : run (DoubleCheckedInit.step writes reads) State.init events = some s)
    (e : Event ι ρ) : ReadsComplete s e := by
  have hinv : Inv writes s := by
    apply run_invariant _ (Inv writes) ?_ _ s events init_inv hrun
    intro s e t hinv h
    exact hinv.step reads hvars hflag e t (hinv.testsSettled hlast e) h
  exact hinv.readsComplete e

end runs
end DoubleCheckedInit

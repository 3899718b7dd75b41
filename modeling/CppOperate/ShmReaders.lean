import CppOperate.StepRuns
import Mathlib.Data.Fintype.Basic
import Mathlib.Logic.Function.Basic

/-! Several processes of posix_read.cpp: `init`, which gives back some of what it
holds where it fails, and `cleanup`, which gives back by what the fields say. The
names of the objects are shared. -/
namespace CppOperate.ShmReaders
open StepRuns

/-- What the names stand for; an object is a number. -/
inductive Name
  | shm
  | writeSem
  | readSem
deriving DecidableEq, Repr

/-- The values of `shm_ptr`: `nullptr`, `MAP_FAILED` or a mapped object. -/
inductive ShmPtr
  | null
  | mapFailed
  | mapped (o : ℕ)
deriving DecidableEq, Repr

inductive Pc
  | shmOpen
  | ftruncate
  | mmap
  | openWrite
  | openRead
  -- `init` has returned true, `main` is at `read_data`
  | running
  -- `cleanup`, before each of its three parts
  | cleanShm
  | cleanWrite
  | cleanRead
  | ended
deriving DecidableEq, Repr

structure Process where
  pc : Pc := .shmOpen
  shmFd : Option ℕ := none
  -- the fields of the reader, `none` is `SEM_FAILED`
  shmPtr : ShmPtr := .null
  writeSem : Option ℕ := none
  readSem : Option ℕ := none
  -- what `init` returned
  initFailed : Bool := false
  -- what the process holds in the kernel
  isMapped : Bool := false
  writeOpen : Bool := false
  readOpen : Bool := false
  -- it unmapped or closed something a second time
  misused : Bool := false
deriving DecidableEq, Repr

namespace Process

def fail (x : Process) : Process := { x with pc := .cleanShm, initFailed := true }

/-- `munmap(shm_ptr, SHM_SIZE)`, refused by the kernel when the pointer is no mapping. -/
def munmap (x : Process) : Process :=
  match x.shmPtr with
  | .null | .mapFailed => x
  | .mapped _ => { x with isMapped := false, misused := x.misused || !x.isMapped }

def closeWrite (x : Process) : Process :=
  { x with writeOpen := false, misused := x.misused || !x.writeOpen }

def closeRead (x : Process) : Process :=
  { x with readOpen := false, misused := x.misused || !x.readOpen }

/-- The process refers to this object of this name. -/
def refersTo (x : Process) (n : Name) (o : ℕ) : Prop :=
  match n with
  | .shm => x.shmPtr = .mapped o
  | .writeSem => x.writeSem = some o
  | .readSem => x.readSem = some o

instance (x : Process) : ∀ n o, Decidable (x.refersTo n o)
  | .shm, o => inferInstanceAs (Decidable (x.shmPtr = .mapped o))
  | .writeSem, o => inferInstanceAs (Decidable (x.writeSem = some o))
  | .readSem, o => inferInstanceAs (Decidable (x.readSem = some o))

end Process

structure State (P : Type*) where
  process : P → Process := fun _ => {}
  name : Name → Option ℕ := fun _ => none
  fresh : ℕ := 0
  -- a process whose `init` failed took an object from one that is running
  removedInUse : Bool := false

inductive Event (P : Type*)
  -- the next system call, and whether the system lets it succeed
  | next (p : P) (ok : Bool)
  -- the process is ended from outside, without its destructors
  | kill (p : P)
deriving DecidableEq, Repr

variable {P : Type*} [DecidableEq P] [Fintype P]

namespace State

def set (s : State P) (p : P) (x : Process) : State P :=
  { s with process := Function.update s.process p x }

/-- The object of a name is in use by a process whose `init` succeeded. -/
def InUse (s : State P) (n : Name) : Prop :=
  ∃ q, (s.process q).pc = .running ∧ ∃ o ∈ s.name n, (s.process q).refersTo n o

instance (s : State P) (n : Name) : Decidable (s.InUse n) :=
  inferInstanceAs (Decidable (∃ _, _ ∧ _))

/-- A new object under a name. -/
def create (s : State P) (n : Name) : State P :=
  { s with name := Function.update s.name n (some s.fresh), fresh := s.fresh+1 }

/-- `shm_unlink` and `sem_unlink`. -/
def unlink (s : State P) (p : P) (n : Name) : State P :=
  { s with name := Function.update s.name n none,
           removedInUse := s.removedInUse || ((s.process p).initFailed && decide (s.InUse n)) }

/-- The steps of `init`; what fails there is undone only in part. -/
def initNext (s : State P) (p : P) (ok : Bool) : Option (State P) :=
  let x := s.process p
  match x.pc with
  -- `O_CREAT`: opens the object of this name or makes one
  | .shmOpen =>
    if ok then
      match s.name .shm with
      | some o => some (s.set p { x with pc := .ftruncate, shmFd := some o })
      | none => some ((s.create .shm).set p { x with pc := .ftruncate, shmFd := some s.fresh })
    else some (s.set p x.fail)
  | .ftruncate => if ok then some (s.set p { x with pc := .mmap }) else some (s.set p x.fail)
  | .mmap =>
    match x.shmFd with
    | some o =>
      if ok then some (s.set p { x with pc := .openWrite, shmPtr := .mapped o, isMapped := true })
      else some (s.set p { x with shmPtr := .mapFailed }.fail)
    | none => none
  -- `O_CREAT | O_EXCL`: fails too when the name is taken
  | .openWrite =>
    if ok ∧ s.name .writeSem = none then
      some ((s.create .writeSem).set p
        { x with pc := .openRead, writeSem := some s.fresh, writeOpen := true })
    else some (s.set p x.munmap.fail)
  | .openRead =>
    if ok ∧ s.name .readSem = none then
      some ((s.create .readSem).set p
        { x with pc := .running, readSem := some s.fresh, readOpen := true })
    else some (s.set p x.closeWrite.munmap.fail)
  | _ => none

/-- The end of `main` and the steps of `cleanup`. -/
def cleanupNext (s : State P) (p : P) : Option (State P) :=
  let x := s.process p
  match x.pc with
  | .running => some (s.set p { x with pc := .cleanShm })
  | .cleanShm =>
    if x.shmPtr = .null then some (s.set p { x with pc := .cleanWrite })
    else some ((s.unlink p .shm).set p { x.munmap with pc := .cleanWrite })
  | .cleanWrite =>
    if x.writeSem = none then some (s.set p { x with pc := .cleanRead })
    else some ((s.unlink p .writeSem).set p { x.closeWrite with pc := .cleanRead })
  | .cleanRead =>
    if x.readSem = none then some (s.set p { x with pc := .ended })
    else some ((s.unlink p .readSem).set p { x.closeRead with pc := .ended })
  | _ => none

end State

def step (s : State P) : Event P → Option (State P)
  | .next p ok => (s.initNext p ok).or (s.cleanupNext p)
  | .kill p => some (s.set p { s.process p with pc := .ended })

/-- No process whose `init` failed took a named object from a running one, and
no process released anything twice. -/
def Good (s : State P) : Prop := s.removedInUse = false ∧ ∀ p, (s.process p).misused = false

/-- A process whose `init` failed gets to its `cleanup` only with a null pointer,
or with `MAP_FAILED` while no running process uses the object named. -/
def StepOk (s : State P) : Event P → Prop
  | .next p _ => (s.process p).pc = .cleanShm → (s.process p).initFailed = true →
      (s.process p).shmPtr = .null ∨ (s.process p).shmPtr = .mapFailed ∧ ¬ s.InUse .shm
  | .kill _ => True

instance (s : State P) : ∀ e, Decidable (StepOk s e)
  | .next _ _ => inferInstanceAs (Decidable (_ → _ → _ ∨ _ ∧ ¬ _))
  | .kill _ => isTrue trivial

/-- Where a process is, and what it then holds. -/
inductive Phase (x : Process) : Prop
  | opening (hpc : x.pc = .shmOpen ∨ x.pc = .ftruncate ∨ x.pc = .mmap) (hinit : x.initFailed = false)
      (hptr : x.shmPtr = .null) (hwrite : x.writeSem = none) (hread : x.readSem = none)
  | openWrite (hpc : x.pc = .openWrite) (hinit : x.initFailed = false) (o : ℕ)
      (hptr : x.shmPtr = .mapped o) (hmapped : x.isMapped = true) (hwrite : x.writeSem = none)
      (hread : x.readSem = none)
  | openRead (hpc : x.pc = .openRead) (hinit : x.initFailed = false) (o : ℕ)
      (hptr : x.shmPtr = .mapped o) (hmapped : x.isMapped = true) (hwrite : x.writeOpen = true)
      (hread : x.readSem = none)
  | complete (hpc : x.pc = .running ∨ x.pc = .cleanShm) (hinit : x.initFailed = false)
      (hmapped : x.isMapped = true) (hwrite : x.writeOpen = true) (hread : x.readOpen = true)
  | failed (hpc : x.pc = .cleanShm) (hinit : x.initFailed = true)
      (hptr : ∀ o, x.shmPtr = .mapped o → x.isMapped = false)
      (hsems : x.shmPtr = .null ∨ x.shmPtr = .mapFailed → x.writeSem = none ∧ x.readSem = none)
  | cleanWrite (hpc : x.pc = .cleanWrite) (hwrite : x.writeSem = none ∨ x.writeOpen = true)
      (hread : x.readSem = none ∨ x.readOpen = true)
      (hfailed : x.initFailed = true → x.writeSem = none ∧ x.readSem = none)
  | cleanRead (hpc : x.pc = .cleanRead) (hread : x.readSem = none ∨ x.readOpen = true)
      (hfailed : x.initFailed = true → x.readSem = none)
  | ended (hpc : x.pc = .ended)

structure Inv (s : State P) : Prop where
  kept : s.removedInUse = false
  process : ∀ p, (s.process p).misused = false ∧ Phase (s.process p)

omit [DecidableEq P] [Fintype P] in
theorem good_of_inv (s : State P) (hinv : Inv s) : Good s :=
  ⟨hinv.kept, fun p => (hinv.process p).1⟩

omit [Fintype P] in
/-- One process moves on and takes nothing from the others. -/
theorem Inv.set (s t : State P) (p : P) (x : Process) (hinv : Inv s)
    (ht : t.process = Function.update s.process p x) (hkept : t.removedInUse = false)
    (hmisused : x.misused = false) (hx : Phase x) : Inv t := by
  refine ⟨hkept, fun q => ?_⟩
  rw [ht]
  by_cases hq : q = p
  · subst hq
    rw [Function.update_self]
    exact ⟨hmisused, hx⟩
  · rw [Function.update_of_ne hq]
    exact hinv.process q

-- an `init` that fails before anything is mapped
theorem Phase.fail (x : Process) (hptr : x.shmPtr = .null ∨ x.shmPtr = .mapFailed)
    (hwrite : x.writeSem = none) (hread : x.readSem = none) : Phase x.fail := by
  apply Phase.failed rfl rfl
  · intro o ho
    have ho' : x.shmPtr = .mapped o := ho
    rcases hptr with h | h <;> rw [h] at ho' <;> contradiction
  · intro _
    exact ⟨hwrite, hread⟩

theorem munmap_mapped (x : Process) (o : ℕ) (hptr : x.shmPtr = .mapped o) :
    x.munmap = { x with isMapped := false, misused := x.misused || !x.isMapped } := by
  simp only [Process.munmap, hptr]

/-- What `munmap` leaves alone. -/
theorem munmap_frame (x : Process) : x.munmap.writeSem = x.writeSem ∧ x.munmap.readSem = x.readSem ∧
    x.munmap.writeOpen = x.writeOpen ∧ x.munmap.readOpen = x.readOpen ∧
    x.munmap.initFailed = x.initFailed := by
  cases h : x.shmPtr <;> simp [Process.munmap, h]

theorem munmap_misused (x : Process) (hmisused : x.misused = false)
    (hmapped : ∀ o, x.shmPtr = .mapped o → x.isMapped = true) : x.munmap.misused = false := by
  cases h : x.shmPtr with
  | null | mapFailed => simp [Process.munmap, h, hmisused]
  | mapped o => simp [munmap_mapped x o h, hmisused, hmapped o h]

-- an `init` that fails after it has unmapped again
theorem Phase.fail_unmapped (x : Process) (o : ℕ) (hptr : x.shmPtr = .mapped o) :
    Phase x.munmap.fail := by
  rw [munmap_mapped x o hptr]
  apply Phase.failed rfl rfl
  · intro _ _
    rfl
  · intro h
    have hnot : x.shmPtr = .null ∨ x.shmPtr = .mapFailed := h
    rw [hptr] at hnot
    simp at hnot

omit [Fintype P] in
/-- The steps of `init` keep every process in order. -/
theorem Inv.initNext (s t : State P) (p : P) (ok : Bool) (hinv : Inv s)
    (h : s.initNext p ok = some t) : Inv t := by
  obtain ⟨hmisused,hphase⟩ := hinv.process p
  unfold State.initNext at h
  cases hphase with
  | opening hpc hinit hptr hwrite hread =>
    rcases hpc with hpc | hpc | hpc
    · simp only [hpc] at h
      cases ok with
      | true =>
        simp only [if_true] at h
        cases hname : s.name .shm with
        | none =>
          simp only [hname, Option.some.injEq] at h
          subst h
          exact hinv.set s _ p _ rfl hinv.kept hmisused
            (Phase.opening (Or.inr (Or.inl rfl)) hinit hptr hwrite hread)
        | some o =>
          simp only [hname, Option.some.injEq] at h
          subst h
          exact hinv.set s _ p _ rfl hinv.kept hmisused
            (Phase.opening (Or.inr (Or.inl rfl)) hinit hptr hwrite hread)
      | false =>
        cases h
        exact hinv.set s _ p _ rfl hinv.kept hmisused (Phase.fail _ (Or.inl hptr) hwrite hread)
    · simp only [hpc] at h
      cases ok with
      | true =>
        cases h
        exact hinv.set s _ p _ rfl hinv.kept hmisused
          (Phase.opening (Or.inr (Or.inr rfl)) hinit hptr hwrite hread)
      | false =>
        cases h
        exact hinv.set s _ p _ rfl hinv.kept hmisused (Phase.fail _ (Or.inl hptr) hwrite hread)
    · simp only [hpc] at h
      cases hfd : (s.process p).shmFd with
      | none => simp [hfd] at h
      | some o =>
        simp only [hfd] at h
        cases ok with
        | true =>
          cases h
          exact hinv.set s _ p _ rfl hinv.kept hmisused
            (Phase.openWrite rfl hinit o rfl rfl hwrite hread)
        | false =>
          cases h
          exact hinv.set s _ p _ rfl hinv.kept hmisused (Phase.fail _ (Or.inr rfl) hwrite hread)
  | openWrite hpc hinit o hptr hmapped hwrite hread =>
    simp only [hpc] at h
    split_ifs at h with hok
    · cases h
      exact hinv.set s _ p _ rfl hinv.kept hmisused
        (Phase.openRead rfl hinit o hptr hmapped rfl hread)
    · cases h
      refine hinv.set s _ p _ rfl hinv.kept ?_ (Phase.fail_unmapped _ o hptr)
      simp [Process.fail, munmap_mapped _ o hptr, hmisused, hmapped]
  | openRead hpc hinit o hptr hmapped hwrite hread =>
    simp only [hpc] at h
    split_ifs at h with hok
    · cases h
      exact hinv.set s _ p _ rfl hinv.kept hmisused
        (Phase.complete (Or.inl rfl) hinit hmapped hwrite rfl)
    · cases h
      have hptr' : (s.process p).closeWrite.shmPtr = .mapped o := hptr
      refine hinv.set s _ p _ rfl hinv.kept ?_ (Phase.fail_unmapped _ o hptr')
      exact munmap_misused _ (by simp [Process.closeWrite, hmisused, hwrite]) fun _ _ => hmapped
  | complete hpc => rcases hpc with hpc | hpc <;> simp [hpc] at h
  | failed hpc | cleanWrite hpc | cleanRead hpc | ended hpc => simp [hpc] at h

omit [DecidableEq P] in
/-- An unlink takes nothing from a running process unless its `init` failed and
the object is in use. -/
theorem unlink_kept (s : State P) (p : P) (n : Name) (hkept : s.removedInUse = false) :
    (s.unlink p n).removedInUse = false ↔ ((s.process p).initFailed = true → ¬ s.InUse n) := by
  simp [State.unlink, hkept]

/-- The steps of `cleanup`: they keep every process in order unless a process
whose `init` failed gives back what it no longer has, or what others use. -/
theorem Inv.cleanupNext (s t : State P) (p : P) (ok : Bool) (hinv : Inv s)
    (h : s.cleanupNext p = some t) :
    (StepOk s (.next p ok) ↔ Good t) ∧ (StepOk s (.next p ok) → Inv t) := by
  obtain ⟨hmisused,hphase⟩ := hinv.process p
  have hkeep : (s.process p).pc ≠ .cleanShm → Inv t →
      (StepOk s (.next p ok) ↔ Good t) ∧ (StepOk s (.next p ok) → Inv t) :=
    fun hpc ht => ⟨iff_of_true (fun h => absurd h hpc) (good_of_inv t ht), fun _ => ht⟩
  unfold State.cleanupNext at h
  cases hphase with
  | opening hpc => rcases hpc with hpc | hpc | hpc <;> simp [hpc] at h
  | openWrite hpc | openRead hpc | ended hpc => simp [hpc] at h
  | complete hpc hinit hmapped hwrite hread =>
    rcases hpc with hpc | hpc
    · simp only [hpc, Option.some.injEq] at h
      subst h
      exact hkeep (by rw [hpc]; decide) (hinv.set s _ p _ rfl hinv.kept hmisused
        (Phase.complete (Or.inr rfl) hinit hmapped hwrite hread))
    · have hok : StepOk s (.next p ok) := fun _ hfailed => by
        rw [hinit] at hfailed
        contradiction
      have hnot : (s.process p).initFailed ≠ true := by simp [hinit]
      obtain ⟨-,-,hwrite',hread',hinit'⟩ := munmap_frame (s.process p)
      suffices ht : Inv t from ⟨iff_of_true hok (good_of_inv t ht), fun _ => ht⟩
      simp only [hpc] at h
      split_ifs at h with hnull
      · cases h
        exact hinv.set s _ p _ rfl hinv.kept hmisused
          (Phase.cleanWrite rfl (Or.inr hwrite) (Or.inr hread) fun h => absurd h hnot)
      · cases h
        refine hinv.set s _ p _ rfl
          ((unlink_kept s p .shm hinv.kept).mpr fun h => absurd h hnot)
          (munmap_misused _ hmisused fun _ _ => hmapped) ?_
        exact Phase.cleanWrite rfl (Or.inr (hwrite'.trans hwrite)) (Or.inr (hread'.trans hread))
          fun h => absurd (hinit'.symm.trans h) hnot
  | failed hpc hinit hptr hsems =>
    simp only [hpc] at h
    cases hshm : (s.process p).shmPtr with
    | null =>
      obtain ⟨hwrite,hread⟩ := hsems (Or.inl hshm)
      rw [if_pos hshm, Option.some.injEq] at h
      subst h
      have ht : Inv (s.set p { s.process p with pc := .cleanWrite }) :=
        hinv.set s _ p _ rfl hinv.kept hmisused
          (Phase.cleanWrite rfl (Or.inl hwrite) (Or.inl hread) fun _ => ⟨hwrite, hread⟩)
      exact ⟨iff_of_true (fun _ _ => Or.inl hshm) (good_of_inv _ ht), fun _ => ht⟩
    | mapFailed =>
      obtain ⟨hwrite,hread⟩ := hsems (Or.inr hshm)
      have hmunmap : (s.process p).munmap = s.process p := by simp only [Process.munmap, hshm]
      have hok : StepOk s (.next p ok) ↔ ¬ s.InUse .shm := by
        simp [StepOk, hpc, hinit, hshm]
      rw [if_neg (by simp [hshm]), hmunmap, Option.some.injEq] at h
      subst h
      rw [hok]
      have hkeptiff := unlink_kept s p .shm hinv.kept
      by_cases huse : s.InUse .shm
      · refine ⟨iff_of_false (fun h => h huse) fun hgood => ?_, fun h => absurd huse h⟩
        exact hkeptiff.mp hgood.1 hinit huse
      · have ht : Inv ((s.unlink p .shm).set p { s.process p with pc := .cleanWrite }) :=
          hinv.set s _ p _ rfl (hkeptiff.mpr fun _ => huse) hmisused
            (Phase.cleanWrite rfl (Or.inl hwrite) (Or.inl hread) fun _ => ⟨hwrite, hread⟩)
        exact ⟨iff_of_true huse (good_of_inv _ ht), fun _ => ht⟩
    | mapped o =>
      have hnot : ¬ StepOk s (.next p ok) := by
        simp [StepOk, hpc, hinit, hshm]
      refine ⟨iff_of_false hnot fun hgood => ?_, fun h => absurd h hnot⟩
      rw [if_neg (by simp [hshm]), Option.some.injEq] at h
      subst h
      -- it was unmapped where `init` failed
      have hself := hgood.2 p
      simp [State.set, munmap_mapped _ o hshm, hptr o hshm] at hself
  | cleanWrite hpc hwrite hread hfailed =>
    refine hkeep (by rw [hpc]; decide) ?_
    simp only [hpc] at h
    split_ifs at h with hnone
    · cases h
      exact hinv.set s _ p _ rfl hinv.kept hmisused
        (Phase.cleanRead rfl hread fun h => (hfailed h).2)
    · cases h
      refine hinv.set s _ p _ rfl ((unlink_kept s p .writeSem hinv.kept).mpr fun h =>
        absurd (hfailed h).1 hnone) ?_ (Phase.cleanRead rfl hread fun h => (hfailed h).2)
      simp [Process.closeWrite, hmisused, hwrite.resolve_left hnone]
  | cleanRead hpc hread hfailed =>
    refine hkeep (by rw [hpc]; decide) ?_
    simp only [hpc] at h
    split_ifs at h with hnone
    · cases h
      exact hinv.set s _ p _ rfl hinv.kept hmisused (Phase.ended rfl)
    · cases h
      refine hinv.set s _ p _ rfl ((unlink_kept s p .readSem hinv.kept).mpr fun h =>
        absurd (hfailed h) hnone) ?_ (Phase.ended rfl)
      simp [Process.closeRead, hmisused, hread.resolve_left hnone]

omit [DecidableEq P] [Fintype P] in
theorem init_inv : Inv ({} : State P) :=
  ⟨rfl, fun _ => ⟨rfl, Phase.opening (Or.inl rfl) rfl rfl rfl rfl⟩⟩

theorem Inv.step (s : State P) (e : Event P) (t : State P) (hinv : Inv s) (h : step s e = some t) :
    (StepOk s e ↔ Good t) ∧ (StepOk s e → Inv t) := by
  cases e with
  | next p ok =>
    simp only [ShmReaders.step] at h
    cases hinit : s.initNext p ok with
    | none =>
      rw [hinit, Option.none_or] at h
      exact hinv.cleanupNext s t p ok h
    | some u =>
      rw [hinit, Option.some_or, Option.some.injEq] at h
      subst h
      have ht := hinv.initNext s u p ok hinit
      -- `init` is not at its `cleanup`
      have hok : StepOk s (.next p ok) := by
        intro hpc
        simp [State.initNext, hpc] at hinit
      exact ⟨iff_of_true hok (good_of_inv u ht), fun _ => ht⟩
  | kill p =>
    cases h
    have ht : Inv (s.set p { s.process p with pc := .ended }) :=
      hinv.set s _ p _ rfl hinv.kept (hinv.process p).1 (Phase.ended rfl)
    exact ⟨iff_of_true trivial (good_of_inv _ ht), fun _ => ht⟩

/-- For any number of processes and every run: no state has a running process
robbed by a failed one or a double release exactly when all steps meet `StepOk`. -/
theorem readers_good_iff (events : List (Event P)) (s : State P)
    (hrun : run step {} events = some s) :
    (∀ pre t, pre <+: events → run step {} pre = some t → Good t) ↔ Meets step StepOk {} events :=
  (meets_iff_good_states step StepOk Inv Good good_of_inv Inv.step {} s events init_inv hrun).symm

-- the second process fails at `ftruncate` while the first one runs
theorem readers_good_two : ∃ s : State (Fin 2),
    run step {} [.next 0 true, .next 0 true, .next 0 true, .next 0 true, .next 0 true,
      .next 1 true, .next 1 false, .next 1 true, .next 1 true, .next 1 true] = some s ∧
    (s.process 0).pc = .running ∧ (s.process 1).pc = .ended ∧ s.name .shm = some 0 ∧ Good s := by
  obtain ⟨s,hrun⟩ : ∃ s : State (Fin 2),
      run step {} [.next 0 true, .next 0 true, .next 0 true, .next 0 true, .next 0 true,
        .next 1 true, .next 1 false, .next 1 true, .next 1 true, .next 1 true] = some s := ⟨_, rfl⟩
  have hgood := (readers_good_iff _ s hrun).mpr (by decide +kernel) _ s List.prefix_rfl hrun
  have hs := hrun
  cases hs
  exact ⟨_, hrun, rfl, rfl, rfl, hgood⟩

/-- A second reader is started while the first one runs: the name of the semaphore
is taken, and its `cleanup` unmaps again and unlinks the shared memory in use. -/
theorem second_reader_unlinks : ∃ s : State (Fin 2),
    run step {} [.next 0 true, .next 0 true, .next 0 true, .next 0 true, .next 0 true,
      .next 1 true, .next 1 true, .next 1 true, .next 1 true, .next 1 true] = some s ∧
    (s.process 0).pc = .running ∧ (s.process 0).shmPtr = .mapped 0 ∧ s.name .shm = none ∧
    s.removedInUse = true ∧ (s.process 1).misused = true ∧ ¬ Good s := by
  refine ⟨_, rfl, rfl, rfl, rfl, by decide +kernel, rfl, fun h => ?_⟩
  exact absurd (h.2 1) (by decide +kernel)

end CppOperate.ShmReaders

import CppOperate.ShmHandshake
import Mathlib

/-! How the read loop of loop_posix_read.cpp ends: SIGINT may arrive between any two
steps of `main` and `read_data`, and any number of writers may be at work. -/
namespace CppOperate.ShmLoop
open StepRuns CStrings
open Shm (Segment WritePc semValueMax)

/-- What `read_data` returns at its three `return` statements. -/
inductive Returned
  -- "Exiting read_data due to Ctrl+C"
  | exiting
  -- "sem_wait failed: "
  | waitFailed
  | data (bytes : List UInt8)
deriving DecidableEq, Repr

/-- The string that `main` gets. -/
def Returned.str : Returned → List UInt8
  | .exiting | .waitFailed => []
  | .data bytes => bytes

inductive ReadPc
  -- the test of the loop of `main`
  | loop
  | wait
  -- `sem_wait` has returned 0, `should_exit` is tested next
  | taken
  -- inside the branch that returns the empty string
  | giveUp
  | read
  | post (data : List UInt8)
  | received (r : Returned)
  -- past the loop, by its test or by the `break` on this return of `read_data`
  | left (last : Option Returned)
deriving DecidableEq, Repr

/-- Whether the reader has taken a token and has still to post for it. -/
def ReadPc.inHand : ReadPc → ℕ
  | .taken | .read | .post _ => 1
  | .loop | .wait | .giveUp | .received _ | .left _ => 0

structure State (W : Type*) where
  shm : Segment
  writeSem : ℕ := 0
  readSem : ℕ := 0
  writer : W → WritePc := fun _ => .idle
  reader : ReadPc := .loop
  shouldExit : Bool := false
  -- history: tokens taken from `write_sem`, posts of `read_sem`, whether a `sem_wait`
  -- of the reader failed, what the calls of `write_data` returned
  taken : ℕ := 0
  posted : ℕ := 0
  waitFailed : Bool := false
  results : List (W × ℤ) := []

inductive Event (W : Type*)
  | call (w : W) (data : Option CString)
  | write (w : W)
  -- the writer's `sem_wait` returns -1
  | interruptWrite (w : W)
  | read
  -- the reader's `sem_wait` returns -1
  | interruptRead
  -- `signal_handler`
  | signal
deriving DecidableEq, Repr

variable {W : Type*} [DecidableEq W]

namespace State

def set (s : State W) (w : W) (pc : WritePc) : State W :=
  { s with writer := Function.update s.writer w pc }

/-- `write_data` returns. -/
def finish (s : State W) (w : W) (code : ℤ) : State W :=
  { s.set w .idle with results := s.results ++ [(w, code)] }

def call (s : State W) (w : W) (data : Option CString) : Option (State W) :=
  match s.writer w, data with
  | .idle, some m => some (s.set w (.copy m))
  -- "Invalid arguments"
  | .idle, none => some { s with results := s.results ++ [(w, -1)] }
  | _, _ => none

/-- The steps of `write_data` after its call. -/
def writeNext (s : State W) (w : W) : Option (State W) :=
  match s.writer w with
  | .idle => none
  | .copy m => some { s.set w .post with shm := Segment.store s.shm m }
  | .post =>
    if s.writeSem < semValueMax then some { s.set w .wait with writeSem := s.writeSem+1 }
    else some (s.finish w (-1))
  | .wait =>
    if 0 < s.readSem then some (finish { s with readSem := s.readSem-1 } w 0) else none

/-- The steps of `main` and `read_data`. -/
def readNext (s : State W) : Option (State W) :=
  match s.reader with
  | .loop => some { s with reader := if s.shouldExit then .left none else .wait }
  | .wait =>
    if 0 < s.writeSem then
      some { s with writeSem := s.writeSem-1, taken := s.taken+1, reader := .taken }
    else none
  | .taken => some { s with reader := if s.shouldExit then .giveUp else .read }
  -- `should_exit` is loaded again
  | .giveUp => some { s with reader := .received (if s.shouldExit then .exiting else .waitFailed) }
  | .read => some { s with reader := .post (str s.shm.bytes) }
  | .post data =>
    if s.readSem < semValueMax then
      some { s with readSem := s.readSem+1, posted := s.posted+1, reader := .received (.data data) }
    -- only reported
    else some { s with reader := .received (.data data) }
  | .received r => some { s with reader := if r.str = [] then .left (some r) else .loop }
  | .left _ => none

end State

def step (s : State W) : Event W → Option (State W)
  | .call w data => s.call w data
  | .write w => s.writeNext w
  | .interruptWrite w => if s.writer w = .wait then some (s.finish w (-1)) else none
  | .read => s.readNext
  | .interruptRead =>
    if s.reader = .wait then some { s with reader := .giveUp, waitFailed := true } else none
  | .signal => some { s with shouldExit := true }

/-- The steps of the reader that keep the acknowledgement: no signal has arrived
when `should_exit` is tested after a successful wait, the segment does not hold the
empty string when it is read, and `read_sem` can be posted. -/
def Acknowledges (s : State W) : Event W → Prop
  | .read =>
    match s.reader with
    | .taken => s.shouldExit = false
    | .read => str s.shm.bytes ≠ []
    | .post _ => s.readSem < semValueMax
    | _ => True
  | _ => True

instance (s : State W) (e : Event W) : Decidable (Acknowledges s e) := by
  unfold Acknowledges
  split
  · split <;> infer_instance
  · infer_instance

/-- The loop has ended, if it has, because SIGINT was received or `sem_wait` failed. -/
def EndedBySignal (s : State W) : Prop :=
  ∀ last, s.reader = .left last →
    (last = none ∨ last = some .exiting) ∧ s.shouldExit = true ∨
      last = some .waitFailed ∧ s.waitFailed = true

/-- A reader past its loop has posted for every token that it took. -/
def Acknowledged (s : State W) : Prop := ∀ last, s.reader = .left last → s.posted = s.taken

/-- What concerns the reader is as it was. -/
structure SameReader (s t : State W) : Prop where
  reader : t.reader = s.reader
  shouldExit : t.shouldExit = s.shouldExit
  waitFailed : t.waitFailed = s.waitFailed
  taken : t.taken = s.taken
  posted : t.posted = s.posted

theorem sameReader_call (s t : State W) (w : W) (data : Option CString) (h : s.call w data = some t) :
    SameReader s t := by
  unfold State.call at h
  split at h
  · cases h
    exact ⟨rfl, rfl, rfl, rfl, rfl⟩
  · cases h
    exact ⟨rfl, rfl, rfl, rfl, rfl⟩
  · contradiction

theorem sameReader_write (s t : State W) (w : W) (h : s.writeNext w = some t) : SameReader s t := by
  unfold State.writeNext at h
  split at h
  · contradiction
  · cases h
    exact ⟨rfl, rfl, rfl, rfl, rfl⟩
  · split_ifs at h
    all_goals
      cases h
      exact ⟨rfl, rfl, rfl, rfl, rfl⟩
  · split_ifs at h
    cases h
    exact ⟨rfl, rfl, rfl, rfl, rfl⟩

theorem interruptWrite_cases (s t : State W) (w : W) (h : step s (.interruptWrite w) = some t) :
    t = s.finish w (-1) := by
  simp only [step] at h
  split_ifs at h
  cases h
  rfl

theorem interruptRead_cases (s t : State W) (h : step s .interruptRead = some t) :
    s.reader = .wait ∧ t = { s with reader := .giveUp, waitFailed := true } := by
  simp only [step] at h
  split_ifs at h with hwait
  cases h
  exact ⟨hwait, rfl⟩

section writers
variable [Fintype W]

/-- How many calls of `write_data` wait for their acknowledgement. -/
def waiting (s : State W) : ℕ := ∑ w, (s.writer w).waiting

theorem waiting_set (s : State W) (w : W) (pc : WritePc) :
    waiting (s.set w pc) + (s.writer w).waiting = waiting s + pc.waiting := by
  have hupdate : (fun v => ((s.set w pc).writer v).waiting) =
      Function.update (fun v => (s.writer v).waiting) w pc.waiting :=
    Function.comp_update WritePc.waiting s.writer w pc
  have hnew : waiting (s.set w pc) =
      pc.waiting + ∑ v ∈ Finset.univ.erase w, (s.writer v).waiting := by
    rw [waiting, hupdate, Finset.sum_update_of_mem (Finset.mem_univ w),
      Finset.sdiff_singleton_eq_erase]
  have hold : (s.writer w).waiting + ∑ v ∈ Finset.univ.erase w, (s.writer v).waiting = waiting s :=
    Finset.add_sum_erase Finset.univ (fun v => (s.writer v).waiting) (Finset.mem_univ w)
  omega

/-- What the place of the reader tells, in runs whose steps all keep the
acknowledgement. -/
def Told (s : State W) : Prop :=
  match s.reader with
  | .giveUp => s.waitFailed = true
  | .post data => data ≠ []
  | .received .exiting => s.shouldExit = true
  | .received .waitFailed => s.waitFailed = true
  | .received (.data data) => data ≠ []
  | .left last => (last = none ∨ last = some .exiting) ∧ s.shouldExit = true ∨
      last = some .waitFailed ∧ s.waitFailed = true
  | .loop | .wait | .taken | .read => True

/-- Every token is posted for or in hand, and every waiting call has one on its way. -/
structure Inv (s : State W) : Prop where
  told : Told s
  ledger : s.taken = s.posted + s.reader.inHand
  served : waiting s ≤ s.writeSem + s.reader.inHand + s.readSem

omit [DecidableEq W] in
theorem init_inv (shm : Segment) : Inv ({ shm := shm } : State W) := by
  refine ⟨trivial, rfl, ?_⟩
  simp [waiting, WritePc.waiting]

omit [DecidableEq W] in
/-- A step of a writer: its call may begin to wait with a token posted for it, and
stop waiting with one taken. -/
theorem Inv.of_write (s t : State W) (hinv : Inv s) (hsame : SameReader s t)
    (hserved : waiting t + (s.writeSem + s.readSem) ≤ waiting s + (t.writeSem + t.readSem)) :
    Inv t := by
  have hbefore := hinv.served
  refine ⟨?_, ?_, ?_⟩
  · have htold := hinv.told
    unfold Told at htold ⊢
    rwa [hsame.reader, hsame.shouldExit, hsame.waitFailed]
  · rw [hsame.taken, hsame.posted, hsame.reader]
    exact hinv.ledger
  · rw [hsame.reader]
    omega

theorem Inv.call (s t : State W) (w : W) (data : Option CString) (hinv : Inv s)
    (h : s.call w data = some t) : Inv t := by
  apply hinv.of_write s t (sameReader_call s t w data h)
  unfold State.call at h
  split at h
  · rename_i m hidle
    cases h
    have hwaiting := waiting_set s w (.copy m)
    rw [hidle] at hwaiting
    exact Nat.add_le_add_right hwaiting.le _
  · cases h
    exact le_rfl
  · contradiction

theorem waiting_finish (s : State W) (w : W) (code : ℤ) :
    waiting (s.finish w code) + (s.writer w).waiting = waiting s := waiting_set s w .idle

theorem Inv.finish (s : State W) (w : W) (code : ℤ) (hinv : Inv s) : Inv (s.finish w code) := by
  have hwaiting := waiting_finish s w code
  refine hinv.of_write s _ ⟨rfl, rfl, rfl, rfl, rfl⟩ ?_
  exact Nat.add_le_add_right (by omega) _

theorem Inv.writeNext (s t : State W) (w : W) (hinv : Inv s) (h : s.writeNext w = some t) :
    Inv t := by
  have hsame := sameReader_write s t w h
  unfold State.writeNext at h
  cases hpc : s.writer w with
  | idle =>
    simp only [hpc] at h
    contradiction
  | copy m =>
    simp only [hpc, Option.some.injEq] at h
    subst h
    have hwaiting := waiting_set s w .post
    rw [hpc] at hwaiting
    exact hinv.of_write s _ hsame (Nat.add_le_add_right hwaiting.le _)
  | post =>
    simp only [hpc] at h
    split_ifs at h with hroom
    · cases h
      have hwaiting := waiting_set s w .wait
      rw [hpc, WritePc.waiting, WritePc.waiting] at hwaiting
      apply hinv.of_write s _ hsame
      change waiting (s.set w .wait) + (s.writeSem + s.readSem) ≤
        waiting s + (s.writeSem + 1 + s.readSem)
      omega
    · cases h
      exact hinv.finish s w (-1)
  | wait =>
    simp only [hpc] at h
    split_ifs at h with hack
    cases h
    have hwaiting := waiting_finish s w 0
    rw [hpc, WritePc.waiting] at hwaiting
    apply hinv.of_write s _ hsame
    change waiting (s.finish w 0) + (s.writeSem + s.readSem) ≤
      waiting s + (s.writeSem + (s.readSem-1))
    omega

omit [DecidableEq W] in
/-- A step of the reader: the token moves from `write_sem` to its hand and on to
`read_sem`. -/
theorem Inv.of_read (s t : State W) (hinv : Inv s) (hwriter : t.writer = s.writer) (htold : Told t)
    (hledger : t.taken + s.posted + s.reader.inHand = s.taken + t.posted + t.reader.inHand)
    (hserved : s.writeSem + s.reader.inHand + s.readSem ≤
      t.writeSem + t.reader.inHand + t.readSem) : Inv t := by
  have hbefore := hinv.served
  have hsame : waiting t = waiting s := by
    unfold waiting
    rw [hwriter]
  refine ⟨htold, ?_, ?_⟩
  · have hledger' := hinv.ledger
    omega
  · omega

omit [DecidableEq W] in
theorem Inv.goto (s : State W) (pc : ReadPc) (hinv : Inv s) (hhand : pc.inHand = s.reader.inHand)
    (htold : Told { s with reader := pc }) : Inv { s with reader := pc } := by
  refine hinv.of_read s _ rfl htold ?_ ?_
  · rw [hhand]
  · rw [hhand]

omit [DecidableEq W] in
theorem Inv.readNext (s t : State W) (hinv : Inv s) (hok : Acknowledges s .read)
    (h : s.readNext = some t) : Inv t := by
  have htold := hinv.told
  unfold State.readNext at h
  unfold Acknowledges at hok
  cases hpc : s.reader with
  | loop =>
    simp only [hpc, Option.some.injEq] at h
    subst h
    by_cases hexit : s.shouldExit = true
    · rw [if_pos hexit]
      exact hinv.goto s _ (by rw [hpc]; rfl) (Or.inl ⟨Or.inl rfl, hexit⟩)
    · rw [if_neg hexit]
      exact hinv.goto s _ (by rw [hpc]; rfl) trivial
  | wait =>
    simp only [hpc] at h
    split_ifs at h with hposted
    cases h
    refine hinv.of_read s _ rfl trivial ?_ ?_
    · simp only [hpc, ReadPc.inHand]
      omega
    · simp only [hpc, ReadPc.inHand]
      omega
  | taken =>
    simp only [hpc, Option.some.injEq] at h
    simp only [hpc] at hok
    subst h
    rw [if_neg (by simp [hok])]
    exact hinv.goto s _ (by rw [hpc]; rfl) trivial
  | giveUp =>
    simp only [hpc, Option.some.injEq] at h
    simp only [Told, hpc] at htold
    subst h
    by_cases hexit : s.shouldExit = true
    · rw [if_pos hexit]
      exact hinv.goto s _ (by rw [hpc]; rfl) hexit
    · rw [if_neg hexit]
      exact hinv.goto s _ (by rw [hpc]; rfl) htold
  | read =>
    simp only [hpc, Option.some.injEq] at h
    simp only [hpc] at hok
    subst h
    exact hinv.goto s _ (by rw [hpc]; rfl) hok
  | post data =>
    simp only [hpc] at h hok
    simp only [Told, hpc] at htold
    rw [if_pos hok, Option.some.injEq] at h
    subst h
    refine hinv.of_read s _ rfl htold ?_ ?_
    · simp only [hpc, ReadPc.inHand]
      omega
    · simp only [hpc, ReadPc.inHand]
      omega
  | received r =>
    simp only [hpc, Option.some.injEq] at h
    subst h
    cases r with
    | exiting =>
      simp only [Told, hpc] at htold
      exact hinv.goto s (.left (some .exiting)) (by rw [hpc]; rfl) (Or.inl ⟨Or.inr rfl, htold⟩)
    | waitFailed =>
      simp only [Told, hpc] at htold
      exact hinv.goto s (.left (some .waitFailed)) (by rw [hpc]; rfl) (Or.inr ⟨rfl, htold⟩)
    | data data =>
      simp only [Told, hpc] at htold
      rw [Returned.str, if_neg htold]
      exact hinv.goto s _ (by rw [hpc]; rfl) trivial
  | left last =>
    simp only [hpc] at h
    contradiction

theorem Inv.step (s : State W) (e : Event W) (t : State W) (hinv : Inv s) (hok : Acknowledges s e)
    (h : step s e = some t) : Inv t := by
  cases e with
  | call w data => exact hinv.call s t w data h
  | write w => exact hinv.writeNext s t w h
  | interruptWrite w =>
    rw [interruptWrite_cases s t w h]
    exact hinv.finish s w (-1)
  | read => exact hinv.readNext s t hok h
  | interruptRead =>
    obtain ⟨hwait,rfl⟩ := interruptRead_cases s t h
    exact hinv.of_read s _ rfl rfl (by rw [hwait]; rfl) (by rw [hwait]; exact le_rfl)
  | signal =>
    cases h
    have htold := hinv.told
    refine hinv.of_read s _ rfl ?_ rfl le_rfl
    -- a later signal takes nothing back
    unfold Told at htold ⊢
    cases hpc : s.reader with
    | received r =>
      rw [hpc] at htold
      cases r with
      | exiting => rfl
      | waitFailed => exact htold
      | data data => exact htold
    | left last =>
      rw [hpc] at htold
      exact htold.imp_left fun h => ⟨h.1, rfl⟩
    | giveUp => rw [hpc] at htold; exact htold
    | post data => rw [hpc] at htold; exact htold
    | loop => trivial
    | wait => trivial
    | taken => trivial
    | read => trivial

/-- In every run whose steps all keep the acknowledgement the loop of the reader
ends by SIGINT or a failed wait, with a post for every token taken, and then as
many acknowledgements are on `read_sem` as calls wait whose token was taken. -/
theorem read_loop_acknowledges (shm : Segment) (events : List (Event W)) (s : State W)
    (hok : Meets step Acknowledges { shm := shm } events)
    (hrun : run step { shm := shm } events = some s) :
    EndedBySignal s ∧ Acknowledged s ∧ s.taken = s.posted + s.reader.inHand ∧
      ∀ last, s.reader = .left last → waiting s ≤ s.writeSem + s.readSem := by
  have hinv : Inv s := run_invariant_of_meets step Acknowledges Inv Inv.step _ s events
    (init_inv shm) hok hrun
  have hledger := hinv.ledger
  have hserved := hinv.served
  refine ⟨?_, ?_, hledger, ?_⟩
  · intro last hlast
    have htold := hinv.told
    rwa [Told, hlast] at htold
  · intro last hlast
    rw [hlast] at hledger
    exact hledger.symm
  · intro last hlast
    rwa [hlast] at hserved

end writers

-- a message is read and posted for, then a signal ends the second wait
theorem read_loop_acknowledges_once : ∃ s : State Unit,
    run step { shm := Segment.cleared }
      [.read, .call () (some ⟨[97], by decide⟩), .write (), .write (), .read, .read, .read, .read,
        .read, .read, .write (), .signal, .interruptRead, .read, .read] = some s ∧
    s.reader = .left (some .exiting) ∧ s.taken = 1 ∧ Acknowledged s := by
  obtain ⟨s,hrun⟩ : ∃ s : State Unit, run step { shm := Segment.cleared }
      [.read, .call () (some ⟨[97], by decide⟩), .write (), .write (), .read, .read, .read, .read,
        .read, .read, .write (), .signal, .interruptRead, .read, .read] = some s := ⟨_, rfl⟩
  have hacknowledges := read_loop_acknowledges Segment.cleared _ s (by decide +kernel) hrun
  have hend : s.reader = .left (some .exiting) ∧ s.taken = 1 := by
    cases hrun
    exact ⟨rfl, rfl⟩
  exact ⟨s, hrun, hend.1, hend.2, hacknowledges.2.1⟩

/-- An empty message ends the loop, and a signal between the wait and the test
leaves the writer of the token without its acknowledgement. -/
theorem empty_message_and_signal :
    (∃ s : State Unit, run step { shm := Segment.cleared }
        [.read, .call () (some ⟨[], by decide⟩), .write (), .write (), .read, .read, .read, .read,
          .read] = some s ∧
      s.reader = .left (some (.data [])) ∧ s.shouldExit = false ∧ s.waitFailed = false ∧
      ¬ EndedBySignal s) ∧
    ∃ s : State Unit, run step { shm := Segment.cleared }
        [.read, .call () (some ⟨[97], by decide⟩), .write (), .write (), .read, .signal, .read,
          .read, .read] = some s ∧
      s.reader = .left (some .exiting) ∧ s.writer () = .wait ∧ s.readSem = 0 ∧ ¬ Acknowledged s := by
  refine ⟨⟨_, rfl, rfl, rfl, rfl, ?_⟩, ⟨_, rfl, rfl, rfl, rfl, ?_⟩⟩
  · intro hended
    have hcause := hended (some (.data [])) rfl
    revert hcause
    decide
  · intro hposted
    have hlast := hposted (some .exiting) rfl
    revert hlast
    decide

omit [DecidableEq W] in
/-- With or without the condition the reader posts only for a token in its hand. -/
theorem read_posted_le (s t : State W) (hle : s.posted + s.reader.inHand ≤ s.taken)
    (h : s.readNext = some t) : t.posted + t.reader.inHand ≤ t.taken := by
  -- a move of the reader that leaves the counts alone
  have hgoto (pc : ReadPc) (hhand : pc.inHand ≤ s.reader.inHand) : s.posted + pc.inHand ≤ s.taken :=
    (Nat.add_le_add_left hhand _).trans hle
  unfold State.readNext at h
  cases hpc : s.reader with
  | loop =>
    simp only [hpc, Option.some.injEq] at h
    subst h
    apply hgoto
    split_ifs <;> exact Nat.zero_le _
  | wait =>
    simp only [hpc] at h
    rw [hpc] at hle
    split_ifs at h
    cases h
    exact Nat.succ_le_succ hle
  | taken =>
    simp only [hpc, Option.some.injEq] at h
    subst h
    apply hgoto
    rw [hpc]
    split_ifs
    · exact Nat.zero_le _
    · exact le_rfl
  | giveUp =>
    simp only [hpc, Option.some.injEq] at h
    subst h
    exact hgoto _ (Nat.zero_le _)
  | read =>
    simp only [hpc, Option.some.injEq] at h
    subst h
    exact hgoto _ (by rw [hpc]; exact le_rfl)
  | post data =>
    simp only [hpc] at h
    split_ifs at h
    · cases h
      rw [hpc] at hle
      exact hle
    · cases h
      exact hgoto _ (Nat.zero_le _)
  | received r =>
    simp only [hpc, Option.some.injEq] at h
    subst h
    apply hgoto
    split_ifs <;> exact Nat.zero_le _
  | left last =>
    simp only [hpc] at h
    contradiction

theorem step_posted_le (s : State W) (e : Event W) (t : State W)
    (hle : s.posted + s.reader.inHand ≤ s.taken) (h : step s e = some t) :
    t.posted + t.reader.inHand ≤ t.taken := by
  have hsame (hs : SameReader s t) : t.posted + t.reader.inHand ≤ t.taken := by
    rwa [hs.posted, hs.reader, hs.taken]
  cases e with
  | call w data => exact hsame (sameReader_call s t w data h)
  | write w => exact hsame (sameReader_write s t w h)
  | interruptWrite w =>
    rw [interruptWrite_cases s t w h]
    exact hle
  | read => exact read_posted_le s t hle h
  | interruptRead =>
    obtain ⟨-,rfl⟩ := interruptRead_cases s t h
    exact Nat.le_of_add_right_le hle
  | signal =>
    cases h
    exact hle

/-- The condition is needed at every step: after a step of the reader that breaks it
the loop can end without a signal or a failed wait, or with a token taken and not
posted for. -/
theorem unacknowledged_breaks (shm : Segment) (events : List (Event W)) (s : State W)
    (hrun : run step { shm := shm } events = some s) (hbroken : ¬ Acknowledges s .read) :
    ∃ rest t, run step s rest = some t ∧ ¬ (EndedBySignal t ∧ Acknowledged t) := by
  have hle : s.posted + s.reader.inHand ≤ s.taken :=
    run_invariant step (fun s : State W => s.posted + s.reader.inHand ≤ s.taken) step_posted_le
      { shm := shm } s events (Nat.zero_le _) hrun
  unfold Acknowledges at hbroken
  cases hpc : s.reader with
  | taken =>
    simp only [hpc, Bool.not_eq_false] at hbroken
    rw [hpc] at hle
    refine ⟨[.read, .read, .read], { s with reader := .left (some .exiting) }, ?_, ?_⟩
    · simp [run, step, State.readNext, hpc, hbroken, Returned.str]
    · rintro ⟨-,hposted⟩
      exact absurd (hposted _ rfl) (Nat.ne_of_lt hle)
  | read =>
    simp only [hpc, not_not] at hbroken
    -- whether `read_sem` could be posted or not
    obtain ⟨u,hu,hreader⟩ : ∃ u : State W,
        step { s with reader := .post [] } .read = some u ∧ u.reader = .received (.data []) := by
      simp only [step, State.readNext]
      split_ifs
      all_goals exact ⟨_, rfl, rfl⟩
    refine ⟨[.read, .read, .read], { u with reader := .left (some (.data [])) }, ?_, ?_⟩
    · have hfirst : step s .read = some { s with reader := .post [] } := by
        simp only [step, State.readNext, hpc, hbroken]
      have hlast : step u .read = some { u with reader := .left (some (.data [])) } := by
        simp [step, State.readNext, hreader, Returned.str]
      exact (run_cons_iff step _ _ _ _).mpr ⟨_, hfirst, (run_cons_iff step _ _ _ _).mpr
        ⟨u, hu, (run_cons_iff step _ _ _ _).mpr ⟨_, hlast, rfl⟩⟩⟩
    · rintro ⟨hended,-⟩
      simpa using hended _ rfl
  | post data =>
    simp only [hpc] at hbroken
    rw [hpc] at hle
    by_cases hempty : data = []
    · refine ⟨[.read, .read], { s with reader := .left (some (.data data)) }, ?_, ?_⟩
      · simp [run, step, State.readNext, hpc, hbroken, Returned.str, hempty]
      · rintro ⟨-,hposted⟩
        exact absurd (hposted _ rfl) (Nat.ne_of_lt hle)
    · -- the token stays unanswered, a signal ends the loop
      refine ⟨[.read, .read, .signal, .read], { s with reader := .left none, shouldExit := true },
        ?_, ?_⟩
      · simp [run, step, State.readNext, hpc, hbroken, Returned.str, hempty]
      · rintro ⟨-,hposted⟩
        exact absurd (hposted _ rfl) (Nat.ne_of_lt hle)
  | loop => simp [hpc] at hbroken
  | wait => simp [hpc] at hbroken
  | giveUp => simp [hpc] at hbroken
  | received r => simp [hpc] at hbroken
  | left last => simp [hpc] at hbroken

end CppOperate.ShmLoop

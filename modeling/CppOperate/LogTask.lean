import CppOperate.LogFifo
import CppOperate.StepRuns
import Mathlib

/-! Log calls of several threads and the log task that prints what they wrote:
`salof` formats into one buffer that all threads share without a lock,
`salof_fifo_write` copies out of it under the queue's mutex, `salof_fifo_read` runs
without the mutex, and a semaphore wakes the task. Any interleaving of the steps. -/
namespace CppOperate.Log
open ByteMemory StepRuns

/-- `SALOF_BUFF_SIZE`: the length of `_salof_format_buff` and of `_out_buff`. -/
def salofBuffSize : ℕ := 512

/-- The length `salof` hands to `salof_fifo_write`. -/
abbrev Len := Fin (salofBuffSize+1)

/-- From the number of characters of the text, which the format buffer may have cut. -/
def salofLen (n : ℕ) : Len :=
  if h : n ≤ salofBuffSize then ⟨n, by omega⟩ else ⟨salofBuffSize-1, by decide⟩

/-- Where a thread is in `salof`. -/
inductive WritePc
  | idle
  -- in `salof_format_nstr`, with `n` characters put so far
  | format (n : ℕ)
  -- from here on in `salof_fifo_write`
  | lock (len : Len)
  | measure (len : Len)
  -- the second evaluation of the room in `FIFO_MIN`
  | remeasure
  -- the copies of `n` bytes, `k` of them done
  | copy (n : UInt32) (k : ℕ)
  | unlock
  | post

/-- Where the task is in `salof_handler`. -/
inductive TaskPc
  | wait
  | measure
  -- the second evaluation of `in - out` in `FIFO_MIN`
  | remeasure
  | first (n : UInt32)
  | second (n : UInt32)
  | advance (n : UInt32)
  | print (n : UInt32)

/-- A finished write: who wrote, and the bytes its copies put into the queue. -/
structure Written (W : Type*) where
  writer : W
  bytes : List UInt8

/-- The shared buffers, the threads, and what was written, read and printed so far. -/
structure State (W : Type*) where
  fifo : Fifo
  owner : Option W
  sem : ℕ
  -- `_salof_format_buff`
  formatBuff : List UInt8
  writer : W → WritePc
  task : TaskPc
  outBuff : List UInt8
  -- history: what the call with the mutex has copied behind the queue so far
  pending : List UInt8
  written : List (Written W)
  taken : List UInt8
  printed : List UInt8
  /-- an access left its memory -/
  fault : Bool
  /-- `fputs` ran past the end of `_out_buff` -/
  overread : Bool

inductive Event (W : Type*)
  | call (w : W)
  -- one character of the text, and the end of the text
  | put (w : W) (b : UInt8)
  | formatted (w : W)
  -- a step in `salof_fifo_write`
  | writer (w : W)
  | task

namespace State
variable {W : Type*} [DecidableEq W]

def goto (s : State W) (w : W) (pc : WritePc) : State W :=
  { s with writer := Function.update s.writer w pc }

def call (s : State W) (w : W) : Option (State W) :=
  match s.writer w with
  | .idle => some (s.goto w (.format 0))
  | _ => none

/-- `_buff_put_char`, with the place of the `NUL` left free. A text has fewer than
`2^31` characters. -/
def put (s : State W) (w : W) (b : UInt8) : Option (State W) :=
  match s.writer w with
  | .format n =>
    if n+1 < 2^31 then
      some ({ s with formatBuff :=
        if n < salofBuffSize-1 then s.formatBuff.set n b else s.formatBuff }.goto w (.format (n+1)))
    else none
  | _ => none

/-- The text is ended by a `NUL`; for an empty one `salof_fifo_write` returns at once. -/
def formatted (s : State W) (w : W) : Option (State W) :=
  match s.writer w with
  | .format n =>
    some ({ s with formatBuff := s.formatBuff.set (min n (salofBuffSize-2)) 0 }.goto w
      (if n = 0 then .idle else .lock (salofLen n)))
  | _ => none

/-- The next step of a thread in `salof_fifo_write`. The copies read a buffer that
other threads may be formatting into, so they go byte by byte. -/
def writeNext (s : State W) (w : W) : Option (State W) :=
  match s.writer w with
  | .idle | .format _ => none
  | .lock len =>
    if s.owner = none then some ({ s with owner := some w }.goto w (.measure len)) else none
  | .measure len =>
    some (s.goto w (if UInt32.ofNat len < s.fifo.free then .copy (UInt32.ofNat len) 0 else .remeasure))
  | .remeasure => some (s.goto w (.copy s.fifo.free 0))
  | .copy n k =>
    if k < n.toNat then
      match s.fifo.copyIn (s.fifo.copyCell n k) s.formatBuff k 1 with
      | none => some { s with fault := true }
      | some f => some ({ s with
          fifo := f
          pending := s.pending ++ (s.formatBuff.drop k).take 1 }.goto w (.copy n (k+1)))
    else some ({ s with
      fifo := { s.fifo with inPos := s.fifo.inPos+n }
      pending := []
      written := s.written ++ [Written.mk w s.pending] }.goto w .unlock)
  | .unlock => some ({ s with owner := none }.goto w .post)
  | .post => some ({ s with sem := if s.sem < semValueMax then s.sem+1 else s.sem }.goto w .idle)

/-- The next step of the task in `salof_handler`. -/
def taskNext (s : State W) : Option (State W) :=
  match s.task with
  | .wait => if 0 < s.sem then some { s with sem := s.sem-1, task := .measure } else none
  | .measure => some { s with
      task := if UInt32.ofNat salofBuffSize < s.fifo.inPos-s.fifo.outPos
        then .first (UInt32.ofNat salofBuffSize) else .remeasure }
  | .remeasure => some { s with task := .first (s.fifo.inPos-s.fifo.outPos) }
  | .first n =>
    match memcpy s.outBuff 0 s.fifo.buff (s.fifo.cellOf s.fifo.outPos)
        (Fifo.intToSize (Fifo.fifoMin n (s.fifo.untilEnd s.fifo.outPos))) with
    | none => some { s with fault := true }
    | some b => some { s with outBuff := b, task := .second n }
  | .second n =>
    match memcpy s.outBuff (Fifo.fifoMin n (s.fifo.untilEnd s.fifo.outPos)).toNat s.fifo.buff 0
        (n-Fifo.fifoMin n (s.fifo.untilEnd s.fifo.outPos)).toNat with
    | none => some { s with fault := true }
    | some b => some { s with outBuff := b, task := .advance n }
  | .advance n => some { s with
      fifo := { s.fifo with outPos := s.fifo.outPos+n }
      taken := s.taken ++ s.outBuff.take n.toNat
      task := if 0 < n.toNat then .print n else .wait }
  | .print n => some { s with
      printed := s.printed ++ s.outBuff.takeWhile (· ≠ 0)
      overread := s.overread || !s.outBuff.contains 0
      outBuff := List.replicate n.toNat 0 ++ s.outBuff.drop n.toNat
      task := .wait }

/-- One step of the log. -/
def step (s : State W) : Event W → Option (State W)
  | .call w => s.call w
  | .put w b => s.put w b
  | .formatted w => s.formatted w
  | .writer w => s.writeNext w
  | .task => s.taskNext

/-- The static buffers start zeroed. -/
def clearBuff : List UInt8 := List.replicate salofBuffSize 0

/-- After `salof_init`: an empty queue, and nobody logs. -/
def init (f : Fifo) : State W where
  fifo := f
  owner := none
  sem := 0
  formatBuff := clearBuff
  writer := fun _ => .idle
  task := .wait
  outBuff := clearBuff
  pending := []
  written := []
  taken := []
  printed := []
  fault := false
  overread := false

/-- The bytes the calls have put into the queue, in the order of their `in += len`. -/
def accepted (s : State W) : List UInt8 := s.written.flatMap Written.bytes

end State

open State (clearBuff)

def WritePc.rereads : WritePc → Bool
  | .remeasure => true
  | _ => false

def TaskPc.rereads : TaskPc → Bool
  | .remeasure => true
  | _ => false

/-- `FIFO_MIN` evaluates its second argument twice, and the other side may have
moved its counter in between. The second value is still one the buffers hold. -/
def MeasureOk {W : Type*} (s : State W) : Event W → Prop
  | .writer w => (s.writer w).rereads = true → s.fifo.free.toNat ≤ salofBuffSize
  | .task => s.task.rereads = true → (s.fifo.inPos-s.fifo.outPos).toNat ≤ salofBuffSize
  | .call _ | .put .. | .formatted _ => True

instance decidableMeasureOk {W : Type*} (s : State W) : ∀ e, Decidable (MeasureOk s e)
  | .writer w =>
    inferInstanceAs (Decidable ((s.writer w).rereads = true → s.fifo.free.toNat ≤ salofBuffSize))
  | .task =>
    inferInstanceAs (Decidable (s.task.rereads = true →
      (s.fifo.inPos-s.fifo.outPos).toNat ≤ salofBuffSize))
  | .call _ | .put .. | .formatted _ => isTrue trivial

/-- The thread holds the mutex. -/
def WritePc.inside : WritePc → Prop
  | .measure _ | .remeasure | .copy .. | .unlock => True
  | .idle | .format _ | .lock _ | .post => False

/-- Between its lock and its unlock a thread has copied `pending`; the measured
length fits the room and the format buffer. -/
def WritePc.Fits (room : ℕ) (pending : List UInt8) : WritePc → Prop
  | .copy n k => pending.length = k ∧ k ≤ n.toNat ∧ n.toNat ≤ room ∧ n.toNat ≤ salofBuffSize
  | .measure _ | .remeasure | .unlock => pending = []
  | .idle | .format _ | .lock _ | .post => True

/-- The thread has moved `in` and not yet posted. -/
def WritePc.posting : WritePc → ℕ
  | .unlock | .post => 1
  | _ => 0

/-- What the place of the task says of its measured length and its buffer. -/
def TaskPc.Ready (f : Fifo) (q taken outBuff : List UInt8) : TaskPc → Prop
  | .wait | .measure | .remeasure => outBuff = clearBuff
  | .first n => n.toNat ≤ q.length ∧ n.toNat ≤ salofBuffSize ∧ outBuff = clearBuff
  | .second n => n.toNat ≤ q.length ∧ n.toNat ≤ salofBuffSize ∧
      outBuff = q.take (Fifo.fifoMin n (f.untilEnd f.outPos)).toNat ++
        clearBuff.drop (Fifo.fifoMin n (f.untilEnd f.outPos)).toNat
  | .advance n => n.toNat ≤ q.length ∧ n.toNat ≤ salofBuffSize ∧
      outBuff = q.take n.toNat ++ clearBuff.drop n.toNat
  | .print n => ∃ before chunk, taken = before ++ chunk ∧ chunk.length = n.toNat ∧
      n.toNat ≤ salofBuffSize ∧ outBuff = chunk ++ clearBuff.drop n.toNat

/-- The bytes the task is about to take. -/
def TaskPc.claimed : TaskPc → ℕ
  | .measure | .remeasure => salofBuffSize
  | .first n | .second n | .advance n => n.toNat
  | .wait | .print _ => 0

variable {W : Type*}

/-- A sum over all threads after one of them has moved. -/
theorem sum_update_add [Fintype W] [DecidableEq W] {A : Type*} (g : W → A) (f : A → ℕ) (w : W)
    (x : A) : ∑ v, f (Function.update g w x v) + f (g w) = ∑ v, f (g v) + f x := by
  have hupdate : (fun v => f (Function.update g w x v)) = Function.update (fun v => f (g v)) w (f x) :=
    Function.comp_update f g w x
  have hold : f (g w) + ∑ v ∈ Finset.univ.erase w, f (g v) = ∑ v, f (g v) :=
    Finset.add_sum_erase Finset.univ (fun v => f (g v)) (Finset.mem_univ w)
  rw [hupdate, Finset.sum_update_of_mem (Finset.mem_univ w), Finset.sdiff_singleton_eq_erase]
  omega

section invariant
variable [DecidableEq W] [Fintype W]

/-- How many threads have written and not posted yet. -/
def posting (writer : W → WritePc) : ℕ := ∑ w, (writer w).posting

theorem posting_update (writer : W → WritePc) (w : W) (pc : WritePc) :
    posting (Function.update writer w pc)+(writer w).posting = posting writer+pc.posting :=
  sum_update_add writer WritePc.posting w pc

/-- The queue holds `q`: what was accepted and not taken. -/
structure Inv (s : State W) (q : List UInt8) : Prop where
  fault : s.fault = false
  format : s.formatBuff.length = salofBuffSize
  owner : ∀ w, (s.writer w).inside ↔ s.owner = some w
  stores : s.fifo.Stores q s.pending
  fits : ∀ w, (s.writer w).Fits (s.fifo.size.toNat-q.length) s.pending
  free : s.owner = none → s.pending = []
  ledger : s.accepted = s.taken ++ q
  ready : s.task.Ready s.fifo q s.taken s.outBuff
  /-- every 512 bytes of the queue have a post on the way -/
  woken : q.length ≤ s.task.claimed+salofBuffSize*(s.sem+posting s.writer)

omit [DecidableEq W] in
theorem init_inv (f : Fifo) (h : f.Stores [] []) : Inv (State.init f : State W) [] := by
  refine ⟨rfl, List.length_replicate, ?_, h, fun _ => trivial, fun _ => rfl, rfl, rfl,
    Nat.zero_le _⟩
  intro w
  simp [State.init, WritePc.inside]

omit [DecidableEq W] [Fintype W] in
/-- What the task has measured stays true when bytes are added behind the queue. -/
theorem TaskPc.Ready.extend {pc : TaskPc} {f g : Fifo} {q taken outBuff : List UInt8}
    (h : pc.Ready f q taken outBuff) (more : List UInt8) (hsize : g.size = f.size)
    (hout : g.outPos = f.outPos) : pc.Ready g (q ++ more) taken outBuff := by
  have huntil : g.untilEnd g.outPos = f.untilEnd f.outPos := by
    rw [Fifo.untilEnd, Fifo.untilEnd, hsize, hout]
  have hmin (n : UInt32) : (Fifo.fifoMin n (f.untilEnd f.outPos)).toNat ≤ n.toNat := by
    rw [Fifo.fifoMin_toNat]
    exact min_le_left _ _
  cases pc with
  | wait | measure | remeasure | print => exact h
  | first n =>
    obtain ⟨hn,hrest⟩ := h
    exact ⟨by rw [List.length_append]; omega, hrest⟩
  | second n =>
    obtain ⟨hn,hbuff,hcopy⟩ := h
    refine ⟨by rw [List.length_append]; omega, hbuff, ?_⟩
    rw [huntil, List.take_append_of_le_length ((hmin n).trans hn)]
    exact hcopy
  | advance n =>
    obtain ⟨hn,hbuff,hcopy⟩ := h
    refine ⟨by rw [List.length_append]; omega, hbuff, ?_⟩
    rw [List.take_append_of_le_length hn]
    exact hcopy

omit [DecidableEq W] [Fintype W] in
theorem WritePc.fits_of_not_inside {pc : WritePc} (h : ¬ pc.inside) (room : ℕ)
    (pending : List UInt8) : pc.Fits room pending := by
  cases pc <;> first | trivial | exact absurd trivial h

/-- A step of thread `w` that puts `more` into the queue: what the thread does to
the mutex, the buffers and the posts decides. -/
theorem Inv.of_writer {s t : State W} {q : List UInt8} (h : Inv s q) (w : W) (pc : WritePc)
    (more : List UInt8) (hwriter : t.writer = Function.update s.writer w pc)
    (htask : t.task = s.task ∧ t.outBuff = s.outBuff ∧ t.taken = s.taken ∧ t.fault = s.fault)
    (hformat : t.formatBuff.length = salofBuffSize)
    (hfifo : t.fifo.size = s.fifo.size ∧ t.fifo.outPos = s.fifo.outPos)
    (haccepted : t.accepted = s.accepted ++ more)
    (hmine : pc.inside ↔ t.owner = some w)
    (hothers : ∀ v, v ≠ w → (t.owner = some v ↔ s.owner = some v))
    (hmore : (more = [] ∧ t.pending = s.pending) ∨ s.owner = some w)
    (hfree : t.owner = none → t.pending = [])
    (hstores : t.fifo.Stores (q ++ more) t.pending)
    (hfits : pc.Fits (s.fifo.size.toNat-(q ++ more).length) t.pending)
    (hwoken : more.length+salofBuffSize*(s.sem+posting s.writer) ≤ salofBuffSize*(t.sem+posting t.writer) ∨
      (q ++ more).length ≤ salofBuffSize*t.sem) : Inv t (q ++ more) := by
  obtain ⟨htaskpc,houtBuff,htaken,hfault⟩ := htask
  refine ⟨hfault.trans h.fault, hformat, ?_, hstores, ?_, hfree, ?_, ?_, ?_⟩
  · intro v
    rw [hwriter]
    by_cases hv : v = w
    · subst hv
      rw [Function.update_self]
      exact hmine
    · rw [Function.update_of_ne hv, hothers v hv]
      exact h.owner v
  · intro v
    rw [hwriter, hfifo.1]
    by_cases hv : v = w
    · subst hv
      rw [Function.update_self]
      exact hfits
    · rw [Function.update_of_ne hv]
      rcases hmore with ⟨rfl,hpending⟩ | hown
      · rw [List.append_nil, hpending]
        exact h.fits v
      · -- bytes are only copied by the thread with the mutex
        apply WritePc.fits_of_not_inside
        intro hin
        have hv' := (h.owner v).mp hin
        rw [hown, Option.some.injEq] at hv'
        exact hv hv'.symm
  · rw [haccepted, h.ledger, htaken, List.append_assoc]
  · rw [htaskpc, houtBuff, htaken]
    exact h.ready.extend more hfifo.1 hfifo.2
  · have hbefore := h.woken
    rw [htaskpc]
    rcases hwoken with hposts | hfull
    · rw [List.length_append]
      omega
    · have : salofBuffSize*t.sem ≤ salofBuffSize*(t.sem+posting t.writer) :=
        Nat.mul_le_mul_left _ (Nat.le_add_right _ _)
      omega

omit [DecidableEq W] in
theorem Inv.owner_of_inside {s : State W} {q : List UInt8} (h : Inv s q) {w : W} {pc : WritePc}
    (hpc : s.writer w = pc) (hinside : pc.inside) : s.owner = some w :=
  (h.owner w).mp (hpc ▸ hinside)

/-- A step inside the mutex that leaves it with the thread. -/
theorem Inv.of_inside {s : State W} {q : List UInt8} (h : Inv s q) (w : W) (f : Fifo)
    (pending : List UInt8) (pc : WritePc) (hown : s.owner = some w) (hinside : pc.inside)
    (hfifo : f.size = s.fifo.size ∧ f.outPos = s.fifo.outPos) (hstores : f.Stores q pending)
    (hfits : pc.Fits (s.fifo.size.toNat-q.length) pending)
    (hposting : pc.posting = (s.writer w).posting) :
    Inv ({ s with fifo := f, pending := pending }.goto w pc) q := by
  have hsum := posting_update s.writer w pc
  have hnew := h.of_writer (t := { s with fifo := f, pending := pending }.goto w pc) w pc [] rfl
    ⟨rfl, rfl, rfl, rfl⟩ h.format hfifo (by rw [List.append_nil]; rfl)
    ⟨fun _ => hown, fun _ => hinside⟩ (fun _ _ => Iff.rfl) (Or.inr hown)
    (fun hnone => absurd (hown.symm.trans hnone) (Option.some_ne_none w))
    (by rw [List.append_nil]; exact hstores) (by rw [List.append_nil]; exact hfits)
    (Or.inl (by
      show 0+salofBuffSize*(s.sem+posting s.writer) ≤
        salofBuffSize*(s.sem+posting (Function.update s.writer w pc))
      unfold salofBuffSize
      omega))
  rwa [List.append_nil] at hnew

/-- A step outside the mutex. -/
theorem Inv.of_outside {s : State W} {q : List UInt8} (h : Inv s q) (w : W) (pc : WritePc)
    (formatBuff : List UInt8) (sem : ℕ) (hformat : formatBuff.length = salofBuffSize)
    (hold : ¬ (s.writer w).inside) (hnew : ¬ pc.inside)
    (hwoken : salofBuffSize*(s.sem+(s.writer w).posting) ≤ salofBuffSize*(sem+pc.posting) ∨
      q.length ≤ salofBuffSize*sem) :
    Inv ({ s with formatBuff := formatBuff, sem := sem }.goto w pc) q := by
  have hnot : s.owner ≠ some w := fun hown => hold ((h.owner w).mpr hown)
  have hsum := posting_update s.writer w pc
  have hinv := h.of_writer (t := { s with formatBuff := formatBuff, sem := sem }.goto w pc) w pc []
    rfl ⟨rfl, rfl, rfl, rfl⟩ hformat ⟨rfl, rfl⟩ (by rw [List.append_nil]; rfl)
    ⟨fun hin => absurd hin hnew, fun hown => absurd hown hnot⟩ (fun _ _ => Iff.rfl)
    (Or.inl ⟨rfl, rfl⟩) h.free (by rw [List.append_nil]; exact h.stores)
    (WritePc.fits_of_not_inside hnew _ _)
    (by
      rw [List.append_nil]
      apply hwoken.imp_left
      intro hle
      show 0+salofBuffSize*(s.sem+posting s.writer) ≤
        salofBuffSize*(sem+posting (Function.update s.writer w pc))
      unfold salofBuffSize at hle ⊢
      omega)
  rwa [List.append_nil] at hinv

/-- The steps of `salof` before `salof_fifo_write`: only the format buffer changes. -/
theorem Inv.formats {s t : State W} {q : List UInt8} (h : Inv s q) (e : Event W)
    (hstep : s.step e = some t) (he : ∀ w, e ≠ .writer w) (htask : e ≠ .task) : Inv t q := by
  cases e with
  | call w =>
    replace hstep : s.call w = some t := hstep
    unfold State.call at hstep
    split at hstep
    · rename_i hidle
      cases hstep
      apply h.of_outside w (.format 0) s.formatBuff s.sem h.format (by rw [hidle]; exact id) id
      rw [hidle]
      exact Or.inl le_rfl
    · contradiction
  | put w b =>
    replace hstep : s.put w b = some t := hstep
    unfold State.put at hstep
    split at hstep
    · rename_i n hformat
      split at hstep
      · cases hstep
        apply h.of_outside w (.format (n+1)) _ s.sem ?_ (by rw [hformat]; exact id) id
        · rw [hformat]
          exact Or.inl le_rfl
        · split_ifs
          · rw [List.length_set]
            exact h.format
          · exact h.format
      · contradiction
    · contradiction
  | formatted w =>
    replace hstep : s.formatted w = some t := hstep
    unfold State.formatted at hstep
    split at hstep
    · rename_i n hformat
      cases hstep
      have hlen : (s.formatBuff.set (min n (salofBuffSize-2)) 0).length = salofBuffSize := by
        rw [List.length_set]
        exact h.format
      by_cases hempty : n = 0
      · rw [if_pos hempty]
        apply h.of_outside w .idle _ s.sem hlen (by rw [hformat]; exact id) id
        rw [hformat]
        exact Or.inl le_rfl
      · rw [if_neg hempty]
        apply h.of_outside w (.lock (salofLen n)) _ s.sem hlen (by rw [hformat]; exact id) id
        rw [hformat]
        exact Or.inl le_rfl
    · contradiction
  | writer w => exact absurd rfl (he w)
  | task => exact absurd rfl htask

/-- One byte of the copies, or `in += len` after the last one. -/
theorem Inv.copy {s t : State W} {q : List UInt8} (h : Inv s q) (w : W) (n : UInt32) (k : ℕ)
    (hpc : s.writer w = .copy n k) (hstep : s.writeNext w = some t) :
    ∃ more, Inv t (q ++ more) := by
  have hown := h.owner_of_inside hpc trivial
  have hfits := h.fits w
  rw [hpc] at hfits
  obtain ⟨hlen,hk,hroom,hbuff⟩ := hfits
  have hle := h.stores.length_le
  have hformat := h.format
  simp only [State.writeNext, hpc] at hstep
  split at hstep
  · rename_i hlt
    obtain ⟨b,hb⟩ : ∃ b, s.formatBuff[s.pending.length]? = some b :=
      ⟨_, List.getElem?_eq_getElem (by omega)⟩
    obtain ⟨g,hg,hsame,hnew⟩ := h.stores.copy_byte n s.formatBuff b (by omega) (by omega) hb
    have hone : (s.formatBuff.drop k).take 1 = [b] := by
      rw [List.take_one, List.head?_drop, ← hlen, hb]
      rfl
    rw [hlen] at hg
    rw [hg, hone] at hstep
    cases hstep
    refine ⟨[], ?_⟩
    rw [List.append_nil]
    apply h.of_inside w g (s.pending ++ [b]) (.copy n (k+1)) hown trivial
      ⟨hsame.size, hsame.outPos⟩ hnew ?_ (by rw [hpc]; rfl)
    refine ⟨?_, hlt, hroom, hbuff⟩
    rw [List.length_append, List.length_singleton, hlen]
  · cases hstep
    have hall : n.toNat = s.pending.length := by omega
    have hsum := posting_update s.writer w .unlock
    rw [hpc] at hsum
    refine ⟨s.pending, h.of_writer w .unlock s.pending rfl ⟨rfl, rfl, rfl, rfl⟩ h.format
      ⟨rfl, rfl⟩ ?_ ⟨fun _ => hown, fun _ => trivial⟩ (fun _ _ => Iff.rfl) (Or.inr hown)
      (fun _ => rfl) (h.stores.publish n hall) rfl (Or.inl ?_)⟩
    · show (s.written ++ [Written.mk w s.pending]).flatMap Written.bytes = _
      rw [List.flatMap_append, List.flatMap_singleton]
      rfl
    · rw [← hall]
      show n.toNat+salofBuffSize*(s.sem+posting s.writer) ≤
        salofBuffSize*(s.sem+posting (Function.update s.writer w .unlock))
      change _+0 = _+1 at hsum
      unfold salofBuffSize at hbuff ⊢
      omega

/-- Every step of a write keeps the invariant, as long as its second measurement
fits the format buffer; the queue grows when `in` moves. -/
theorem Inv.writeNext {s t : State W} {q : List UInt8} (h : Inv s q) (w : W)
    (hok : MeasureOk s (.writer w)) (hstep : s.writeNext w = some t) : ∃ more, Inv t (q ++ more) := by
  cases hpc : s.writer w with
  | idle | format =>
    simp only [State.writeNext, hpc] at hstep
    contradiction
  | lock len =>
    simp only [State.writeNext, hpc] at hstep
    split_ifs at hstep with hfree
    cases hstep
    have hsum := posting_update s.writer w (.measure len)
    rw [hpc] at hsum
    refine ⟨[], h.of_writer w (.measure len) [] rfl ⟨rfl, rfl, rfl, rfl⟩ h.format ⟨rfl, rfl⟩
      (by rw [List.append_nil]; rfl) ⟨fun _ => rfl, fun _ => trivial⟩ ?_ (Or.inl ⟨rfl, rfl⟩)
      (fun hnone => by contradiction) ?_ (h.free hfree) (Or.inl ?_)⟩
    · intro v hv
      rw [hfree]
      exact ⟨fun heq => absurd (Option.some.inj heq).symm hv, fun heq => by contradiction⟩
    · rw [List.append_nil]
      exact h.stores
    · show 0+salofBuffSize*(s.sem+posting s.writer) ≤
        salofBuffSize*(s.sem+posting (Function.update s.writer w (.measure len)))
      change _+0 = _+0 at hsum
      unfold salofBuffSize
      omega
  | measure len =>
    simp only [State.writeNext, hpc, Option.some.injEq] at hstep
    subst hstep
    have hown := h.owner_of_inside hpc trivial
    have hnone : s.pending = [] := by
      have hfits := h.fits w
      rwa [hpc] at hfits
    have hlen : (UInt32.ofNat len).toNat = len := by
      have hlt := len.isLt
      unfold salofBuffSize at hlt
      rw [UInt32.toNat_ofNat']
      omega
    have hlt := len.isLt
    refine ⟨[], ?_⟩
    rw [List.append_nil]
    split_ifs with hroom
    · rw [UInt32.lt_iff_toNat_lt, h.stores.free_toNat, hlen] at hroom
      apply h.of_inside w s.fifo s.pending (.copy _ 0) hown trivial ⟨rfl, rfl⟩ h.stores ?_
        (by rw [hpc]; rfl)
      exact ⟨by rw [hnone]; rfl, Nat.zero_le _, by omega, by omega⟩
    · exact h.of_inside w s.fifo s.pending .remeasure hown trivial ⟨rfl, rfl⟩ h.stores hnone
        (by rw [hpc]; rfl)
  | remeasure =>
    simp only [State.writeNext, hpc, Option.some.injEq] at hstep
    subst hstep
    have hown := h.owner_of_inside hpc trivial
    have hnone : s.pending = [] := by
      have hfits := h.fits w
      rwa [hpc] at hfits
    have hbuff : s.fifo.free.toNat ≤ salofBuffSize := hok (by rw [hpc, WritePc.rereads])
    refine ⟨[], ?_⟩
    rw [List.append_nil]
    apply h.of_inside w s.fifo s.pending (.copy _ 0) hown trivial ⟨rfl, rfl⟩ h.stores ?_
      (by rw [hpc]; rfl)
    exact ⟨by rw [hnone]; rfl, Nat.zero_le _, h.stores.free_toNat.le, hbuff⟩
  | copy n k => exact h.copy w n k hpc hstep
  | unlock =>
    simp only [State.writeNext, hpc, Option.some.injEq] at hstep
    subst hstep
    have hown := h.owner_of_inside hpc trivial
    have hnone : s.pending = [] := by
      have hfits := h.fits w
      rwa [hpc] at hfits
    have hsum := posting_update s.writer w .post
    rw [hpc] at hsum
    refine ⟨[], h.of_writer w .post [] rfl ⟨rfl, rfl, rfl, rfl⟩ h.format ⟨rfl, rfl⟩
      (by rw [List.append_nil]; rfl) ⟨fun hin => hin.elim, fun heq => by contradiction⟩ ?_
      (Or.inl ⟨rfl, rfl⟩) (fun _ => hnone) (by rw [List.append_nil]; exact h.stores) trivial
      (Or.inl ?_)⟩
    · intro v hv
      rw [hown]
      exact ⟨fun heq => by contradiction, fun heq => absurd (Option.some.inj heq).symm hv⟩
    · show 0+salofBuffSize*(s.sem+posting s.writer) ≤
        salofBuffSize*(s.sem+posting (Function.update s.writer w .post))
      change _+1 = _+1 at hsum
      unfold salofBuffSize
      omega
  | post =>
    simp only [State.writeNext, hpc, Option.some.injEq] at hstep
    subst hstep
    refine ⟨[], ?_⟩
    rw [List.append_nil]
    apply h.of_outside w .idle s.formatBuff _ h.format (by rw [hpc]; exact id) id
    rw [hpc]
    split_ifs with hroom
    · exact Or.inl le_rfl
    · -- a semaphore at its maximum stands for more bytes than the buffer has
      have hle := h.stores.length_le
      have hsize := s.fifo.size.toNat_lt
      unfold semValueMax at hroom
      unfold salofBuffSize
      exact Or.inr (by omega)

omit [DecidableEq W] in
/-- Every step of the task keeps the invariant, as long as its second measurement
fits `_out_buff`; the queue loses its beginning when `out` moves. -/
theorem Inv.taskNext {s t : State W} {q : List UInt8} (h : Inv s q) (hok : MeasureOk s .task)
    (hstep : s.taskNext = some t) : ∃ k, Inv t (q.drop k) := by
  have hready := h.ready
  have hwoken := h.woken
  unfold State.taskNext at hstep
  cases hpc : s.task with
  | wait =>
    simp only [hpc] at hstep hready hwoken
    split_ifs at hstep with hsem
    cases hstep
    refine ⟨0, { h with ready := hready, woken := ?_ }⟩
    change q.length ≤ 0+_ at hwoken
    change q.length ≤ salofBuffSize+salofBuffSize*(s.sem-1+posting s.writer)
    unfold salofBuffSize at hwoken ⊢
    omega
  | measure =>
    simp only [hpc, Option.some.injEq] at hstep hready hwoken
    subst hstep
    refine ⟨0, { h with ready := ?_, woken := ?_ }⟩
    · split_ifs with hlong
      · rw [UInt32.lt_iff_toNat_lt, h.stores.used_toNat] at hlong
        exact ⟨hlong.le, le_rfl, hready⟩
      · exact hready
    · split_ifs <;> exact hwoken
  | remeasure =>
    simp only [hpc, Option.some.injEq] at hstep hready
    subst hstep
    have hbuff : (s.fifo.inPos-s.fifo.outPos).toNat ≤ salofBuffSize :=
      hok (by rw [hpc, TaskPc.rereads])
    refine ⟨0, { h with ready := ⟨h.stores.used_toNat.le, hbuff, hready⟩, woken := ?_ }⟩
    change q.length ≤ (s.fifo.inPos-s.fifo.outPos).toNat+_
    rw [h.stores.used_toNat]
    exact Nat.le_add_right _ _
  | first n =>
    simp only [hpc] at hstep hready hwoken
    obtain ⟨hn,hbuff,hclear⟩ := hready
    unfold salofBuffSize at hbuff
    have hfetch := h.stores.first_fetch s.outBuff n (by omega) hn
      (by rw [hclear, clearBuff, List.length_replicate]; exact hbuff)
    rw [hfetch] at hstep
    cases hstep
    refine ⟨0, { h with ready := ⟨hn, hbuff, ?_⟩, woken := hwoken }⟩
    rw [hclear]
    rfl
  | second n =>
    simp only [hpc] at hstep hready hwoken
    obtain ⟨hn,hbuff,hcopy⟩ := hready
    unfold salofBuffSize at hbuff
    have hfetch := h.stores.second_fetch clearBuff n (by omega) hn
      (by rw [clearBuff, List.length_replicate]; exact hbuff)
    rw [hcopy, hfetch] at hstep
    cases hstep
    exact ⟨0, { h with ready := ⟨hn, hbuff, rfl⟩, woken := hwoken }⟩
  | advance n =>
    simp only [hpc, Option.some.injEq] at hstep hready hwoken
    subst hstep
    obtain ⟨hn,hbuff,hcopy⟩ := hready
    have htake : (q.take n.toNat).length = n.toNat := by rw [List.length_take]; omega
    have hchunk : s.outBuff.take n.toNat = q.take n.toNat := by
      rw [hcopy, List.take_left' htake]
    have hstores := h.stores.release n hn
    refine ⟨n.toNat, { h with
      stores := hstores, fits := ?_, ledger := ?_, ready := ?_, woken := ?_ }⟩
    · intro w
      -- the room grows
      have hfits := h.fits w
      have hroom : s.fifo.size.toNat-q.length ≤ s.fifo.size.toNat-(q.drop n.toNat).length := by
        rw [List.length_drop]
        omega
      show (s.writer w).Fits _ _
      cases hw : s.writer w <;> rw [hw] at hfits <;> first
        | exact hfits
        | exact ⟨hfits.1, hfits.2.1, hfits.2.2.1.trans hroom, hfits.2.2.2⟩
    · show s.accepted = s.taken ++ s.outBuff.take n.toNat ++ q.drop n.toNat
      rw [hchunk, List.append_assoc, List.take_append_drop]
      exact h.ledger
    · show TaskPc.Ready _ _ (s.taken ++ s.outBuff.take n.toNat) s.outBuff
        (if 0 < n.toNat then .print n else .wait)
      split_ifs with hpos
      · exact ⟨s.taken, q.take n.toNat, by rw [hchunk], htake, hbuff, hcopy⟩
      · have hzero : n.toNat = 0 := by omega
        show s.outBuff = clearBuff
        rw [hcopy, hzero, List.take_zero, List.drop_zero, List.nil_append]
    · change (q.drop n.toNat).length ≤ (if 0 < n.toNat then TaskPc.print n else .wait).claimed+
        salofBuffSize*(s.sem+posting s.writer)
      change q.length ≤ n.toNat+salofBuffSize*(s.sem+posting s.writer) at hwoken
      rw [List.length_drop]
      omega
  | print n =>
    simp only [hpc, Option.some.injEq] at hstep hready hwoken
    subst hstep
    obtain ⟨before,chunk,htaken,hlen,hbuff,hcopy⟩ := hready
    refine ⟨0, { h with ready := ?_, woken := hwoken }⟩
    show List.replicate n.toNat 0 ++ s.outBuff.drop n.toNat = clearBuff
    rw [hcopy, List.drop_left' hlen, clearBuff, List.drop_replicate, List.replicate_append_replicate,
      Nat.add_sub_cancel' hbuff]

/-- Every step of the log keeps the invariant. -/
theorem step_inv (s : State W) (e : Event W) (t : State W) (h : ∃ q, Inv s q)
    (hok : MeasureOk s e) (hstep : s.step e = some t) : ∃ q, Inv t q := by
  obtain ⟨q,h⟩ := h
  cases e with
  | writer w =>
    obtain ⟨more,hnew⟩ := h.writeNext w hok hstep
    exact ⟨_, hnew⟩
  | task =>
    obtain ⟨k,hnew⟩ := h.taskNext hok hstep
    exact ⟨_, hnew⟩
  | call | put | formatted => exact ⟨q, h.formats _ hstep (by simp) (by simp)⟩

theorem run_inv (f : Fifo) (hf : f.Stores [] []) (events : List (Event W)) (s : State W)
    (hok : Meets State.step MeasureOk (State.init f) events)
    (hrun : run State.step (State.init f) events = some s) : ∃ q, Inv s q :=
  run_invariant_of_meets State.step MeasureOk (fun s => ∃ q, Inv s q) step_inv (State.init f) s
    events ⟨[], init_inv f hf⟩ hok hrun

end invariant

section overrun
variable [DecidableEq W]

/-- A copy longer than the format buffer goes on until it leaves it. -/
theorem copy_overruns (s : State W) (w : W) (n : UInt32) (k : ℕ) (hpc : s.writer w = .copy n k)
    (hformat : s.formatBuff.length = salofBuffSize) (hk : k ≤ salofBuffSize)
    (hlong : salofBuffSize < n.toNat) :
    ∃ t, Repeats State.step (.writer w) s t ∧ t.fault = true := by
  -- by the bytes left in the format buffer
  induction hleft : salofBuffSize-k generalizing s k with
  | zero =>
    have hout : s.fifo.copyIn (s.fifo.copyCell n k) s.formatBuff k 1 = none := by
      have hread : readAt s.formatBuff k 1 = none := if_neg (by omega)
      have hcopy : memcpy s.fifo.buff (s.fifo.copyCell n k) s.formatBuff k 1 = none := by
        rw [memcpy, hread]
        rfl
      unfold Fifo.copyIn
      split
      · rfl
      · rename_i m hm
        rw [hcopy] at hm
        contradiction
    refine ⟨{ s with fault := true }, Repeats.head _ ?_ (Repeats.refl _ _ _), rfl⟩
    simp only [State.step, State.writeNext, hpc, if_pos (show k < n.toNat by omega), hout]
  | succ left ih =>
    cases hcopy : s.fifo.copyIn (s.fifo.copyCell n k) s.formatBuff k 1 with
    | none =>
      refine ⟨{ s with fault := true }, Repeats.head _ ?_ (Repeats.refl _ _ _), rfl⟩
      simp only [State.step, State.writeNext, hpc, if_pos (show k < n.toNat by omega), hcopy]
    | some f =>
      let u : State W := { s with
        fifo := f
        pending := s.pending ++ (s.formatBuff.drop k).take 1 }.goto w (.copy n (k+1))
      have hu : s.step (.writer w) = some u := by
        simp only [State.step, State.writeNext, hpc, if_pos (show k < n.toNat by omega), hcopy, u]
      obtain ⟨t,hrest,hfault⟩ := ih u (k+1) (Function.update_self _ _ _) hformat (by omega) (by omega)
      exact ⟨t, Repeats.head _ hu hrest, hfault⟩

/-- So do the two copies of the task. -/
theorem fetch_overruns (s : State W) (n : UInt32) (hpc : s.task = .first n)
    (hbuff : s.outBuff.length = salofBuffSize) (hlong : salofBuffSize < n.toNat) :
    ∃ t, Repeats State.step .task s t ∧ t.fault = true := by
  have hfaults (u : State W) (hu : u.taskNext = some { u with fault := true }) :
      ∃ t, Repeats State.step .task u t ∧ t.fault = true :=
    ⟨_, Repeats.head _ hu (Repeats.refl _ _ _), rfl⟩
  cases hfirst : memcpy s.outBuff 0 s.fifo.buff (s.fifo.cellOf s.fifo.outPos)
      (Fifo.intToSize (Fifo.fifoMin n (s.fifo.untilEnd s.fifo.outPos))) with
  | none =>
    apply hfaults
    simp only [State.taskNext, hpc, hfirst]
  | some b =>
    let u : State W := { s with outBuff := b, task := .second n }
    have hu : s.step .task = some u := by simp only [State.step, State.taskNext, hpc, hfirst, u]
    -- the second copy would end at byte `n` of `_out_buff`
    have hsecond : memcpy b (Fifo.fifoMin n (s.fifo.untilEnd s.fifo.outPos)).toNat s.fifo.buff 0
        (n-Fifo.fifoMin n (s.fifo.untilEnd s.fifo.outPos)).toNat = none := by
      rw [← Option.not_isSome_iff_eq_none]
      intro hsome
      obtain ⟨b',hb'⟩ := Option.isSome_iff_exists.mp hsome
      obtain ⟨bs,hread,hwrite⟩ := Option.bind_eq_some_iff.mp hb'
      have hlen := readAt_length _ _ _ _ hread
      have hfit := ((writeAt_eq_some_iff _ _ _ _).mp hwrite).1
      rw [hlen, memcpy_length _ _ _ _ _ _ hfirst, hbuff, UInt32.toNat_sub] at hfit
      have hmin := Fifo.fifoMin_toNat n (s.fifo.untilEnd s.fifo.outPos)
      have hn := n.toNat_lt
      omega
    obtain ⟨t,hrest,hfault⟩ := hfaults u (by simp only [State.taskNext, u, hsecond])
    exact ⟨t, Repeats.head _ hu hrest, hfault⟩

variable [Fintype W]

/-- The condition is needed: a second measurement that is too long is followed, by
the thread alone, to an access outside. -/
theorem Inv.overruns {s t : State W} {q : List UInt8} (h : Inv s q) (e : Event W)
    (hlong : ¬ MeasureOk s e) (hstep : s.step e = some t) :
    ∃ u, Repeats State.step e t u ∧ u.fault = true := by
  cases e with
  | call | put | formatted => exact absurd trivial hlong
  | writer w =>
    replace hstep : s.writeNext w = some t := hstep
    change ¬ ((s.writer w).rereads = true → _) at hlong
    cases hpc : s.writer w with
    | remeasure =>
      rw [hpc] at hlong
      simp only [WritePc.rereads, forall_const, not_le] at hlong
      simp only [State.writeNext, hpc, Option.some.injEq] at hstep
      subst hstep
      exact copy_overruns _ w s.fifo.free 0 (Function.update_self _ _ _) h.format (Nat.zero_le _)
        hlong
    | _ => simp [hpc, WritePc.rereads] at hlong
  | task =>
    replace hstep : s.taskNext = some t := hstep
    change ¬ (s.task.rereads = true → _) at hlong
    cases hpc : s.task with
    | remeasure =>
      have hready := h.ready
      rw [hpc] at hlong hready
      simp only [TaskPc.rereads, forall_const, not_le] at hlong
      simp only [State.taskNext, hpc, Option.some.injEq] at hstep
      subst hstep
      apply fetch_overruns _ (s.fifo.inPos-s.fifo.outPos) rfl ?_ hlong
      show s.outBuff.length = salofBuffSize
      rw [show s.outBuff = clearBuff from hready, clearBuff, List.length_replicate]
    | _ => simp [hpc, TaskPc.rereads] at hlong

end overrun

end CppOperate.Log

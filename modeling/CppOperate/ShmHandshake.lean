import CppOperate.CStrings
import CppOperate.StepRuns

/-! `write_data` of posix_write.c, called by one writer at a time, and the read
loop of loop_posix_read.cpp: two processes, one segment and two semaphores. -/
namespace CppOperate.Shm
open StepRuns CStrings

def shmSize : ℕ := 4096

-- SEM_VALUE_MAX of the C library
def semValueMax : ℕ := 2147483647

abbrev Segment := Buffer shmSize

namespace Segment

/-- `strncpy(shm_ptr, data, SHM_SIZE - 1)` and the NUL in the last byte. -/
def store (shm : Segment) (data : CString) : Segment where
  bytes := (strncpy shm.bytes data.bytes (shmSize-1)).set (shmSize-1) 0
  size := by
    have hsize := shm.size
    rw [List.length_set, length_strncpy _ _ _ (by rw [hsize, shmSize]; omega), hsize]
  terminated := by
    have hsize := shm.size
    apply nul_mem_set
    rw [length_strncpy _ _ _ (by rw [hsize, shmSize]; omega), hsize, shmSize]
    omega

/-- A fresh object, zeroed by `ftruncate`. -/
def cleared : Segment where
  bytes := List.replicate shmSize 0
  size := List.length_replicate
  terminated := List.mem_replicate.mpr ⟨by decide, rfl⟩

/-- What a message leaves in the segment. -/
def stored (data : CString) : List UInt8 := data.bytes.take (min data.bytes.length (shmSize-1))

theorem stored_eq_nil_iff (data : CString) : stored data = [] ↔ data.bytes = [] := by
  simp only [stored, List.take_eq_nil_iff, shmSize]
  constructor
  · rintro (hlen | hnil)
    · exact List.eq_nil_of_length_eq_zero (by omega)
    · exact hnil
  · exact Or.inr

theorem str_store (shm : Segment) (data : CString) : str (store shm data).bytes = stored data := by
  have hlen : shmSize-1 < shm.bytes.length := by
    rw [shm.size, shmSize]
    omega
  rw [store, str_strncpy_set _ _ _ data.noNul hlen, stored, List.take_eq_take_iff]
  omega

end Segment

/-- The writer between the steps of `write_data`. -/
inductive WritePc
  | idle
  | copy (data : CString)
  | post
  | wait
deriving DecidableEq, Repr

def WritePc.copies : WritePc → Bool
  | .copy _ => true
  | .idle | .post | .wait => false

/-- The reader between the steps of `read_data`, or past its loop. -/
inductive ReadPc
  | wait
  | read
  | post
  | left
deriving DecidableEq, Repr

/-- A string `read_data` returned and the number of the message it was copied
from, 0 for the empty string of a call that gave up. -/
structure Shot where
  stamp : ℕ
  data : List UInt8
deriving DecidableEq, Repr

/-- A finished `write_data`: the number of its message (0 for a NULL pointer),
how many strings were returned when it was called and when it returned. -/
structure Result where
  stamp : ℕ
  since : ℕ
  upto : ℕ
  code : ℤ
deriving DecidableEq, Repr

structure State where
  shm : Segment
  writeSem : ℕ := 0
  readSem : ℕ := 0
  writer : WritePc := .idle
  reader : ReadPc := .wait
  -- the local string of `read_data`
  data : List UInt8 := []
  shouldExit : Bool := false
  -- history: what the segment and the local string were copied from
  shmStamp : ℕ := 0
  dataStamp : ℕ := 0
  since : ℕ := 0
  messages : List CString := []
  returned : List Shot := []
  results : List Result := []

inductive Event
  | call (data : Option CString)
  | write
  -- the writer's `sem_wait` returns -1
  | interruptWrite
  | read
  | interruptRead
  -- `signal_handler` in the reader
  | signal
deriving DecidableEq, Repr

namespace State

/-- `write_data` returns. -/
def finish (s : State) (code : ℤ) : State :=
  { s with writer := .idle,
           results := s.results ++ [⟨s.messages.length, s.since, s.returned.length, code⟩] }

def call (s : State) (data : Option CString) : Option State :=
  match s.writer, data with
  | .idle, some m => some { s with writer := .copy m, since := s.returned.length,
                                   messages := s.messages ++ [m] }
  -- "Invalid arguments"
  | .idle, none =>
    some { s with results := s.results ++ [⟨0, s.returned.length, s.returned.length, -1⟩] }
  | _, _ => none

/-- The steps of `write_data` after its call. -/
def writeNext (s : State) : Option State :=
  match s.writer with
  | .idle => none
  | .copy m => some { s with shm := Segment.store s.shm m, shmStamp := s.messages.length,
                             writer := .post }
  | .post =>
    if s.writeSem < semValueMax then some { s with writeSem := s.writeSem+1, writer := .wait }
    else some (s.finish (-1))
  | .wait =>
    if 0 < s.readSem then some (finish { s with readSem := s.readSem-1 } 0) else none

/-- `read_data` gives up and its empty string ends the loop of `main`. -/
def giveUp (s : State) : State :=
  { s with reader := .left, returned := s.returned ++ [⟨0, []⟩] }

/-- The steps of `read_data`, and the loop test after its return. -/
def readNext (s : State) : Option State :=
  match s.reader with
  | .wait =>
    if s.writeSem = 0 then none
    else if s.shouldExit then some (giveUp { s with writeSem := s.writeSem-1 })
    else some { s with writeSem := s.writeSem-1, reader := .read }
  | .read => some { s with data := str s.shm.bytes, dataStamp := s.shmStamp, reader := .post }
  | .post =>
    -- a post that fails is only reported
    some { s with readSem := if s.readSem < semValueMax then s.readSem+1 else s.readSem,
                  reader := if s.data = [] ∨ s.shouldExit then .left else .wait,
                  returned := s.returned ++ [⟨s.dataStamp, s.data⟩] }
  | .left => none

end State

def step (s : State) : Event → Option State
  | .call data => s.call data
  | .write => s.writeNext
  | .interruptWrite => if s.writer = .wait then some (s.finish (-1)) else none
  | .read => s.readNext
  | .interruptRead => if s.reader = .wait then some s.giveUp else none
  | .signal => some { s with shouldExit := true }

def Uninterrupted : Event → Prop
  | .interruptWrite | .interruptRead | .signal => False
  | _ => True

theorem call_cases (s t : State) (data : Option CString) (h : s.call data = some t) :
    s.writer = .idle ∧
      ((∃ m, data = some m ∧ t = { s with writer := .copy m, since := s.returned.length,
                                          messages := s.messages ++ [m] }) ∨
        t = { s with results := s.results ++ [⟨0, s.returned.length, s.returned.length, -1⟩] }) := by
  unfold State.call at h
  split at h
  · rename_i m hidle
    cases h
    exact ⟨hidle, Or.inl ⟨m, rfl, rfl⟩⟩
  · rename_i hidle
    cases h
    exact ⟨hidle, Or.inr rfl⟩
  · contradiction

theorem write_cases (s t : State) (h : s.writeNext = some t) :
    (∃ m, s.writer = .copy m ∧ t = { s with shm := Segment.store s.shm m,
                                            shmStamp := s.messages.length, writer := .post }) ∨
      (s.writer = .post ∧ s.writeSem < semValueMax ∧
        t = { s with writeSem := s.writeSem+1, writer := .wait }) ∨
      (s.writer = .post ∧ semValueMax ≤ s.writeSem ∧ t = s.finish (-1)) ∨
      (s.writer = .wait ∧ 0 < s.readSem ∧ t = State.finish { s with readSem := s.readSem-1 } 0) := by
  unfold State.writeNext at h
  split at h
  · contradiction
  · rename_i m hcopy
    cases h
    exact Or.inl ⟨m, hcopy, rfl⟩
  · rename_i hpost
    split_ifs at h with hroom
    · cases h
      exact Or.inr (Or.inl ⟨hpost, hroom, rfl⟩)
    · cases h
      exact Or.inr (Or.inr (Or.inl ⟨hpost, by omega, rfl⟩))
  · rename_i hwait
    split_ifs at h with hack
    cases h
    exact Or.inr (Or.inr (Or.inr ⟨hwait, hack, rfl⟩))

theorem read_cases (s t : State) (h : s.readNext = some t) :
    (s.reader = .wait ∧ 0 < s.writeSem ∧ s.shouldExit = true ∧
        t = State.giveUp { s with writeSem := s.writeSem-1 }) ∨
      (s.reader = .wait ∧ 0 < s.writeSem ∧ t = { s with writeSem := s.writeSem-1, reader := .read }) ∨
      (s.reader = .read ∧
        t = { s with data := str s.shm.bytes, dataStamp := s.shmStamp, reader := .post }) ∨
      (s.reader = .post ∧
        t = { s with readSem := if s.readSem < semValueMax then s.readSem+1 else s.readSem,
                     reader := if s.data = [] ∨ s.shouldExit then .left else .wait,
                     returned := s.returned ++ [⟨s.dataStamp, s.data⟩] }) := by
  unfold State.readNext at h
  split at h
  · rename_i hwait
    split_ifs at h with hzero hexit
    · cases h
      exact Or.inl ⟨hwait, Nat.pos_of_ne_zero hzero, hexit, rfl⟩
    · cases h
      exact Or.inr (Or.inl ⟨hwait, Nat.pos_of_ne_zero hzero, rfl⟩)
  · rename_i hread
    cases h
    exact Or.inr (Or.inr (Or.inl ⟨hread, rfl⟩))
  · rename_i hpost
    cases h
    exact Or.inr (Or.inr (Or.inr ⟨hpost, rfl⟩))
  · contradiction

theorem interruptWrite_cases (s t : State) (h : step s .interruptWrite = some t) :
    s.writer = .wait ∧ t = s.finish (-1) := by
  simp only [Shm.step] at h
  split_ifs at h with hwait
  cases h
  exact ⟨hwait, rfl⟩

theorem interruptRead_cases (s t : State) (h : step s .interruptRead = some t) :
    s.reader = .wait ∧ t = s.giveUp := by
  simp only [Shm.step] at h
  split_ifs at h with hwait
  cases h
  exact ⟨hwait, rfl⟩

/-- Between `sem_wait` and `sem_post` of `read_data`. -/
def State.reading (s : State) : Prop := s.reader = .read ∨ s.reader = .post

-- the calls under way that have not posted, and those that wait for their acknowledgement
def WritePc.unsent : WritePc → ℕ
  | .copy _ | .post => 1
  | .idle | .wait => 0

def WritePc.waiting : WritePc → ℕ
  | .wait => 1
  | .idle | .copy _ | .post => 0

def ReadPc.busy : ReadPc → ℕ
  | .read | .post => 1
  | .wait | .left => 0

/-- One token goes round: it lies on a semaphore or is held by the reader while
the writer waits, and is with the writer otherwise. -/
structure Handshake (s : State) : Prop where
  token : s.writeSem + s.reader.busy + s.readSem = s.writer.waiting
  ledger : s.returned.length + s.writer.unsent + s.writeSem + s.reader.busy = s.messages.length
  inOrder : s.returned.map Shot.data = (s.messages.take s.returned.length).map Segment.stored
  current : ∀ m, s.writer = .copy m → s.messages.getLast? = some m
  segment : s.writer = .post ∨ s.writer = .wait →
    s.messages.getLast?.map Segment.stored = some (str s.shm.bytes)
  data : s.reader = .post → s.messages.getLast?.map Segment.stored = some s.data
  stays : s.shouldExit = false
  left : s.reader = .left → [] ∈ s.returned.map Shot.data
  -- an empty string ends the loop, so nothing is returned after it
  loops : s.reader ≠ .left → [] ∉ s.returned.map Shot.data
  last : [] ∉ (s.returned.map Shot.data).dropLast

theorem init_handshake (shm : Segment) : Handshake { shm := shm } := by
  constructor <;> simp [WritePc.waiting, WritePc.unsent, ReadPc.busy]

/-- While no call waits nobody else holds the token. -/
theorem Handshake.quiet (s : State) (hinv : Handshake s) (h : s.writer.waiting = 0) :
    s.writeSem = 0 ∧ s.reader.busy = 0 ∧ s.readSem = 0 := by
  have htoken := hinv.token
  omega

/-- The reader holds the token only while the writer waits. -/
theorem Handshake.waits (s : State) (hinv : Handshake s) (h : s.reader.busy = 1) :
    s.writer = .wait ∧ s.writeSem = 0 ∧ s.readSem = 0 := by
  have htoken := hinv.token
  cases hwriter : s.writer <;> simp only [hwriter, WritePc.waiting] at htoken
  case wait => exact ⟨rfl, by omega, by omega⟩
  all_goals omega

theorem Handshake.call (s t : State) (data : Option CString) (hinv : Handshake s)
    (h : s.call data = some t) : Handshake t := by
  obtain ⟨hidle,⟨m,-,rfl⟩ | rfl⟩ := call_cases s t data h
  · have hquiet := hinv.quiet s (by rw [hidle, WritePc.waiting])
    have hledger := hinv.ledger
    rw [hidle, WritePc.unsent] at hledger
    refine { hinv with token := ?_, ledger := ?_, inOrder := ?_, current := ?_, segment := ?_,
                       data := ?_ }
    · simp only [WritePc.waiting]
      omega
    · simp only [WritePc.unsent, List.length_append, List.length_singleton]
      omega
    · have hlen : s.returned.length = s.messages.length := by omega
      have hall := hinv.inOrder
      rw [hlen, List.take_length] at hall
      simp only [hlen, List.take_left, hall]
    · intro k hk
      cases hk
      exact List.getLast?_concat
    · intro h
      simp at h
    · intro hpost
      simp only at hpost
      simp [hpost, ReadPc.busy] at hquiet
  · exact { hinv with }

theorem Handshake.writeNext (s t : State) (hinv : Handshake s) (h : s.writeNext = some t) :
    Handshake t := by
  have htoken := hinv.token
  have hledger := hinv.ledger
  rcases write_cases s t h with ⟨m,hwriter,rfl⟩ | ⟨hwriter,-,rfl⟩ | ⟨hwriter,hfull,-⟩ |
    ⟨hwriter,hack,rfl⟩
  · rw [hwriter] at htoken hledger
    refine { hinv with token := htoken, ledger := hledger, current := ?_, segment := ?_ }
    · intro k hk
      contradiction
    · intro _
      rw [hinv.current m hwriter, Option.map_some, Segment.str_store]
  · simp only [hwriter, WritePc.waiting, WritePc.unsent] at htoken hledger
    refine { hinv with token := ?_, ledger := ?_, current := ?_, segment := ?_ }
    · simp only [WritePc.waiting]
      omega
    · simp only [WritePc.unsent]
      omega
    · intro k hk
      contradiction
    · intro _
      exact hinv.segment (Or.inl hwriter)
  · -- the semaphore is 0 before the post
    have hquiet := hinv.quiet s (by rw [hwriter, WritePc.waiting])
    rw [semValueMax] at hfull
    omega
  · simp only [hwriter, WritePc.waiting, WritePc.unsent] at htoken hledger
    refine { hinv with token := ?_, ledger := ?_, current := ?_, segment := ?_ }
    · simp only [State.finish, WritePc.waiting]
      omega
    · simp only [State.finish, WritePc.unsent]
      omega
    · intro k hk
      contradiction
    · intro h
      simp [State.finish] at h

theorem Handshake.readNext (s t : State) (hinv : Handshake s) (h : s.readNext = some t) :
    Handshake t := by
  have htoken := hinv.token
  have hledger := hinv.ledger
  rcases read_cases s t h with ⟨-,-,hexit,-⟩ | ⟨hreader,hposted,rfl⟩ | ⟨hreader,rfl⟩ | ⟨hreader,rfl⟩
  · rw [hinv.stays] at hexit
    contradiction
  · simp only [hreader, ReadPc.busy] at htoken hledger
    have hloops := hinv.loops (by rw [hreader]; nofun)
    refine { hinv with token := ?_, ledger := ?_, data := ?_, left := ?_, loops := fun _ => hloops }
    · simp only [ReadPc.busy]
      omega
    · simp only [ReadPc.busy]
      omega
    · intro hpost
      contradiction
    · intro hleft
      contradiction
  · rw [hreader] at htoken hledger
    have hloops := hinv.loops (by rw [hreader]; nofun)
    refine { hinv with token := htoken, ledger := hledger, data := ?_, left := ?_,
                       loops := fun _ => hloops }
    · intro _
      exact hinv.segment (Or.inr (hinv.waits s (by rw [hreader, ReadPc.busy])).1)
    · intro hleft
      contradiction
  · obtain ⟨hwriter,hwriteSem,hreadSem⟩ := hinv.waits s (by rw [hreader, ReadPc.busy])
    obtain ⟨m,hm,hdata⟩ := Option.map_eq_some_iff.mp (hinv.data hreader)
    obtain ⟨earlier,hmessages⟩ := List.getLast?_eq_some_iff.mp hm
    have hroom : s.readSem < semValueMax := by
      rw [hreadSem, semValueMax]
      omega
    simp only [hreader, hwriter, WritePc.waiting, WritePc.unsent, ReadPc.busy] at htoken hledger
    have hbusy : (if s.data = [] ∨ s.shouldExit = true then ReadPc.left else ReadPc.wait).busy = 0 := by
      split_ifs <;> rfl
    have hlen : s.returned.length = earlier.length := by
      rw [hmessages, List.length_append, List.length_singleton] at hledger
      omega
    have hloops := hinv.loops (by rw [hreader]; nofun)
    refine { hinv with token := ?_, ledger := ?_, inOrder := ?_, data := ?_, left := ?_, loops := ?_,
                       last := ?_ }
    · simp only [hwriter, WritePc.waiting, hbusy, if_pos hroom]
      omega
    · simp only [hwriter, WritePc.unsent, hbusy, List.length_append, List.length_singleton]
      omega
    · have horder := hinv.inOrder
      rw [hmessages, hlen, List.take_left] at horder
      have hall : (earlier ++ [m]).take (earlier.length+1) = earlier ++ [m] := by
        rw [List.take_of_length_le (by simp)]
      simp only [hmessages, List.length_append, List.length_singleton, hlen, hall, List.map_append,
        List.map_singleton, horder, hdata]
    · intro hpost
      simp only at hpost
      split_ifs at hpost
    · intro hleft
      simp only [hinv.stays, Bool.false_eq_true, or_false] at hleft
      split_ifs at hleft with hempty
      simp [hempty]
    · intro hstays
      have hne : s.data ≠ [] := by
        intro hempty
        simp [hempty] at hstays
      rw [List.map_append, List.mem_append]
      rintro (hold | hnew)
      · exact hloops hold
      · exact hne (List.mem_singleton.mp hnew).symm
    · -- the string just returned is the last one, the others were returned in the loop
      rw [List.map_append, List.map_singleton, List.dropLast_concat]
      exact hloops

theorem Handshake.step (s : State) (e : Event) (t : State) (hinv : Handshake s)
    (huninterrupted : Uninterrupted e) (h : step s e = some t) : Handshake t := by
  cases e with
  | call data => exact hinv.call s t data h
  | write => exact hinv.writeNext s t h
  | read => exact hinv.readNext s t h
  | interruptWrite => exact False.elim huninterrupted
  | interruptRead => exact False.elim huninterrupted
  | signal => exact False.elim huninterrupted

/-- Only the copy of `write_data` changes the segment. -/
theorem step_shm (s t : State) (e : Event) (hcopy : ∀ m, s.writer ≠ .copy m)
    (h : step s e = some t) : t.shm = s.shm := by
  cases e with
  | call data =>
    obtain ⟨-,⟨m,-,rfl⟩ | rfl⟩ := call_cases s t data h <;> rfl
  | write =>
    rcases write_cases s t h with ⟨m,hm,-⟩ | ⟨-,-,rfl⟩ | ⟨-,-,rfl⟩ | ⟨-,-,rfl⟩
    · exact False.elim (hcopy m hm)
    all_goals rfl
  | read =>
    rcases read_cases s t h with ⟨-,-,-,rfl⟩ | ⟨-,-,rfl⟩ | ⟨-,rfl⟩ | ⟨-,rfl⟩ <;> rfl
  | interruptWrite =>
    obtain ⟨-,rfl⟩ := interruptWrite_cases s t h
    rfl
  | interruptRead =>
    obtain ⟨-,rfl⟩ := interruptRead_cases s t h
    rfl
  | signal =>
    cases h
    rfl

/-- How many steps a call under way is from its return. -/
def State.remaining (s : State) : ℕ :=
  match s.writer with
  | .idle => 0
  | .copy _ => 6
  | .post => 5
  | .wait =>
    match s.reader with
    | .read => 3
    | .post => 2
    | .wait | .left => if s.readSem = 0 then 4 else 1

/-- The reader still loops, or has left its acknowledgement for the call under way. -/
def State.answers (s : State) : Prop := s.reader ≠ .left ∨ 0 < s.readSem ∨ s.writer = .idle

/-- A call under way has a next step, its own or the reader's, and comes nearer
to its return with it. -/
theorem handshake_progress (s : State) (hinv : Handshake s) (hcall : s.writer ≠ .idle)
    (hanswers : s.answers) :
    ∃ e t, (e = .write ∨ e = .read) ∧ step s e = some t ∧ t.remaining < s.remaining ∧
      t.messages = s.messages ∧ t.answers := by
  have hreader : s.reader ≠ .left ∨ 0 < s.readSem :=
    hanswers.imp_right fun h => h.resolve_right hcall
  cases hwriter : s.writer with
  | idle => contradiction
  | copy m =>
    have hstep : step s .write =
        some { s with shm := Segment.store s.shm m, shmStamp := s.messages.length,
                      writer := .post } := by
      simp only [Shm.step, State.writeNext, hwriter]
    refine ⟨.write, _, Or.inl rfl, hstep, ?_, rfl, hreader.imp_right Or.inl⟩
    simp [State.remaining, hwriter]
  | post =>
    have hquiet := hinv.quiet s (by rw [hwriter, WritePc.waiting])
    have hroom : s.writeSem < semValueMax := by
      rw [hquiet.1, semValueMax]
      omega
    have hstep : step s .write = some { s with writeSem := s.writeSem+1, writer := .wait } := by
      simp only [Shm.step, State.writeNext, hwriter, if_pos hroom]
    refine ⟨.write, _, Or.inl rfl, hstep, ?_, rfl, hreader.imp_right Or.inl⟩
    cases hpc : s.reader <;> simp [State.remaining, hwriter, hquiet.2.2]
  | wait =>
    have htoken := hinv.token
    rw [hwriter, WritePc.waiting] at htoken
    by_cases hack : 0 < s.readSem
    · have hstep : step s .write = some (State.finish { s with readSem := s.readSem-1 } 0) := by
        simp only [Shm.step, State.writeNext, hwriter, if_pos hack]
      refine ⟨.write, _, Or.inl rfl, hstep, ?_, rfl, Or.inr (Or.inr rfl)⟩
      cases hpc : s.reader <;> simp [State.remaining, State.finish, hwriter, hpc, hack.ne']
    have hnone : s.readSem = 0 := by omega
    have hloops := hreader.resolve_right hack
    cases hpc : s.reader with
    | left => contradiction
    | wait =>
      rw [hpc, ReadPc.busy] at htoken
      have hposted : s.writeSem ≠ 0 := by omega
      have hstep : step s .read = some { s with writeSem := s.writeSem-1, reader := .read } := by
        simp [Shm.step, State.readNext, hpc, hposted, hinv.stays]
      refine ⟨.read, _, Or.inr rfl, hstep, ?_, rfl, Or.inl (by simp)⟩
      simp [State.remaining, hwriter, hpc, hnone]
    | read =>
      have hstep : step s .read =
          some { s with data := str s.shm.bytes, dataStamp := s.shmStamp, reader := .post } := by
        simp only [Shm.step, State.readNext, hpc]
      refine ⟨.read, _, Or.inr rfl, hstep, ?_, rfl, Or.inl (by simp)⟩
      simp [State.remaining, hwriter, hpc]
    | post =>
      have hroom : s.readSem < semValueMax := by
        rw [hnone, semValueMax]
        omega
      have hstep : step s .read = some { s with
          readSem := s.readSem+1, reader := if s.data = [] ∨ s.shouldExit then .left else .wait,
          returned := s.returned ++ [⟨s.dataStamp, s.data⟩] } := by
        simp only [Shm.step, State.readNext, hpc, if_pos hroom]
      -- also when the loop ends with this string
      refine ⟨.read, _, Or.inr rfl, hstep, ?_, rfl, Or.inr (Or.inl (Nat.succ_pos _))⟩
      by_cases hleave : s.data = [] ∨ s.shouldExit = true <;>
        simp [State.remaining, hwriter, hpc, hleave]

/-- A call under way comes to its return. -/
theorem handshake_returns (s : State) (hinv : Handshake s) (hanswers : s.answers) :
    ∃ rest t, (∀ e ∈ rest, e = .write ∨ e = .read) ∧ run step s rest = some t ∧
      t.writer = .idle ∧ t.messages = s.messages ∧ Handshake t := by
  induction hn : s.remaining using Nat.strong_induction_on generalizing s with
  | _ n ih =>
    by_cases hidle : s.writer = .idle
    · exact ⟨[], s, by simp, rfl, hidle, rfl, hinv⟩
    obtain ⟨e,u,he,hstep,hless,hmessages,hnext⟩ := handshake_progress s hinv hidle hanswers
    have huninterrupted : Uninterrupted e := by rcases he with rfl | rfl <;> trivial
    obtain ⟨rest,t,hrest,hrun,hreturn,hsame,ht⟩ := ih u.remaining (hn ▸ hless) u
      (hinv.step s e u huninterrupted hstep) hnext rfl
    refine ⟨e :: rest, t, ?_, (run_cons_iff step s t e rest).mpr ⟨u, hstep, hrun⟩, hreturn,
      hsame.trans hmessages, ht⟩
    intro d hd
    rcases List.mem_cons.mp hd with rfl | hd
    · exact he
    · exact hrest d hd

/-- Between two calls every message has been returned. -/
theorem Handshake.complete (s : State) (hinv : Handshake s) (hidle : s.writer = .idle) :
    s.returned.length = s.messages.length := by
  have hledger := hinv.ledger
  have hquiet := hinv.quiet s (by rw [hidle, WritePc.waiting])
  rw [hidle, WritePc.unsent] at hledger
  omega

/-- Writer and reader can still go on until no call is under way and every
message passed to `write_data` has been returned. -/
def NothingLost (s : State) : Prop :=
  ∃ rest t, (∀ e ∈ rest, e = .write ∨ e = .read) ∧ run step s rest = some t ∧ t.writer = .idle ∧
    t.messages = s.messages ∧ t.returned.length = s.messages.length

theorem Handshake.kept (s t : State) (events : List Event) (hinv : Handshake s)
    (huninterrupted : ∀ e ∈ events, Uninterrupted e) (hrun : run Shm.step s events = some t) :
    Handshake t := by
  apply run_invariant_of_meets Shm.step (fun _ e => Uninterrupted e) Handshake Handshake.step s t
    events hinv
  · exact meets_of_forall Shm.step Uninterrupted s events huninterrupted
  · exact hrun

/-- When nothing but the last message is empty, a reader that has left was done
with the call under way. -/
theorem Handshake.answers (s : State) (hinv : Handshake s)
    (hwhole : ∀ m ∈ s.messages.dropLast, m.bytes ≠ []) : s.answers := by
  by_contra hnone
  simp only [State.answers, not_or, not_not, not_lt] at hnone
  obtain ⟨hleft,hack,hcall⟩ := hnone
  have htoken := hinv.token
  have hledger := hinv.ledger
  have hfewer : s.returned.length ≤ s.messages.length-1 := by
    rw [hleft, ReadPc.busy] at htoken hledger
    cases hwriter : s.writer <;> simp only [hwriter, WritePc.waiting, WritePc.unsent] at htoken hledger
    case idle => contradiction
    all_goals omega
  -- the empty string it left on was not the last message
  have hempty := hinv.left hleft
  rw [hinv.inOrder] at hempty
  obtain ⟨m,hm,hnil⟩ := List.mem_map.mp hempty
  have hearlier : m ∈ s.messages.dropLast := by
    rw [List.dropLast_eq_take]
    exact (List.take_prefix_take_left hfewer).subset hm
  exact hwhole m hearlier ((Segment.stored_eq_nil_iff m).mp hnil)

/-- Nothing is returned after an empty message. -/
theorem Handshake.whole (s : State) (hinv : Handshake s) (hlossless : NothingLost s) :
    ∀ m ∈ s.messages.dropLast, m.bytes ≠ [] := by
  obtain ⟨rest,t,hrest,hrun,-,hmessages,hall⟩ := hlossless
  have ht : Handshake t := by
    apply hinv.kept s t rest ?_ hrun
    intro e he
    rcases hrest e he with rfl | rfl <;> trivial
  have horder := ht.inOrder
  rw [hall, hmessages, List.take_length] at horder
  intro m hm hnil
  apply ht.last
  rw [horder, ← List.map_dropLast]
  exact List.mem_map.mpr ⟨m, hm, (Segment.stored_eq_nil_iff m).mpr hnil⟩

theorem Handshake.nothingLost_iff (s : State) (hinv : Handshake s) :
    NothingLost s ↔ ∀ m ∈ s.messages.dropLast, m.bytes ≠ [] := by
  constructor
  · exact hinv.whole s
  · intro hwhole
    obtain ⟨rest,t,hrest,hgoes,hreturn,hmessages,ht⟩ := handshake_returns s hinv (hinv.answers s hwhole)
    refine ⟨rest, t, hrest, hgoes, hreturn, hmessages, ?_⟩
    rw [ht.complete t hreturn, hmessages]

/-- In every state of a run without interruptions: the segment is not written
while it is being read; the strings returned are the messages in order, cut to
`SHM_SIZE - 1` bytes; all of them when no call is under way, all but the last
otherwise, and that one is in the segment or about to be copied there. Every
message gets returned if and only if none but the last is empty. -/
theorem read_data_in_order (shm : Segment) (events : List Event) (s : State)
    (huninterrupted : ∀ e ∈ events, Uninterrupted e)
    (hrun : run step { shm := shm } events = some s) :
    (s.reading → (∀ m, s.writer ≠ .copy m) ∧ ∀ e t, step s e = some t → t.shm = s.shm) ∧
      s.returned.map Shot.data = (s.messages.take s.returned.length).map
        (fun m => m.bytes.take (min m.bytes.length 4095)) ∧
      (s.writer = .idle → s.returned.length = s.messages.length) ∧
      s.messages.length ≤ s.returned.length+1 ∧
      (s.returned.length < s.messages.length → ∃ m, s.messages.getLast? = some m ∧
        (s.writer = .copy m ∨ str s.shm.bytes = m.bytes.take (min m.bytes.length 4095))) ∧
      (NothingLost s ↔ ∀ m ∈ s.messages.dropLast, m.bytes ≠ []) := by
  have hinv : Handshake s := (init_handshake shm).kept _ s events huninterrupted hrun
  have hledger := hinv.ledger
  refine ⟨?_, hinv.inOrder, hinv.complete s, ?_, ?_, hinv.nothingLost_iff s⟩
  · intro hreading
    have hbusy : s.reader.busy = 1 := by rcases hreading with h | h <;> rw [h, ReadPc.busy]
    have hcopy : ∀ m, s.writer ≠ .copy m := by
      intro m
      rw [(hinv.waits s hbusy).1]
      nofun
    exact ⟨hcopy, fun e t h => step_shm s t e hcopy h⟩
  · have htoken := hinv.token
    cases hwriter : s.writer <;> simp only [hwriter, WritePc.waiting, WritePc.unsent] at htoken hledger
    all_goals omega
  · intro hpending
    cases hwriter : s.writer with
    | idle => exact absurd (hinv.complete s hwriter) hpending.ne
    | copy m => exact ⟨m, hinv.current m hwriter, Or.inl rfl⟩
    | post | wait =>
      obtain ⟨m,hm,hstr⟩ := Option.map_eq_some_iff.mp (hinv.segment (by simp [hwriter]))
      exact ⟨m, hm, Or.inr hstr.symm⟩

-- "hi" was returned; the shorter "!" is in the segment and not posted yet
theorem read_data_in_order_two : ∃ s : State,
    run step { shm := Segment.cleared }
      [.call (some ⟨[104, 105], by decide⟩), .write, .write, .read, .read, .read, .write,
        .call (some ⟨[33], by decide⟩), .write] = some s ∧
    s.returned.map Shot.data = [[104, 105]] ∧ str s.shm.bytes = [33] ∧ NothingLost s := by
  obtain ⟨s,hrun⟩ : ∃ s, run step { shm := Segment.cleared }
      [.call (some ⟨[104, 105], by decide⟩), .write, .write, .read, .read, .read, .write,
        .call (some ⟨[33], by decide⟩), .write] = some s := ⟨_, rfl⟩
  obtain ⟨-,horder,-,-,hpending,hlossless⟩ :=
    read_data_in_order Segment.cleared _ s (by simp [Uninterrupted]) hrun
  have hmessages : s.messages = [⟨[104, 105], by decide⟩, ⟨[33], by decide⟩] := by
    cases hrun
    rfl
  have hreturned : s.returned.length = 1 := by
    cases hrun
    rfl
  have hwriter : s.writer = .post := by
    cases hrun
    rfl
  refine ⟨s, hrun, ?_, ?_, ?_⟩
  · rw [horder, hmessages, hreturned]
    rfl
  · obtain ⟨m,hm,hcopy | hstr⟩ := hpending (by simp [hmessages, hreturned])
    · rw [hwriter] at hcopy
      contradiction
    · simp only [hmessages, List.getLast?_cons_cons, List.getLast?_singleton, Option.some.injEq] at hm
      rw [hstr, ← hm]
      rfl
  · apply hlossless.mpr
    rw [hmessages]
    decide

/-- `main` breaks on the empty message, and "hi" is never read: its writer waits
for an acknowledgement that nobody will post. -/
theorem empty_message_ends_loop : ∃ s : State,
    run step { shm := Segment.cleared }
      [.call (some ⟨[], by decide⟩), .write, .write, .read, .read, .read, .write,
        .call (some ⟨[104, 105], by decide⟩), .write, .write] = some s ∧
    s.returned.map Shot.data = [[]] ∧ s.writer = .wait ∧ step s .write = none ∧
      step s .read = none ∧ ¬ NothingLost s := by
  obtain ⟨s,hrun⟩ : ∃ s, run step { shm := Segment.cleared }
      [.call (some ⟨[], by decide⟩), .write, .write, .read, .read, .read, .write,
        .call (some ⟨[104, 105], by decide⟩), .write, .write] = some s := ⟨_, rfl⟩
  have hinv : Handshake s :=
    (init_handshake Segment.cleared).kept _ s _ (by simp [Uninterrupted]) hrun
  have hmessages : s.messages = [⟨[], by decide⟩, ⟨[104, 105], by decide⟩] := by
    cases hrun
    rfl
  have hlost : ¬ NothingLost s := by
    rw [hinv.nothingLost_iff s, hmessages]
    decide
  cases hrun
  exact ⟨_, rfl, rfl, rfl, rfl, rfl, hlost⟩

end CppOperate.Shm

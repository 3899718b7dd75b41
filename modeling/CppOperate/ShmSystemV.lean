import CppOperate.CStrings
import CppOperate.StepRuns

/-! `send_message` of sender.c and `receive_messages` of receiver.cpp: a segment
and a counting semaphore, with nothing that tells the sender it was read. -/
namespace CppOperate.SystemV
open StepRuns CStrings

def shmSize : ℕ := 1024

-- the largest value of a System V semaphore
def semvmx : ℕ := 32767

/-- A string that fits the sender's `char message[SHM_SIZE]`. -/
structure Message extends CString where
  fits : bytes.length < shmSize
deriving DecidableEq, Repr

abbrev Segment := Buffer shmSize

namespace Segment

/-- `strcpy(shmaddr, message)` -/
def store (shm : Segment) (message : Message) : Segment where
  bytes := strcpy shm.bytes message.bytes
  size := by
    have hfits : message.bytes.length < shm.bytes.length := by
      rw [shm.size]
      exact message.fits
    rw [length_strcpy _ _ hfits, shm.size]
  terminated := by simp [strcpy]

/-- `memset(shmaddr, 0, SHM_SIZE)` -/
def clear (shm : Segment) : Segment where
  bytes := memset shm.bytes 0 shmSize
  size := by
    rw [length_memset _ _ _ shm.size.ge, shm.size]
  terminated := List.mem_append_left _ (List.mem_replicate.mpr ⟨by decide, rfl⟩)

-- the segment as the receiver creates it
def zeroed : Segment where
  bytes := List.replicate shmSize 0
  size := List.length_replicate
  terminated := List.mem_replicate.mpr ⟨by decide, rfl⟩

theorem str_clear (shm : Segment) : str (clear shm).bytes = [] := str_memset _ _ (by decide)

theorem str_store (shm : Segment) (message : Message) :
    str (store shm message).bytes = message.bytes :=
  str_strcpy _ _ message.noNul

end Segment

/-- The receiver between the steps of its loop. -/
inductive ReceivePc
  | wait
  | check
  | copy
  | process
  | clear
  | left
deriving DecidableEq, Repr

structure State where
  shm : Segment
  sem : ℕ := 0
  -- the sender is between `strcpy` and `semaphore_post`
  posting : Bool := false
  receiver : ReceivePc := .wait
  buffer : List UInt8 := []
  shouldExit : Bool := false
  -- history
  sent : List Message := []
  processed : List (List UInt8) := []

inductive Event
  | send (message : Message)
  | post
  | receive
  | signal
deriving DecidableEq, Repr

namespace State

/-- The steps of `receive_messages`. -/
def receiveNext (s : State) : Option State :=
  match s.receiver with
  -- `semaphore_wait` also returns when `should_exit` is set
  | .wait =>
    if s.shouldExit then some { s with receiver := .left }
    else if s.sem = 0 then none
    else some { s with sem := s.sem-1, receiver := .check }
  | .check => some { s with receiver := if s.shouldExit then .left else .copy }
  | .copy => some { s with buffer := str s.shm.bytes, receiver := .process }
  | .process => some { s with processed := s.processed ++ [s.buffer], receiver := .clear }
  | .clear => some { s with shm := Segment.clear s.shm,
                            receiver := if s.shouldExit then .left else .wait }
  | .left => none

end State

def step (s : State) : Event → Option State
  | .send message =>
    if s.posting then none
    else some { s with shm := Segment.store s.shm message, posting := true,
                       sent := s.sent ++ [message] }
  -- a `semop` that fails goes unnoticed
  | .post =>
    if s.posting then some { s with sem := if s.sem < semvmx then s.sem+1 else s.sem,
                                    posting := false }
    else none
  | .receive => s.receiveNext
  | .signal => some { s with shouldExit := true }

def Event.sends : Event → Bool
  | .send _ => true
  | .post | .receive | .signal => false

/-- The receiver will read the segment no more. -/
def State.leaving (s : State) : Prop :=
  s.receiver = .left ∨ s.shouldExit = true ∧ s.receiver ≠ .copy

/-- A message is copied only when the one before it was received and the segment
cleared after it, unless the receiver is leaving. -/
def Paced (s : State) (e : Event) : Prop :=
  e.sends → s.leaving ∨ s.sem = 0 ∧ s.receiver = .wait

instance (s : State) (e : Event) : Decidable (Paced s e) :=
  inferInstanceAs (Decidable (_ → (_ ∨ _ ∧ _) ∨ _ ∧ _))

theorem receive_cases (s t : State) (h : s.receiveNext = some t) :
    (s.receiver = .wait ∧ s.shouldExit = true ∧ t = { s with receiver := .left }) ∨
      (s.receiver = .wait ∧ 0 < s.sem ∧ t = { s with sem := s.sem-1, receiver := .check }) ∨
      (s.receiver = .check ∧ t = { s with receiver := if s.shouldExit then .left else .copy }) ∨
      (s.receiver = .copy ∧ t = { s with buffer := str s.shm.bytes, receiver := .process }) ∨
      (s.receiver = .process ∧
        t = { s with processed := s.processed ++ [s.buffer], receiver := .clear }) ∨
      (s.receiver = .clear ∧
        t = { s with shm := Segment.clear s.shm,
                     receiver := if s.shouldExit then .left else .wait }) := by
  unfold State.receiveNext at h
  split at h
  · rename_i hwait
    split_ifs at h with hexit hzero
    · cases h
      exact Or.inl ⟨hwait, hexit, rfl⟩
    · cases h
      exact Or.inr (Or.inl ⟨hwait, Nat.pos_of_ne_zero hzero, rfl⟩)
  · rename_i hcheck
    cases h
    exact Or.inr (Or.inr (Or.inl ⟨hcheck, rfl⟩))
  · rename_i hcopy
    cases h
    exact Or.inr (Or.inr (Or.inr (Or.inl ⟨hcopy, rfl⟩)))
  · rename_i hprocess
    cases h
    exact Or.inr (Or.inr (Or.inr (Or.inr (Or.inl ⟨hprocess, rfl⟩))))
  · rename_i hclear
    cases h
    exact Or.inr (Or.inr (Or.inr (Or.inr (Or.inr ⟨hclear, rfl⟩))))
  · contradiction

-- a message that was received but not processed, and the segment not yet cleared
def ReceivePc.holding : ReceivePc → ℕ
  | .check | .copy | .process => 1
  | .wait | .clear | .left => 0

def ReceivePc.clearing : ReceivePc → ℕ
  | .clear => 1
  | .wait | .check | .copy | .process | .left => 0

/-- At most one message is on its way, and none while the segment is cleared. -/
structure OnItsWay (s : State) : Prop where
  single : s.posting.toNat + s.sem + s.receiver.holding + s.receiver.clearing ≤ 1
  ledger : s.processed.length + s.posting.toNat + s.sem + s.receiver.holding = s.sent.length
  segment : 0 < s.posting.toNat + s.sem + s.receiver.holding → s.receiver ≠ .process →
    s.sent.getLast?.map (fun m => m.bytes) = some (str s.shm.bytes)

/-- What was processed, and the string about to be, are what was sent first; and
either the segment is read no more or the one message under way is intact. -/
structure Delivery (s : State) : Prop where
  inOrder : s.processed <+: s.sent.map fun m => m.bytes
  next : s.receiver = .process → s.processed ++ [s.buffer] <+: s.sent.map fun m => m.bytes
  phase : s.leaving ∨ OnItsWay s

theorem init_delivery (shm : Segment) : Delivery { shm := shm } := by
  refine ⟨List.prefix_rfl, by simp, Or.inr ?_⟩
  constructor <;> simp [ReceivePc.holding, ReceivePc.clearing]

theorem Delivery.send (s : State) (message : Message) (hinv : Delivery s)
    (hpaced : Paced s (.send message)) (hposting : s.posting = false) :
    Delivery { s with shm := Segment.store s.shm message, posting := true,
                      sent := s.sent ++ [message] } := by
  have hmore : (s.sent.map fun m => m.bytes) <+: (s.sent ++ [message]).map fun m => m.bytes := by
    rw [List.map_append]
    exact List.prefix_append _ _
  refine ⟨hinv.inOrder.trans hmore, fun hprocess => (hinv.next hprocess).trans hmore, ?_⟩
  rcases hpaced rfl with hleaving | ⟨hsem,hwait⟩
  · exact Or.inl hleaving
  rcases hinv.phase with hleaving | hway
  · exact Or.inl hleaving
  right
  have hledger := hway.ledger
  simp only [hposting, hsem, hwait, ReceivePc.holding, Bool.toNat_false] at hledger
  refine ⟨?_, ?_, ?_⟩
  · simp [hsem, hwait, ReceivePc.holding, ReceivePc.clearing]
  · simp only [hsem, hwait, ReceivePc.holding, Bool.toNat_true, List.length_append,
      List.length_singleton]
    omega
  · intro _ _
    rw [List.getLast?_concat, Option.map_some, Segment.str_store]

theorem Delivery.post (s : State) (hinv : Delivery s) (hposting : s.posting = true) :
    Delivery { s with sem := if s.sem < semvmx then s.sem+1 else s.sem, posting := false } := by
  refine ⟨hinv.inOrder, hinv.next, hinv.phase.imp_right ?_⟩
  intro hway
  have hsingle := hway.single
  have hledger := hway.ledger
  simp only [hposting, Bool.toNat_true] at hsingle hledger
  have hroom : s.sem < semvmx := by
    rw [semvmx]
    omega
  refine ⟨?_, ?_, ?_⟩
  · simp only [if_pos hroom, Bool.toNat_false]
    omega
  · simp only [if_pos hroom, Bool.toNat_false]
    omega
  · intro _ hprocess
    exact hway.segment (by rw [hposting, Bool.toNat_true]; omega) hprocess

/-- A receiver that is not leaving has a message to read. -/
theorem Delivery.onItsWay (s : State) (hinv : Delivery s) (hleft : s.receiver ≠ .left)
    (hreads : s.shouldExit = false ∨ s.receiver = .copy) : OnItsWay s := by
  rcases hinv.phase with (hgone | ⟨hexit,hcopy⟩) | hway
  · contradiction
  · rcases hreads with hstay | hreads
    · rw [hexit] at hstay
      contradiction
    · contradiction
  · exact hway

-- the segment holds the one message that is sent and not processed
theorem Delivery.copy (s : State) (hinv : Delivery s) (hreceiver : s.receiver = .copy) :
    Delivery { s with buffer := str s.shm.bytes, receiver := .process } := by
  have hway := hinv.onItsWay s (by rw [hreceiver]; simp) (Or.inr hreceiver)
  have hsingle := hway.single
  have hledger := hway.ledger
  have hlast := hway.segment (by rw [hreceiver, ReceivePc.holding]; omega)
    (by rw [hreceiver]; simp)
  simp only [hreceiver, ReceivePc.holding, ReceivePc.clearing] at hsingle hledger
  obtain ⟨rest,hrest⟩ := hinv.inOrder
  have hlen : rest.length = 1 := by
    have hlen := congrArg List.length hrest
    simp only [List.length_append, List.length_map] at hlen
    omega
  obtain ⟨last,rfl⟩ := List.length_eq_one_iff.mp hlen
  have hbuffer : last = str s.shm.bytes := by
    rw [← List.getLast?_map, ← hrest, List.getLast?_concat, Option.some.injEq] at hlast
    exact hlast
  refine ⟨hinv.inOrder, fun _ => ?_, Or.inr ⟨hsingle, hledger, fun _ h => absurd rfl h⟩⟩
  exact ⟨[], by rw [List.append_nil, ← hrest, hbuffer]⟩

theorem Delivery.process (s : State) (hinv : Delivery s) (hreceiver : s.receiver = .process) :
    Delivery { s with processed := s.processed ++ [s.buffer], receiver := .clear } := by
  refine ⟨hinv.next hreceiver, by simp, ?_⟩
  rcases hinv.phase with (hleft | ⟨hexit,-⟩) | hway
  · rw [hreceiver] at hleft
    contradiction
  · exact Or.inl (Or.inr ⟨hexit, by simp⟩)
  · have hsingle := hway.single
    have hledger := hway.ledger
    simp only [hreceiver, ReceivePc.holding, ReceivePc.clearing] at hsingle hledger
    refine Or.inr ⟨?_, ?_, ?_⟩
    · simp only [ReceivePc.holding, ReceivePc.clearing]
      omega
    · simp only [ReceivePc.holding, List.length_append, List.length_singleton]
      omega
    · intro hpos _
      simp only [ReceivePc.holding] at hpos
      omega

theorem Delivery.receiveNext (s t : State) (hinv : Delivery s) (h : s.receiveNext = some t) :
    Delivery t := by
  rcases receive_cases s t h with ⟨-,-,rfl⟩ | ⟨hwait,hpos,rfl⟩ | ⟨hcheck,rfl⟩ | ⟨hcopy,rfl⟩ |
    ⟨hprocess,rfl⟩ | ⟨hclear,rfl⟩
  · exact ⟨hinv.inOrder, by simp, Or.inl (Or.inl rfl)⟩
  · refine ⟨hinv.inOrder, by simp, ?_⟩
    rcases hinv.phase with (hleft | ⟨hexit,-⟩) | hway
    · rw [hwait] at hleft
      contradiction
    · exact Or.inl (Or.inr ⟨hexit, by simp⟩)
    · right
      have hsingle := hway.single
      have hledger := hway.ledger
      simp only [hwait, ReceivePc.holding, ReceivePc.clearing] at hsingle hledger
      refine ⟨?_, ?_, ?_⟩
      · simp only [ReceivePc.holding, ReceivePc.clearing]
        omega
      · simp only [ReceivePc.holding]
        omega
      · intro _ _
        exact hway.segment (by omega) (by rw [hwait]; decide)
  · cases hexit : s.shouldExit with
    | true => exact ⟨hinv.inOrder, by simp, Or.inl (Or.inl rfl)⟩
    | false =>
      have hway := hinv.onItsWay s (by rw [hcheck]; simp) (Or.inl hexit)
      have hsingle := hway.single
      have hledger := hway.ledger
      rw [hcheck] at hsingle hledger
      refine ⟨hinv.inOrder, by simp, Or.inr ⟨hsingle, hledger, fun _ _ => ?_⟩⟩
      exact hway.segment (by rw [hcheck, ReceivePc.holding]; omega) (by rw [hcheck]; decide)
  · exact hinv.copy s hcopy
  · exact hinv.process s hprocess
  · cases hexit : s.shouldExit with
    | true => exact ⟨hinv.inOrder, by simp, Or.inl (Or.inl rfl)⟩
    | false =>
      have hway := hinv.onItsWay s (by rw [hclear]; simp) (Or.inl hexit)
      have hsingle := hway.single
      have hledger := hway.ledger
      simp only [hclear, ReceivePc.holding, ReceivePc.clearing] at hsingle hledger
      refine ⟨hinv.inOrder, by simp, Or.inr ⟨?_, ?_, ?_⟩⟩
      · simp [ReceivePc.holding, ReceivePc.clearing]
        omega
      · simp [ReceivePc.holding]
        omega
      · intro hpos _
        simp [ReceivePc.holding] at hpos
        omega

theorem Delivery.step (s : State) (e : Event) (t : State) (hinv : Delivery s) (hpaced : Paced s e)
    (h : step s e = some t) : Delivery t := by
  cases e with
  | send message =>
    simp only [SystemV.step] at h
    split_ifs at h with hposting
    cases h
    exact hinv.send s message hpaced (by simpa using hposting)
  | post =>
    cases hposting : s.posting with
    | false => simp [SystemV.step, hposting] at h
    | true =>
      simp only [SystemV.step, hposting, if_true, Option.some.injEq] at h
      subst h
      exact hinv.post s hposting
  | receive => exact hinv.receiveNext s t h
  | signal =>
    cases h
    refine ⟨hinv.inOrder, hinv.next, ?_⟩
    rcases hinv.phase with hleaving | hway
    · exact Or.inl (hleaving.imp_right fun h => ⟨rfl, h.2⟩)
    · exact Or.inr ⟨hway.single, hway.ledger, hway.segment⟩

/-- In every run whose sends are paced the strings given to `process_message`
are a prefix of those sent. -/
theorem process_message_prefix (shm : Segment) (events : List Event) (s : State)
    (hpaced : Meets step Paced { shm := shm } events)
    (hrun : run step { shm := shm } events = some s) :
    s.processed <+: s.sent.map fun m => m.bytes :=
  (run_invariant_of_meets step Paced Delivery Delivery.step _ s events (init_delivery shm) hpaced
    hrun).inOrder

/-- An iteration that has a message to wait for. -/
theorem iteration (s : State) (hwait : s.receiver = .wait) (hexit : s.shouldExit = false)
    (hsem : 0 < s.sem) :
    Repeats step .receive s
      { s with sem := s.sem-1, buffer := str s.shm.bytes, shm := Segment.clear s.shm,
               processed := s.processed ++ [str s.shm.bytes], receiver := .wait } := by
  refine ⟨5, ?_⟩
  simp [List.replicate, run, step, State.receiveNext, hwait, hexit, hsem.ne']

/-- What is left of an iteration: it clears the segment. -/
theorem rest_of_iteration (s : State) (hwait : s.receiver ≠ .wait) (hleft : s.receiver ≠ .left)
    (hexit : s.shouldExit = false) :
    ∃ t, Repeats step .receive s t ∧ t.receiver = .wait ∧ t.shouldExit = false ∧ t.sem = s.sem ∧
      t.sent = s.sent ∧ str t.shm.bytes = [] ∧
      t.processed.length = s.processed.length+s.receiver.holding := by
  cases hreceiver : s.receiver with
  | wait => contradiction
  | check =>
    refine ⟨{ s with buffer := str s.shm.bytes, shm := Segment.clear s.shm,
                     processed := s.processed ++ [str s.shm.bytes], receiver := .wait },
      ⟨4, ?_⟩, rfl, hexit, rfl, rfl, Segment.str_clear _, ?_⟩
    · simp [List.replicate, run, step, State.receiveNext, hreceiver, hexit]
    · simp [ReceivePc.holding]
  | copy =>
    refine ⟨{ s with buffer := str s.shm.bytes, shm := Segment.clear s.shm,
                     processed := s.processed ++ [str s.shm.bytes], receiver := .wait },
      ⟨3, ?_⟩, rfl, hexit, rfl, rfl, Segment.str_clear _, ?_⟩
    · simp [List.replicate, run, step, State.receiveNext, hreceiver, hexit]
    · simp [ReceivePc.holding]
  | process =>
    refine ⟨{ s with shm := Segment.clear s.shm, processed := s.processed ++ [s.buffer],
                     receiver := .wait },
      ⟨2, ?_⟩, rfl, hexit, rfl, rfl, Segment.str_clear _, ?_⟩
    · simp [List.replicate, run, step, State.receiveNext, hreceiver, hexit]
    · simp [ReceivePc.holding]
  | clear =>
    refine ⟨{ s with shm := Segment.clear s.shm, receiver := .wait },
      ⟨1, ?_⟩, rfl, hexit, rfl, rfl, Segment.str_clear _, ?_⟩
    · simp [List.replicate, run, step, State.receiveNext, hreceiver, hexit]
    · simp [ReceivePc.holding]
  | left => contradiction

/-- A cleared segment is processed in the place of the last message. -/
theorem blank_not_prefix (s : State) (message : Message) (hwait : s.receiver = .wait)
    (hexit : s.shouldExit = false) (hsem : 0 < s.sem) (hblank : str s.shm.bytes = [])
    (hlen : s.processed.length+1 = s.sent.length) (hlast : s.sent.getLast? = some message)
    (hmessage : message.bytes ≠ []) :
    ∃ t, Repeats step .receive s t ∧ ¬ t.processed <+: t.sent.map fun m => m.bytes := by
  refine ⟨_, iteration s hwait hexit hsem, fun hprefix => hmessage ?_⟩
  have heq : s.processed ++ [str s.shm.bytes] = s.sent.map fun m => m.bytes :=
    hprefix.eq_of_length (by simp [hlen])
  have hend := congrArg List.getLast? heq
  rw [List.getLast?_concat, List.getLast?_map, hlast, hblank, Option.map_some] at hend
  exact (Option.some.inj hend).symm

/-- The condition on a send is exact as long as the receiver is not told to exit:
after any other one the receiver can go on to process a blank string. -/
theorem unpaced_not_prefix (s : State) (message : Message) (hinv : Delivery s)
    (hexit : s.shouldExit = false) (hposting : s.posting = false)
    (hmessage : message.bytes ≠ []) (hunpaced : ¬ Paced s (.send message)) :
    ∃ u t, run step s [.send message, .post] = some u ∧ Repeats step .receive u t ∧
      ¬ t.processed <+: t.sent.map fun m => m.bytes := by
  have hleft : s.receiver ≠ .left := fun h => hunpaced fun _ => Or.inl (Or.inl h)
  have hway := hinv.onItsWay s hleft (Or.inl hexit)
  have hsingle := hway.single
  have hledger := hway.ledger
  simp only [hposting, Bool.toNat_false] at hsingle hledger
  have hroom : s.sem < semvmx := by
    rw [semvmx]
    omega
  let u : State := { s with shm := Segment.store s.shm message, sem := s.sem+1,
                            sent := s.sent ++ [message], posting := false }
  have hu : run step s [.send message, .post] = some u := by
    simp [run, step, hposting, hroom, u]
  have hlast : u.sent.getLast? = some message := List.getLast?_concat
  have hsent : u.sent.length = s.sent.length+1 := List.length_append
  by_cases hwait : s.receiver = .wait
  · -- the message before is overwritten, and this one is read twice
    have hsem : s.sem ≠ 0 := fun h => hunpaced fun _ => Or.inr ⟨h, hwait⟩
    simp only [hwait, ReceivePc.holding] at hsingle hledger
    let v : State := { u with sem := s.sem, buffer := str u.shm.bytes, shm := Segment.clear u.shm,
                              processed := s.processed ++ [str u.shm.bytes], receiver := .wait }
    have hv : Repeats step .receive u v := iteration u hwait hexit (Nat.succ_pos _)
    have hvlen : v.processed.length+1 = v.sent.length := by
      simp only [v, hsent, List.length_append, List.length_singleton]
      omega
    obtain ⟨t,ht,hfalse⟩ := blank_not_prefix v message rfl hexit (Nat.pos_of_ne_zero hsem)
      (Segment.str_clear _) hvlen hlast hmessage
    exact ⟨u, t, hu, hv.trans _ ht, hfalse⟩
  · -- the message is cleared with the one before
    obtain ⟨v,hv,hvwait,hvexit,hvsem,hvsent,hblank,hvlen⟩ := rest_of_iteration u hwait hleft hexit
    have hbusy : s.receiver.holding+s.receiver.clearing = 1 := by
      cases hreceiver : s.receiver with
      | wait | left => contradiction
      | check | copy | process | clear => rfl
    have hlen : v.processed.length+1 = v.sent.length := by
      rw [hvlen, hvsent, hsent]
      change s.processed.length+s.receiver.holding+1 = s.sent.length+1
      omega
    have hvpos : 0 < v.sem := by
      rw [hvsem]
      exact Nat.succ_pos _
    obtain ⟨t,ht,hfalse⟩ := blank_not_prefix v message hvwait hvexit hvpos hblank hlen
      (hvsent ▸ hlast) hmessage
    exact ⟨u, t, hu, hv.trans _ ht, hfalse⟩

-- each message is received and cleared before the next one
theorem process_message_prefix_two : ∃ s : State,
    run step { shm := Segment.zeroed }
      [.send ⟨⟨[97], by decide⟩, by decide⟩, .post, .receive, .receive, .receive, .receive,
        .receive, .send ⟨⟨[98], by decide⟩, by decide⟩, .post, .receive, .receive, .receive,
        .receive] = some s ∧
    s.processed <+: s.sent.map (fun m => m.bytes) ∧ s.processed.length = 2 := by
  obtain ⟨s,hrun⟩ : ∃ s, run step { shm := Segment.zeroed }
      [.send ⟨⟨[97], by decide⟩, by decide⟩, .post, .receive, .receive, .receive, .receive,
        .receive, .send ⟨⟨[98], by decide⟩, by decide⟩, .post, .receive, .receive, .receive,
        .receive] = some s := ⟨_, rfl⟩
  have hprefix := process_message_prefix Segment.zeroed _ s (by decide +kernel) hrun
  refine ⟨s, hrun, hprefix, ?_⟩
  cases hrun
  rfl

/-- "b" is sent before the receiver has run, and "a" is never seen. -/
theorem message_overwritten : ∃ s : State,
    run step { shm := Segment.zeroed }
      [.send ⟨⟨[97], by decide⟩, by decide⟩, .post, .send ⟨⟨[98], by decide⟩, by decide⟩, .post,
        .receive, .receive, .receive, .receive] = some s ∧
    s.sent.map (fun m => m.bytes) = [[97], [98]] ∧ s.processed = [[98]] ∧
    ¬ s.processed <+: s.sent.map fun m => m.bytes := by
  obtain ⟨s,hrun⟩ : ∃ s, run step { shm := Segment.zeroed }
      [.send ⟨⟨[97], by decide⟩, by decide⟩, .post, .send ⟨⟨[98], by decide⟩, by decide⟩, .post,
        .receive, .receive, .receive, .receive] = some s := ⟨_, rfl⟩
  have hsent : s.sent.map (fun m => m.bytes) = [[97], [98]] := by
    cases hrun
    rfl
  have hprocessed : s.processed = [[98]] := by
    cases hrun
    rfl
  refine ⟨s, hrun, hsent, hprocessed, ?_⟩
  rw [hsent, hprocessed]
  decide

end CppOperate.SystemV

import CppOperate.CNumbers
import CppOperate.StepRuns
import Mathlib

/-! `sender` and `receiver` of thread_message.cpp: a queue, its mutex and a
condition variable on which only the receiver waits, for a message or for `stop`. -/
namespace CppOperate.Messages
open StepRuns CNumbers

/-- The `int` that `messages.push(i)` puts in the queue. -/
def message (i : ℕ) : ℤ := int32 i

inductive Thread
  | sender
  | receiver
deriving DecidableEq, Repr

inductive SenderPc
  -- before the test of the loop and the lock that follows it
  | loop (i : ℕ)
  | push (i : ℕ)
  | notifyOne (i : ℕ)
  | unlock (i : ℕ)
  | setStop
  | unlockStop
  | notifyAll
  | done
deriving DecidableEq, Repr

inductive ReceiverPc
  -- at the head of the loop, or woken up inside `wait`
  | lock
  | test
  -- the predicate was false, the receiver is not asleep yet
  | gap
  | blocked
  | check
  | front
  | unlock (msg : ℤ)
  -- works without the mutex
  | print (msg : ℤ)
  | leave
  | exit
deriving DecidableEq, Repr

namespace SenderPc

def holds : SenderPc → Bool
  | .push _ | .notifyOne _ | .unlock _ | .setStop | .unlockStop => true
  | .loop _ | .notifyAll | .done => false

def stopped : SenderPc → Bool
  | .unlockStop | .notifyAll | .done => true
  | .loop _ | .push _ | .notifyOne _ | .unlock _ | .setStop => false

/-- How many of the `n` messages were pushed. -/
def sent (n : ℕ) : SenderPc → ℕ
  | .loop i | .push i => i
  | .notifyOne i | .unlock i => i+1
  | .setStop | .unlockStop | .notifyAll | .done => n

def InRange (n : ℕ) : SenderPc → Prop
  | .loop i => i ≤ n
  | .push i | .notifyOne i | .unlock i => i < n
  | .setStop | .unlockStop | .notifyAll | .done => True

theorem sent_le (n : ℕ) (pc : SenderPc) (h : pc.InRange n) : pc.sent n ≤ n := by
  cases pc with
  | loop i => exact h
  | push i => exact Nat.le_of_lt h
  | notifyOne i => exact h
  | unlock i => exact h
  | setStop => exact le_rfl
  | unlockStop => exact le_rfl
  | notifyAll => exact le_rfl
  | done => exact le_rfl

-- the loop was left before `stop` is set
theorem sent_of_stopped (n : ℕ) (pc : SenderPc) (h : pc.stopped = true) : pc.sent n = n := by
  cases pc <;> first | rfl | contradiction

end SenderPc

namespace ReceiverPc

def holds : ReceiverPc → Bool
  | .test | .gap | .check | .front | .unlock _ | .leave => true
  | .lock | .blocked | .print _ | .exit => false

/-- The message popped from the queue and not yet printed. -/
def inHand : ReceiverPc → List ℤ
  | .unlock msg | .print msg => [msg]
  | .lock | .test | .gap | .blocked | .check | .front | .leave | .exit => []

/-- After a notification of the condition variable, or without one. -/
def woken (pc : ReceiverPc) : ReceiverPc := if pc = .blocked then .lock else pc

theorem woken_holds (pc : ReceiverPc) : pc.woken.holds = pc.holds := by
  cases pc <;> rfl

theorem woken_inHand (pc : ReceiverPc) : pc.woken.inHand = pc.inHand := by
  cases pc <;> rfl

theorem woken_ne_blocked (pc : ReceiverPc) : pc.woken ≠ .blocked := by
  unfold woken
  split_ifs with h
  · decide
  · exact h

end ReceiverPc

structure State where
  sender : SenderPc := .loop 0
  receiver : ReceiverPc := .lock
  -- who holds `mtx`
  owner : Option Thread := none
  messages : List ℤ := []
  stop : Bool := false
  -- history: what the receiver printed
  received : List ℤ := []
deriving DecidableEq, Repr

namespace State

/-- The next step of `sender`, for `n` messages. -/
def send (n : ℕ) (s : State) : Option State :=
  match s.sender with
  | .loop i =>
    if s.owner = none then
      some { s with sender := if i < n then .push i else .setStop, owner := some .sender }
    else none
  | .push i => some { s with sender := .notifyOne i, messages := s.messages ++ [message i] }
  | .notifyOne i => some { s with sender := .unlock i, receiver := s.receiver.woken }
  | .unlock i => some { s with sender := .loop (i+1), owner := none }
  | .setStop => some { s with sender := .unlockStop, stop := true }
  | .unlockStop => some { s with sender := .notifyAll, owner := none }
  -- the mutex is free again
  | .notifyAll => some { s with sender := .done, receiver := s.receiver.woken }
  | .done => none

/-- The next step of `receiver`. -/
def receive (s : State) : Option State :=
  match s.receiver with
  | .lock =>
    if s.owner = none then some { s with receiver := .test, owner := some .receiver } else none
  -- the predicate of `cv.wait`
  | .test => some { s with receiver := if s.messages ≠ [] ∨ s.stop then .check else .gap }
  -- falls asleep and gives the mutex back in one step
  | .gap => some { s with receiver := .blocked, owner := none }
  | .blocked => none
  | .check => some { s with receiver := if s.stop ∧ s.messages = [] then .leave else .front }
  | .front =>
    match s.messages with
    | [] => none
    | msg :: rest => some { s with receiver := .unlock msg, messages := rest }
  | .unlock msg => some { s with receiver := .print msg, owner := none }
  | .print msg => some { s with receiver := .lock, received := s.received ++ [msg] }
  -- the lock is released at the end of its scope
  | .leave => some { s with receiver := .exit, owner := none }
  | .exit => none

/-- What the receiver found under the mutex and nobody has changed since. -/
def Found (s : State) : Prop :=
  match s.receiver with
  | .gap => s.stop = false ∧ s.messages = []
  | .check => s.messages ≠ [] ∨ s.stop = true
  | .front => s.messages ≠ []
  | .leave | .exit => s.stop = true ∧ s.messages = []
  | .lock | .test | .blocked | .unlock _ | .print _ => True

end State

inductive Event
  | send
  | receive
  -- `wait` wakes up without a notification
  | spurious
deriving DecidableEq, Repr

def step (n : ℕ) (s : State) : Event → Option State
  | .send => s.send n
  | .receive => s.receive
  | .spurious => if s.receiver = .blocked then some { s with receiver := .lock } else none

structure Inv (n : ℕ) (s : State) : Prop where
  sender : s.owner = some .sender ↔ s.sender.holds = true
  receiver : s.owner = some .receiver ↔ s.receiver.holds = true
  range : s.sender.InRange n
  ledger : (List.range (s.sender.sent n)).map message =
    s.received ++ (s.receiver.inHand ++ s.messages)
  stop : s.stop = s.sender.stopped
  found : s.Found
  -- the sender has a notification to make before it is done
  blocked : s.receiver = .blocked → s.sender ≠ .done

theorem init_inv (n : ℕ) : Inv n {} := by
  refine ⟨?_, ?_, ?_, ?_, rfl, trivial, ?_⟩
  · simp [SenderPc.holds]
  · simp [ReceiverPc.holds]
  · exact Nat.zero_le n
  · rfl
  · intro h
    contradiction

/-- The sender has the mutex: the receiver is outside of its critical sections. -/
theorem Inv.outside (n : ℕ) (s : State) (hinv : Inv n s) (h : s.sender.holds = true) :
    s.receiver.holds = false := by
  have howner := hinv.sender.mpr h
  rw [← Bool.not_eq_true, ← hinv.receiver, howner]
  decide

/-- Outside of them a change of the queue or of `stop` concerns only a receiver
that has left its loop. -/
theorem found_of_outside (t : State) (h : t.receiver.holds = false)
    (hexit : t.receiver = .exit → t.stop = true ∧ t.messages = []) : t.Found := by
  unfold State.Found
  cases hpc : t.receiver
  case exit => exact hexit hpc
  all_goals
    rw [hpc] at h
    trivial

/-- A notification changes nothing but that a blocked receiver runs again. -/
theorem found_woken (s t : State) (h : s.Found) (hreceiver : t.receiver = s.receiver.woken)
    (hstop : t.stop = s.stop) (hmessages : t.messages = s.messages) : t.Found := by
  unfold State.Found at h ⊢
  rw [hreceiver, hstop, hmessages]
  cases hpc : s.receiver <;> rw [hpc] at h <;> exact h

section sender
variable (n : ℕ) (s : State) (pc : SenderPc) (hinv : Inv n s) (hrange : pc.InRange n)
  (hsent : pc.sent n = s.sender.sent n) (hstop : pc.stopped = s.sender.stopped) (hdone : pc ≠ .done)
include hinv hrange hsent hstop

/-- The sender notifies: whatever comes after it, the receiver is not blocked. -/
theorem Inv.notify (hholds : pc.holds = s.sender.holds) :
    Inv n { s with sender := pc, receiver := s.receiver.woken } := by
  refine ⟨?_, ?_, hrange, ?_, ?_, ?_, ?_⟩
  · rw [hinv.sender, hholds]
  · rw [hinv.receiver, ReceiverPc.woken_holds]
  · rw [hsent, ReceiverPc.woken_inHand, hinv.ledger]
  · rw [hinv.stop, hstop]
  · exact found_woken s _ hinv.found rfl rfl rfl
  · intro hblocked
    exact absurd hblocked (ReceiverPc.woken_ne_blocked s.receiver)

include hdone

theorem Inv.senderLocks (hfree : s.owner = none) (hholds : pc.holds = true) :
    Inv n { s with sender := pc, owner := some .sender } := by
  have hreceiver := hinv.receiver
  refine ⟨?_, ?_, hrange, ?_, ?_, hinv.found, fun _ => hdone⟩
  · simp [hholds]
  · simp [← hreceiver, hfree]
  · rw [hsent, hinv.ledger]
  · rw [hinv.stop, hstop]

theorem Inv.senderUnlocks (hheld : s.sender.holds = true) (hholds : pc.holds = false) :
    Inv n { s with sender := pc, owner := none } := by
  refine ⟨?_, ?_, hrange, ?_, ?_, hinv.found, fun _ => hdone⟩
  · simp [hholds]
  · simp [hinv.outside n s hheld]
  · rw [hsent, hinv.ledger]
  · rw [hinv.stop, hstop]

end sender

theorem Inv.send (n : ℕ) (s t : State) (hinv : Inv n s) (h : s.send n = some t) : Inv n t := by
  have hsender := hinv.sender
  have hreceiver := hinv.receiver
  have hrange := hinv.range
  have hledger := hinv.ledger
  have hstop := hinv.stop
  have houtside := hinv.outside n s
  unfold State.send at h
  cases hpc : s.sender with
  | loop i =>
    rw [hpc] at hrange
    simp only [hpc] at h
    split_ifs at h with hfree hi
    · cases h
      exact hinv.senderLocks n s (.push i) hi (by rw [hpc]; rfl) (by rw [hpc]; rfl) (by simp) hfree rfl
    · cases h
      have hall : n = i := Nat.le_antisymm (by omega) hrange
      exact hinv.senderLocks n s .setStop trivial (by rw [hpc]; exact hall) (by rw [hpc]; rfl)
        (by simp) hfree rfl
  | push i =>
    rw [hpc] at hsender hrange hledger hstop houtside
    simp only [hpc, Option.some.injEq] at h
    subst h
    refine ⟨hsender, hreceiver, hrange, ?_, hstop, ?_, ?_⟩
    · calc
        (List.range (i+1)).map message = (List.range i).map message ++ [message i] := by
          rw [List.range_succ, List.map_append, List.map_singleton]
        _ = s.received ++ (s.receiver.inHand ++ s.messages) ++ [message i] := by
          rw [← hledger, SenderPc.sent]
        _ = s.received ++ (s.receiver.inHand ++ (s.messages ++ [message i])) := by
          simp only [List.append_assoc]
    · refine found_of_outside _ ?_ fun hexit => ?_
      · exact houtside rfl
      · have hfound := hinv.found
        simp only at hexit
        simp only [State.Found, hexit, hstop, SenderPc.stopped] at hfound
        exact absurd hfound.1 (by decide)
    · intro _ h
      contradiction
  | notifyOne i =>
    rw [hpc] at hrange
    simp only [hpc, Option.some.injEq] at h
    subst h
    exact hinv.notify n s (.unlock i) hrange (by rw [hpc]; rfl) (by rw [hpc]; rfl) (by rw [hpc]; rfl)
  | unlock i =>
    rw [hpc] at hrange
    simp only [hpc, Option.some.injEq] at h
    subst h
    exact hinv.senderUnlocks n s (.loop (i+1)) hrange (by rw [hpc]; rfl) (by rw [hpc]; rfl) (by simp)
      (by rw [hpc]; rfl) rfl
  | setStop =>
    rw [hpc] at hsender hrange hledger houtside
    simp only [hpc, Option.some.injEq] at h
    subst h
    refine ⟨hsender, hreceiver, trivial, hledger, rfl, ?_, ?_⟩
    · refine found_of_outside _ ?_ fun hexit => ?_
      · exact houtside rfl
      · have hfound := hinv.found
        simp only at hexit
        simp only [State.Found, hexit] at hfound
        exact ⟨rfl, hfound.2⟩
    · intro _ h
      contradiction
  | unlockStop =>
    simp only [hpc, Option.some.injEq] at h
    subst h
    exact hinv.senderUnlocks n s .notifyAll trivial (by rw [hpc]; rfl) (by rw [hpc]; rfl) (by simp)
      (by rw [hpc]; rfl) rfl
  | notifyAll =>
    simp only [hpc, Option.some.injEq] at h
    subst h
    exact hinv.notify n s .done trivial (by rw [hpc]; rfl) (by rw [hpc]; rfl) (by rw [hpc]; rfl)
  | done =>
    simp only [hpc] at h
    contradiction

/-- The receiver has the mutex: the sender is outside of its critical sections. -/
theorem Inv.sender_outside (n : ℕ) (s : State) (hinv : Inv n s) (h : s.receiver.holds = true) :
    s.sender.holds = false := by
  have howner := hinv.receiver.mpr h
  rw [← Bool.not_eq_true, ← hinv.sender, howner]
  decide

section receiver
variable (n : ℕ) (s : State) (pc : ReceiverPc) (hinv : Inv n s) (hhand : pc.inHand = s.receiver.inHand)
include hinv hhand

/-- The receiver goes on and keeps the mutex, or stays without it. -/
theorem Inv.goto (hholds : pc.holds = s.receiver.holds) (hblocked : pc ≠ .blocked)
    (hfound : State.Found { s with receiver := pc }) : Inv n { s with receiver := pc } := by
  refine { hinv with receiver := ?_, ledger := ?_, found := hfound, blocked := ?_ }
  · rw [hinv.receiver, hholds]
  · rw [hhand, hinv.ledger]
  · exact fun h => absurd h hblocked

theorem Inv.receiverUnlocks (hheld : s.receiver.holds = true) (hholds : pc.holds = false)
    (hblocked : pc = .blocked → s.sender ≠ .done)
    (hfound : State.Found { s with receiver := pc, owner := none }) :
    Inv n { s with receiver := pc, owner := none } := by
  refine { hinv with sender := ?_, receiver := ?_, ledger := ?_, found := hfound,
                     blocked := hblocked }
  · simp [hinv.sender_outside n s hheld]
  · simp [hholds]
  · rw [hhand, hinv.ledger]

end receiver

theorem Inv.receive (n : ℕ) (s t : State) (hinv : Inv n s) (h : s.receive = some t) : Inv n t := by
  have hsender := hinv.sender
  have hreceiver := hinv.receiver
  have hledger := hinv.ledger
  have hfound := hinv.found
  unfold State.receive at h
  cases hpc : s.receiver with
  | lock =>
    rw [hpc] at hledger
    simp only [hpc] at h
    split_ifs at h with hfree
    cases h
    refine { hinv with sender := ?_, receiver := ?_, ledger := hledger, found := trivial,
                       blocked := nofun }
    · simp [← hsender, hfree]
    · simp [ReceiverPc.holds]
  | test =>
    simp only [hpc, Option.some.injEq] at h
    subst h
    by_cases hready : s.messages ≠ [] ∨ s.stop = true
    · rw [if_pos hready]
      exact hinv.goto n s .check (by rw [hpc]; rfl) (by rw [hpc]; rfl) (by simp) hready
    · rw [if_neg hready]
      rw [not_or, not_not, Bool.not_eq_true] at hready
      exact hinv.goto n s .gap (by rw [hpc]; rfl) (by rw [hpc]; rfl) (by simp) hready.symm
  | gap =>
    simp only [hpc, Option.some.injEq] at h
    simp only [State.Found, hpc] at hfound
    subst h
    refine hinv.receiverUnlocks n s .blocked (by rw [hpc]; rfl) (by rw [hpc]; rfl) rfl ?_ trivial
    -- `stop` is not set, so `notify_all` is still to come
    intro _ hdone
    have hstop := hinv.stop
    rw [hfound.1, hdone] at hstop
    contradiction
  | blocked =>
    simp only [hpc] at h
    contradiction
  | check =>
    simp only [hpc, Option.some.injEq] at h
    simp only [State.Found, hpc] at hfound
    subst h
    by_cases hend : s.stop = true ∧ s.messages = []
    · rw [if_pos hend]
      exact hinv.goto n s .leave (by rw [hpc]; rfl) (by rw [hpc]; rfl) (by simp) hend
    · rw [if_neg hend]
      have hsome : s.messages ≠ [] := by
        rcases hfound with hsome | hstop
        · exact hsome
        · exact fun hnil => hend ⟨hstop, hnil⟩
      exact hinv.goto n s .front (by rw [hpc]; rfl) (by rw [hpc]; rfl) (by simp) hsome
  | front =>
    rw [hpc] at hreceiver hledger
    simp only [hpc] at h
    cases hmessages : s.messages with
    | nil =>
      rw [hmessages] at h
      contradiction
    | cons msg rest =>
      rw [hmessages] at h hledger
      cases h
      exact { hinv with receiver := hreceiver, ledger := hledger, found := trivial, blocked := nofun }
  | unlock msg =>
    simp only [hpc, Option.some.injEq] at h
    subst h
    exact hinv.receiverUnlocks n s (.print msg) (by rw [hpc]; rfl) (by rw [hpc]; rfl) rfl nofun trivial
  | print msg =>
    rw [hpc] at hreceiver hledger
    simp only [hpc, Option.some.injEq] at h
    subst h
    refine { hinv with receiver := hreceiver, ledger := ?_, found := trivial, blocked := nofun }
    calc
      (List.range (s.sender.sent n)).map message = s.received ++ ([msg] ++ s.messages) := hledger
      _ = s.received ++ [msg] ++ ([] ++ s.messages) := by
        rw [List.nil_append, List.append_assoc]
  | leave =>
    simp only [hpc, Option.some.injEq] at h
    simp only [State.Found, hpc] at hfound
    subst h
    exact hinv.receiverUnlocks n s .exit (by rw [hpc]; rfl) (by rw [hpc]; rfl) rfl nofun hfound
  | exit =>
    simp only [hpc] at h
    contradiction

theorem Inv.step (n : ℕ) (s : State) (e : Event) (t : State) (hinv : Inv n s)
    (h : step n s e = some t) : Inv n t := by
  cases e with
  | send => exact hinv.send n s t h
  | receive => exact hinv.receive n s t h
  | spurious =>
    simp only [Messages.step] at h
    split_ifs at h with hblocked
    cases h
    exact hinv.goto n s .lock (by rw [hblocked]; rfl) (by rw [hblocked]; rfl) (by simp) trivial

-- the queue holds the numbers themselves as long as they are `int`s
theorem message_map (n : ℕ) (h : n ≤ 2^31) :
    (List.range n).map message = (List.range n).map fun i : ℕ => (i : ℤ) := by
  apply List.map_congr_left
  intro i hi
  rw [List.mem_range] at hi
  exact int32_natCast i (by omega)

/-- A receiver that leaves its loop has found `stop` and an empty queue. -/
theorem Inv.complete (n : ℕ) (s : State) (hinv : Inv n s)
    (hleft : s.receiver = .leave ∨ s.receiver = .exit) :
    s.stop = true ∧ s.received = (List.range n).map message := by
  have hledger := hinv.ledger
  have hfound := hinv.found
  have hend : s.stop = true ∧ s.messages = [] ∧ s.receiver.inHand = [] := by
    rcases hleft with hpc | hpc
    all_goals
      simp only [State.Found, hpc] at hfound
      exact ⟨hfound.1, hfound.2, by rw [hpc]; rfl⟩
  obtain ⟨hstop,hmessages,hhand⟩ := hend
  have hall : s.sender.sent n = n := s.sender.sent_of_stopped n (hinv.stop ▸ hstop)
  rw [hmessages, hhand, hall, List.append_nil, List.append_nil] at hledger
  exact ⟨hstop, hledger.symm⟩

/-- What the receiver has printed is a prefix of the messages, it has left its
loop only after `stop` with all of them printed, and it does not sleep once the
sender is done. -/
theorem receiver_in_order (n : ℕ) (events : List Event) (s : State)
    (hrun : run (step n) {} events = some s) :
    s.received <+: (List.range n).map message ∧
      (n ≤ 2^31 → s.received <+: (List.range n).map fun i : ℕ => (i : ℤ)) ∧
      (s.receiver = .leave ∨ s.receiver = .exit →
        s.stop = true ∧ s.received = (List.range n).map message) ∧
      ¬ (s.sender = .done ∧ s.receiver = .blocked) := by
  have hinv : Inv n s := run_invariant (step n) (Inv n) (Inv.step n) _ s events (init_inv n) hrun
  have hsent : List.range (s.sender.sent n) <+: List.range n := by
    have htake := List.take_prefix (s.sender.sent n) (List.range n)
    rwa [List.take_range, Nat.min_eq_left (s.sender.sent_le n hinv.range)] at htake
  have hreceived : s.received <+: (List.range n).map message := by
    calc
      s.received <+: s.received ++ (s.receiver.inHand ++ s.messages) := List.prefix_append _ _
      _ = (List.range (s.sender.sent n)).map message := hinv.ledger.symm
      _ <+: (List.range n).map message := hsent.map message
  refine ⟨hreceived, ?_, hinv.complete n s, ?_⟩
  · intro hn
    rwa [message_map n hn] at hreceived
  · rintro ⟨hdone,hblocked⟩
    exact hinv.blocked hblocked hdone

/-- The receiver falls asleep, and the second message is pushed while it has the
first one in its hand. -/
def twoMessages : List Event :=
  [(3, .receive), (4, .send), (5, .receive), (8, .send), (11, .receive)].flatMap
    fun (k, e) => List.replicate k e

theorem receiver_in_order_two : ∃ s, run (step 2) {} twoMessages = some s ∧
    s.sender = .done ∧ s.receiver = .exit ∧ s.stop = true ∧ s.received = [0, 1] := by
  have hrun : run (step 2) {} twoMessages = some ⟨.done, .exit, none, [], true, [0, 1]⟩ := by
    decide +kernel
  obtain ⟨hstop,hall⟩ := (receiver_in_order 2 _ _ hrun).2.2.1 (Or.inr rfl)
  exact ⟨_, hrun, rfl, rfl, hstop, hall⟩

section ends

/-- The steps of `sender` up to its return. -/
def SenderPc.stepsLeft (n : ℕ) : SenderPc → ℕ
  | .loop i => 4*(n-i)+4
  | .push i => 4*(n-i)+3
  | .notifyOne i => 4*(n-i)+2
  | .unlock i => 4*(n-i)+1
  | .setStop => 3
  | .unlockStop => 2
  | .notifyAll => 1
  | .done => 0

/-- The steps of `receiver` until it sleeps, takes a message or returns. -/
def ReceiverPc.stepsLeft : ReceiverPc → ℕ
  | .unlock _ => 6
  | .print _ => 5
  | .lock => 4
  | .test => 3
  | .check => 2
  | .gap | .front | .leave => 1
  | .blocked | .exit => 0

theorem ReceiverPc.stepsLeft_woken (pc : ReceiverPc) : pc.woken.stepsLeft ≤ pc.stepsLeft+4 := by
  unfold woken
  split_ifs
  · exact Nat.le_add_left _ _
  · exact Nat.le_add_right _ _

/-- A bound on the steps of both: each step of the sender may give the receiver a
message or wake it up. -/
def State.remaining (n : ℕ) (s : State) : ℕ :=
  7*s.sender.stepsLeft n+s.receiver.stepsLeft+6*s.messages.length

theorem send_remaining (n : ℕ) (s t : State) (hinv : Inv n s) (h : s.send n = some t) :
    t.remaining n < s.remaining n := by
  have hrange := hinv.range
  have hwoken := s.receiver.stepsLeft_woken
  unfold State.send at h
  unfold State.remaining
  cases hpc : s.sender
  case done =>
    simp only [hpc] at h
    contradiction
  case loop i =>
    simp only [hpc] at h
    split_ifs at h
    all_goals
      cases h
      simp only [SenderPc.stepsLeft]
      omega
  all_goals
    simp only [hpc, Option.some.injEq] at h
    simp only [hpc, SenderPc.InRange] at hrange
    subst h
    simp only [SenderPc.stepsLeft, List.length_append, List.length_singleton]
    omega

theorem receive_remaining (n : ℕ) (s t : State) (h : s.receive = some t) :
    t.remaining n < s.remaining n := by
  unfold State.receive at h
  unfold State.remaining
  cases hpc : s.receiver
  case blocked =>
    simp only [hpc] at h
    contradiction
  case exit =>
    simp only [hpc] at h
    contradiction
  case lock =>
    simp only [hpc] at h
    split_ifs at h
    cases h
    simp only [ReceiverPc.stepsLeft]
    omega
  case front =>
    simp only [hpc] at h
    cases hmessages : s.messages with
    | nil =>
      rw [hmessages] at h
      contradiction
    | cons msg rest =>
      rw [hmessages] at h
      cases h
      simp only [ReceiverPc.stepsLeft, List.length_cons]
      omega
  -- the tests go one way or the other
  case test =>
    simp only [hpc, Option.some.injEq] at h
    subst h
    split_ifs <;> simp only [ReceiverPc.stepsLeft] <;> omega
  case check =>
    simp only [hpc, Option.some.injEq] at h
    subst h
    split_ifs <;> simp only [ReceiverPc.stepsLeft] <;> omega
  all_goals
    simp only [hpc, Option.some.injEq] at h
    subst h
    simp only [ReceiverPc.stepsLeft]
    omega

/-- Until both have returned one of the threads has a next step. -/
theorem Inv.progress (n : ℕ) (s : State) (hinv : Inv n s)
    (hends : ¬ (s.sender = .done ∧ s.receiver = .exit)) :
    (∃ t, s.send n = some t) ∨ ∃ t, s.receive = some t := by
  by_cases hsends : s.sender.holds = true
  · -- inside its critical section the sender goes on
    left
    unfold State.send
    cases hpc : s.sender <;> rw [hpc] at hsends <;> first | contradiction | exact ⟨_, rfl⟩
  by_cases hreceives : s.receiver.holds = true
  · right
    have hfound := hinv.found
    unfold State.receive
    cases hpc : s.receiver
    case front =>
      simp only [State.Found, hpc] at hfound
      obtain ⟨msg,rest,hmessages⟩ := List.exists_cons_of_ne_nil hfound
      exact ⟨_, by simp only [hmessages]; rfl⟩
    all_goals
      rw [hpc] at hreceives
      first | contradiction | exact ⟨_, rfl⟩
  -- the mutex is free
  have hfree : s.owner = none := by
    cases howner : s.owner with
    | none => rfl
    | some w =>
      cases w with
      | sender => exact absurd (hinv.sender.mp howner) hsends
      | receiver => exact absurd (hinv.receiver.mp howner) hreceives
  by_cases hdone : s.sender = .done
  · right
    unfold State.receive
    cases hpc : s.receiver
    case lock => exact ⟨_, if_pos hfree⟩
    case print msg => exact ⟨_, rfl⟩
    case blocked => exact absurd hdone (hinv.blocked hpc)
    case exit => exact absurd ⟨hdone, hpc⟩ hends
    all_goals
      rw [hpc] at hreceives
      exact absurd rfl hreceives
  · left
    unfold State.send
    cases hpc : s.sender
    case loop i => exact ⟨_, if_pos hfree⟩
    case notifyAll => exact ⟨_, rfl⟩
    case done => exact absurd hpc hdone
    all_goals
      rw [hpc] at hsends
      exact absurd rfl hsends

/-- From every state of every run the two threads return after finitely many steps
of their own, with all messages received. -/
theorem threads_return (n : ℕ) (events : List Event) (s : State)
    (hrun : run (step n) {} events = some s) :
    ∃ rest t, run (step n) s rest = some t ∧ rest.length ≤ s.remaining n ∧
      t.sender = .done ∧ t.receiver = .exit ∧ t.received = (List.range n).map message := by
  generalize hmeasure : s.remaining n = k
  induction k using Nat.strong_induction_on generalizing s events with
  | _ k ih =>
    have hinv : Inv n s := run_invariant (step n) (Inv n) (Inv.step n) _ s events (init_inv n) hrun
    by_cases hends : s.sender = .done ∧ s.receiver = .exit
    · exact ⟨[], s, rfl, Nat.zero_le _, hends.1, hends.2, (hinv.complete n s (Or.inr hends.2)).2⟩
    · obtain ⟨e,u,hu,hless⟩ : ∃ e u, step n s e = some u ∧ u.remaining n < s.remaining n := by
        rcases hinv.progress n s hends with ⟨u,hu⟩ | ⟨u,hu⟩
        · exact ⟨.send, u, hu, send_remaining n s u hinv hu⟩
        · exact ⟨.receive, u, hu, receive_remaining n s u hu⟩
      have hnext : run (step n) {} (events ++ [e]) = some u :=
        (run_snoc_iff (step n) _ _ _ _).mpr ⟨s, hrun, hu⟩
      obtain ⟨rest,t,hrest,hlen,hreturned⟩ := ih _ (hmeasure ▸ hless) (events ++ [e]) u hnext rfl
      refine ⟨e :: rest, t, (run_cons_iff (step n) _ _ _ _).mpr ⟨u, hu, hrest⟩, ?_, hreturned⟩
      rw [List.length_cons]
      omega

/-- The first message is pushed and the receiver is awake. -/
theorem threads_return_two : ∃ s rest t,
    run (step 2) {} [.receive, .receive, .receive, .send, .send] = some s ∧
      run (step 2) s rest = some t ∧ rest.length ≤ s.remaining 2 ∧
      t.sender = .done ∧ t.receiver = .exit ∧ t.received = (List.range 2).map message := by
  have hsome : (run (step 2) {} [.receive, .receive, .receive, .send, .send]).isSome := by
    decide +kernel
  obtain ⟨s,hs⟩ := Option.isSome_iff_exists.mp hsome
  obtain ⟨rest,t,ht⟩ := threads_return 2 _ s hs
  exact ⟨s, rest, t, hs, ht⟩

end ends

end CppOperate.Messages

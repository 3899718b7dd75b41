import CppOperate.LogFifo
import Mathlib

/-! `salof_fifo` as a single caller sees it: a queue of bytes with a capacity and a
semaphore that lets as many reads through as there were writes, and what
`salof_fifo_read_able` says about it. -/
namespace CppOperate.Log
open Fifo

/-- `struct salof_fifo` between two calls: the mutex is free. -/
structure SalofFifo where
  fifo : Fifo
  sem : ℕ

/-- `salof_sem_post`. -/
def semPost (sem : ℕ) : ℕ := if sem < semValueMax then sem+1 else sem

/-- `salof_fifo_write`; `none` is an access outside of the two buffers. -/
def salofFifoWrite (s : SalofFifo) (buff : List UInt8) (len : UInt32) :
    Option (SalofFifo × UInt32) :=
  if len = 0 then some (s, 0)
  else (s.fifo.put buff len).map fun r => (⟨r.1, semPost s.sem⟩, r.2)

/-- What becomes of a `salof_fifo_read`. -/
inductive ReadCall
  -- in `salof_sem_pend`
  | waits
  -- the queue and the caller's memory afterwards, and the number of bytes read
  | returns (s : SalofFifo) (buff : List UInt8) (n : UInt32)

/-- `salof_fifo_read`; `none` as for `salof_fifo_write`. -/
def salofFifoRead (s : SalofFifo) (buff : List UInt8) (len : UInt32) : Option ReadCall :=
  if s.sem = 0 then some .waits
  else (s.fifo.fetch buff len).map fun r => .returns ⟨r.1, s.sem-1⟩ r.2.1 r.2.2

/-- A call on the queue. The buffer of a read has the length asked for. -/
inductive FifoOp
  | write (buff : List UInt8)
  | read (len : ℕ)

/-- What a call returns; a read that finds no post does not. -/
inductive Answer
  | wrote (n : ℕ)
  | got (bytes : List UInt8)
  | waits
deriving DecidableEq

/-- The lengths of the source are `unsigned int` and passed on as `int`. -/
def FifoOp.InRange : FifoOp → Prop
  | .write buff => buff.length < 2^31
  | .read len => len < 2^31

/-- A call on the circular buffer; `none` is an access outside of it. -/
def SalofFifo.exec (s : SalofFifo) : FifoOp → Option (SalofFifo × Answer)
  | .write buff =>
    (salofFifoWrite s buff (UInt32.ofNat buff.length)).map fun r => (r.1, .wrote r.2.toNat)
  | .read len =>
    (salofFifoRead s (List.replicate len 0) (UInt32.ofNat len)).map fun
      | .waits => (s, .waits)
      | .returns t buff n => (t, .got (buff.take n.toNat))

/-- Bytes that wait to be read, and how many reads may go on. -/
structure ByteQueue where
  bytes : List UInt8 := []
  posts : ℕ := 0

/-- The same call on a queue with room for `cap` bytes. -/
def ByteQueue.exec (cap : ℕ) (q : ByteQueue) : FifoOp → ByteQueue × Answer
  | .write buff =>
    let n := min buff.length (cap-q.bytes.length)
    (⟨q.bytes ++ buff.take n, if buff = [] then q.posts else semPost q.posts⟩, .wrote n)
  | .read len =>
    if q.posts = 0 then (q, .waits)
    else (⟨q.bytes.drop len, q.posts-1⟩, .got (q.bytes.take len))

/-- A sequence of calls of one thread with all answers. A read that waits is its last. -/
def SalofFifo.execAll (s : SalofFifo) : List FifoOp → Option (SalofFifo × List Answer)
  | [] => some (s, [])
  | op :: ops => (s.exec op).bind fun r =>
    if r.2 = .waits then some (r.1, [.waits])
    else (r.1.execAll ops).map fun rs => (rs.1, r.2 :: rs.2)

def ByteQueue.execAll (cap : ℕ) (q : ByteQueue) : List FifoOp → ByteQueue × List Answer
  | [] => (q, [])
  | op :: ops =>
    let r := q.exec cap op
    if r.2 = .waits then (r.1, [.waits])
    else
      let rs := r.1.execAll cap ops
      (rs.1, r.2 :: rs.2)

/-- The bytes an answer hands out. -/
def Answer.count : Answer → ℕ
  | .got bytes => bytes.length
  | .wrote _ | .waits => 0

/-- The circular buffer stands for the queue. -/
structure Represents (s : SalofFifo) (q : ByteQueue) : Prop where
  stores : s.fifo.Stores q.bytes []
  sem : s.sem = q.posts

theorem represents_create {malloc : ∀ n : ℕ, Option (List.Vector UInt8 n)}
    {mutexOk semOk : Bool} {size : UInt32} {f : Fifo}
    (hf : salofFifoCreate malloc mutexOk semOk size = some f) : Represents ⟨f, 0⟩ {} :=
  ⟨Stores.of_create hf, rfl⟩

theorem write_refines (s : SalofFifo) (q : ByteQueue) (h : Represents s q) (buff : List UInt8)
    (hbuff : buff.length < 2^31) :
    ∃ t, s.exec (.write buff) = some (t, (q.exec s.fifo.size.toNat (.write buff)).2) ∧
      t.fifo.size = s.fifo.size ∧ t.fifo.outPos = s.fifo.outPos ∧
      Represents t (q.exec s.fifo.size.toNat (.write buff)).1 := by
  have hlen : (UInt32.ofNat buff.length).toNat = buff.length := by
    rw [UInt32.toNat_ofNat']
    omega
  have hempty : UInt32.ofNat buff.length = 0 ↔ buff = [] := by
    rw [← UInt32.toNat_inj, hlen, UInt32.toNat_zero, List.length_eq_zero_iff]
  unfold SalofFifo.exec ByteQueue.exec salofFifoWrite
  simp only [hempty]
  by_cases hnil : buff = []
  · subst hnil
    refine ⟨s, rfl, rfl, rfl, ?_, h.sem⟩
    rw [List.take_nil, List.append_nil]
    exact h.stores
  · obtain ⟨g,n,hg,hsize,hpos,hn,hstores⟩ :=
      h.stores.write buff (UInt32.ofNat buff.length) (by omega) (by omega)
    rw [hlen] at hn
    rw [if_neg hnil, if_neg hnil, hg]
    refine ⟨⟨g, semPost s.sem⟩, ?_, hsize, hpos, ?_, by rw [h.sem]⟩
    · rw [Option.map_some, Option.map_some, hn]
    · rw [hn] at hstores
      exact hstores

theorem read_refines (s : SalofFifo) (q : ByteQueue) (h : Represents s q) (len : ℕ)
    (hlt : len < 2^31) :
    ∃ t, s.exec (.read len) = some (t, (q.exec s.fifo.size.toNat (.read len)).2) ∧
      t.fifo.size = s.fifo.size ∧
      t.fifo.outPos.toNat = (s.fifo.outPos.toNat+
        (q.exec s.fifo.size.toNat (.read len)).2.count) % 2^32 ∧
      Represents t (q.exec s.fifo.size.toNat (.read len)).1 := by
  have hlen : (UInt32.ofNat len).toNat = len := by
    rw [UInt32.toNat_ofNat']
    omega
  unfold SalofFifo.exec ByteQueue.exec salofFifoRead
  rw [h.sem]
  by_cases hposts : q.posts = 0
  · simp only [hposts, if_true]
    refine ⟨s, rfl, rfl, ?_, h⟩
    exact (Nat.mod_eq_of_lt s.fifo.outPos.toNat_lt).symm
  obtain ⟨g,n,hg,hsize,hpos,hn,hstores⟩ := h.stores.read (List.replicate len 0) (UInt32.ofNat len)
    (by rw [List.length_replicate]; omega) (by omega)
  rw [hlen] at hn
  have htake : q.bytes.take n.toNat = q.bytes.take len := by
    rw [hn]
    exact List.take_eq_take_iff.mpr (by omega)
  have hdrop : q.bytes.drop n.toNat = q.bytes.drop len := by
    rw [hn, List.drop_eq_drop_iff]
    omega
  have hcount : (q.bytes.take n.toNat).length = n.toNat := by
    rw [List.length_take]
    omega
  simp only [if_neg hposts, hg, Option.map_some]
  refine ⟨⟨g, q.posts-1⟩, ?_, hsize, ?_, ?_, rfl⟩
  · rw [List.take_left' hcount, htake]
  · rw [hpos, UInt32.toNat_add]
    show _ = (s.fifo.outPos.toNat+(q.bytes.take len).length) % 2^32
    rw [← htake, hcount]
  · rw [hdrop] at hstores
    exact hstores

/-- One call on the buffer answers as the queue does and keeps representing it. -/
theorem exec_refines (s : SalofFifo) (q : ByteQueue) (h : Represents s q) (op : FifoOp)
    (hop : op.InRange) :
    ∃ t, s.exec op = some (t, (q.exec s.fifo.size.toNat op).2) ∧ t.fifo.size = s.fifo.size ∧
      t.fifo.outPos.toNat =
        (s.fifo.outPos.toNat+(q.exec s.fifo.size.toNat op).2.count) % 2^32 ∧
      Represents t (q.exec s.fifo.size.toNat op).1 := by
  cases op with
  | write buff =>
    obtain ⟨t,ht,hsize,hpos,hrest⟩ := write_refines s q h buff hop
    refine ⟨t, ht, hsize, ?_, hrest⟩
    rw [hpos]
    exact (Nat.mod_eq_of_lt s.fifo.outPos.toNat_lt).symm
  | read len => exact read_refines s q h len hop

/-- A sequence of calls. -/
theorem execAll_refines (s : SalofFifo) (q : ByteQueue) (h : Represents s q) (ops : List FifoOp)
    (hops : ∀ op ∈ ops, op.InRange) :
    ∃ t, s.execAll ops = some (t, (q.execAll s.fifo.size.toNat ops).2) ∧
      t.fifo.size = s.fifo.size ∧
      t.fifo.outPos.toNat = (s.fifo.outPos.toNat+
        ((q.execAll s.fifo.size.toNat ops).2.map Answer.count).sum) % 2^32 ∧
      Represents t (q.execAll s.fifo.size.toNat ops).1 := by
  induction ops generalizing s q with
  | nil =>
    refine ⟨s, rfl, rfl, ?_, h⟩
    exact (Nat.mod_eq_of_lt s.fifo.outPos.toNat_lt).symm
  | cons op ops ih =>
    obtain ⟨hop,hops⟩ := List.forall_mem_cons.mp hops
    obtain ⟨t,ht,hsize,hpos,hrep⟩ := exec_refines s q h op hop
    rw [SalofFifo.execAll, ByteQueue.execAll, ht, Option.bind_some]
    dsimp only
    by_cases hwaits : (q.exec s.fifo.size.toNat op).2 = .waits
    · rw [if_pos hwaits, if_pos hwaits]
      refine ⟨t, rfl, hsize, ?_, hrep⟩
      rw [hpos, hwaits]
      rfl
    · obtain ⟨u,hu,husize,hupos,hurep⟩ := ih t _ hrep hops
      rw [hsize] at hu hupos hurep husize
      rw [if_neg hwaits, if_neg hwaits, hu, Option.map_some]
      refine ⟨u, rfl, husize, ?_, hurep⟩
      rw [hupos, hpos, List.map_cons, List.sum_cons, Nat.mod_add_mod, Nat.add_assoc]

/-- Whatever is written and read, through any number of wrap-arounds of the buffer and
of the counters, a created queue answers like a queue of bytes whose capacity is
the largest power of two not above the size asked for, and lets as many reads
through as there were writes. -/
theorem fifo_is_bounded_queue (malloc : ∀ n : ℕ, Option (List.Vector UInt8 n))
    (mutexOk semOk : Bool) (size : UInt32) (f : Fifo)
    (hf : salofFifoCreate malloc mutexOk semOk size = some f) (ops : List FifoOp)
    (hops : ∀ op ∈ ops, op.InRange) :
    (SalofFifo.execAll ⟨f, 0⟩ ops).map Prod.snd =
      some (ByteQueue.execAll (2^Nat.log2 size.toNat) {} ops).2 := by
  obtain ⟨hzero,hsize,-,-⟩ := salofFifoCreate_eq_some hf
  obtain ⟨g,hg,-⟩ := execAll_refines ⟨f, 0⟩ {} (represents_create hf) ops hops
  rw [hg, Option.map_some, hsize, fifoSize_toNat size hzero]

/-- A write past the end of the buffer and one with no room for all of it; the third
read waits. -/
def sixCalls : List FifoOp :=
  [.write [1, 2, 3], .read 2, .write [4, 5, 6, 7], .read 1, .read 9, .write [8]]

theorem sixCalls_inRange : ∀ op ∈ sixCalls, op.InRange := by
  simp [sixCalls, FifoOp.InRange]

theorem fifo_is_bounded_queue_sixCalls :
    (SalofFifo.execAll ⟨smallFifo, 0⟩ sixCalls).map Prod.snd =
      some [.wrote 3, .got [1, 2], .wrote 3, .got [3], .waits] :=
  fifo_is_bounded_queue zeroed true true 5 smallFifo smallFifo_create sixCalls sixCalls_inRange

/-- After any calls `salof_fifo_read_able` counts the unread bytes as long as the
writing counter has not passed `2^32` before the reading counter; in between it
counts a whole buffer too much, modulo `2^32`. -/
theorem readAble_after_calls (malloc : ∀ n : ℕ, Option (List.Vector UInt8 n))
    (mutexOk semOk : Bool) (size : UInt32) (f : Fifo)
    (hf : salofFifoCreate malloc mutexOk semOk size = some f) (ops : List FifoOp)
    (hops : ∀ op ∈ ops, op.InRange) (g : SalofFifo) (answers : List Answer)
    (hg : SalofFifo.execAll ⟨f, 0⟩ ops = some (g, answers)) :
    let unread := (ByteQueue.execAll f.size.toNat {} ops).1.bytes.length
    g.fifo.salofFifoReadAble.toNat =
      if (answers.map Answer.count).sum % 2^32+unread < 2^32 then unread
      else (unread+f.size.toNat) % 2^32 := by
  obtain ⟨g',hg',hsize,hpos,hrep⟩ := execAll_refines ⟨f, 0⟩ {} (represents_create hf) ops hops
  rw [hg, Option.some.injEq, Prod.mk.injEq] at hg'
  obtain ⟨rfl,rfl⟩ := hg'
  rw [(salofFifoCreate_eq_some hf).2.2.2, UInt32.toNat_zero, Nat.zero_add] at hpos
  intro unread
  rw [hrep.stores.readAble_toNat, hpos, hsize]

-- two reads took three of the six bytes, and the third read waits
theorem readAble_after_sixCalls : ∃ g answers,
    SalofFifo.execAll ⟨smallFifo, 0⟩ sixCalls = some (g, answers) ∧
      g.fifo.salofFifoReadAble.toNat = 3 := by
  obtain ⟨g,hg,-⟩ := execAll_refines ⟨smallFifo, 0⟩ {} (represents_create smallFifo_create)
    sixCalls sixCalls_inRange
  have hable := readAble_after_calls zeroed true true 5 smallFifo smallFifo_create sixCalls
    sixCalls_inRange g _ hg
  exact ⟨g, _, hg, hable⟩

end CppOperate.Log

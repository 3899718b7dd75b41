import CppOperate.StepRuns
import Mathlib.Data.List.Dedup
import Mathlib.Data.List.Sort

/-! `FrameDoubleBuffer` between one producer and one consumer. Mats are
references to pixel cells; `read` hands out the cell of `front_buf` itself. -/
namespace CppOperate.Driver
open StepRuns

structure Image where
  rows : ℕ
  cols : ℕ
  type : ℕ
  data : List UInt8
deriving DecidableEq, Repr

namespace Image

-- `Mat::empty`
def isEmpty (img : Image) : Bool := img.rows*img.cols = 0

-- when `Mat::create` keeps the cell it has
def sameShape (a b : Image) : Bool := a.rows = b.rows && a.cols = b.cols && a.type = b.type

end Image

abbrev Cell := ℕ

/-- The consumer between the steps of `read`. -/
inductive ReadPc
  | idle
  | test
  | swap
  | ret
deriving DecidableEq, Repr

/-- A finished `read`: the number of the write it shows (0 for none), the number
of writes that were over when it was called, and what the caller got. -/
structure Shot where
  stamp : ℕ
  started : ℕ
  image : Option Image
deriving DecidableEq, Repr

structure State where
  heap : Cell → Image
  -- a Mat without a cell is an empty one
  frontBuf : Option Cell := none
  backBuf : Option Cell := none
  updated : Bool := false
  pc : ReadPc := .idle
  -- the frame the consumer holds
  frame : Option Cell := none
  -- history: which write filled each buffer, and what was written and returned
  frontStamp : ℕ := 0
  backStamp : ℕ := 0
  started : ℕ := 0
  written : List Image := []
  returned : List Shot := []

namespace State

/-- What a Mat shows. -/
def shows (s : State) (mat : Option Cell) : Option Image := mat.map s.heap

-- an allocation gives a cell that no other Mat refers to
def allocate (s : State) (fresh : Cell) : Option Cell :=
  if s.frontBuf = some fresh ∨ s.frame = some fresh then none else some fresh

/-- `back_buf.create`: the cell `copyTo` fills. -/
def create (s : State) (img : Image) (fresh : Cell) : Option Cell :=
  match s.backBuf with
  | some c => if (s.heap c).sameShape img then some c else s.allocate fresh
  | none => s.allocate fresh

/-- `new_frame.copyTo(back_buf)`. -/
def copyTo (s : State) (img : Image) (fresh : Cell) : Option State :=
  if img.isEmpty then some { s with backBuf := none }
  else (s.create img fresh).map fun c =>
    { s with heap := Function.update s.heap c img, backBuf := some c }

/-- `write`, one critical section. -/
def write (s : State) (img : Image) (fresh : Cell) : Option State :=
  (s.copyTo img fresh).map fun t =>
    { t with updated := true, backStamp := s.written.length+1, written := s.written ++ [img] }

/-- The steps of `read` after its call. -/
def readNext (s : State) : Option State :=
  match s.pc with
  | .idle => none
  -- the test outside the lock
  | .test => some { s with pc := if s.updated then .swap else .ret }
  -- the second test and what it guards, one critical section
  | .swap =>
    if s.updated then
      some { s with frontBuf := s.backBuf, backBuf := s.frontBuf, updated := false, pc := .ret,
                    frontStamp := s.backStamp, backStamp := s.frontStamp }
    else some { s with pc := .ret }
  | .ret =>
    some { s with frame := s.frontBuf, pc := .idle,
                  returned := s.returned ++ [⟨s.frontStamp, s.started, s.shows s.frontBuf⟩] }

end State

inductive Event
  | write (img : Image) (fresh : Cell)
  | call
  | next
deriving DecidableEq, Repr

def step (s : State) : Event → Option State
  | .write img fresh => s.write img fresh
  | .call =>
    match s.pc with
    -- the frame of the last `read` is let go
    | .idle => some { s with pc := .test, started := s.written.length, frame := none }
    | _ => none
  | .next => s.readNext

/-- What the `k`-th write stored, counted from 1; 0 stands for the empty Mat. -/
def imageAt (written : List Image) : ℕ → Option Image
  | 0 => none
  | k+1 => written[k]?.filter fun img => !img.isEmpty

theorem imageAt_snoc (written : List Image) (img : Image) (k : ℕ) (h : k ≤ written.length) :
    imageAt (written ++ [img]) k = imageAt written k := by
  cases k with
  | zero => rfl
  | succ k => rw [imageAt, imageAt, List.getElem?_append_left h]

theorem imageAt_last (written : List Image) (img : Image) :
    imageAt (written ++ [img]) (written.length+1) = if img.isEmpty then none else some img := by
  rw [imageAt, List.getElem?_concat_length]
  cases h : img.isEmpty <;> simp [Option.filter, h]

theorem allocate_ne_front (s : State) (fresh c : Cell) (h : s.allocate fresh = some c) :
    s.frontBuf ≠ some c := by
  unfold State.allocate at h
  split_ifs at h with hfresh
  cases h
  exact fun hfront => hfresh (Or.inl hfront)

-- neither the reused nor the fresh cell is the front one
theorem create_ne_front (s : State) (img : Image) (fresh c : Cell)
    (hsep : ∀ c, s.frontBuf = some c → s.backBuf ≠ some c) (h : s.create img fresh = some c) :
    s.frontBuf ≠ some c := by
  unfold State.create at h
  cases hback : s.backBuf with
  | none =>
    rw [hback] at h
    exact allocate_ne_front s fresh c h
  | some b =>
    simp only [hback] at h
    split_ifs at h with hshape
    · cases h
      exact fun hfront => hsep c hfront hback
    · exact allocate_ne_front s fresh c h

/-- What `write` can do: it fills a cell of its own, or leaves `back_buf` empty. -/
theorem write_cases (s t : State) (img : Image) (fresh : Cell)
    (hsep : ∀ c, s.frontBuf = some c → s.backBuf ≠ some c) (h : s.write img fresh = some t) :
    ∃ heap back, t = { s with heap := heap, backBuf := back, updated := true,
                              backStamp := s.written.length+1, written := s.written ++ [img] } ∧
      (∀ c, s.frontBuf = some c → heap c = s.heap c ∧ back ≠ some c) ∧
      back.map heap = imageAt (s.written ++ [img]) (s.written.length+1) := by
  rw [imageAt_last]
  simp only [State.write, State.copyTo, Option.map_eq_some_iff] at h
  obtain ⟨u,hu,rfl⟩ := h
  split_ifs at hu with hempty
  · cases hu
    refine ⟨s.heap, none, rfl, fun c _ => ⟨rfl, by simp⟩, ?_⟩
    rw [if_pos hempty, Option.map_none]
  · obtain ⟨c,hc,rfl⟩ := Option.map_eq_some_iff.mp hu
    have hfront := create_ne_front s img fresh c hsep hc
    refine ⟨Function.update s.heap c img, some c, rfl, ?_, ?_⟩
    · intro d hd
      have hne : d ≠ c := fun h => hfront (h ▸ hd)
      exact ⟨Function.update_of_ne hne _ _, by simpa using hne.symm⟩
    · rw [if_neg hempty, Option.map_some, Function.update_self]

/-- The buffers never share a cell, and each shows the write it is stamped with. -/
structure Inv (s : State) : Prop where
  apart : ∀ c, s.frontBuf = some c → s.backBuf ≠ some c
  front : s.shows s.frontBuf = imageAt s.written s.frontStamp
  -- the back buffer counts only until it is swapped to the front
  back : s.updated = true → s.backStamp = s.written.length ∧
    s.shows s.backBuf = imageAt s.written s.backStamp
  current : s.updated = false → s.frontStamp = s.written.length
  front_le : s.frontStamp ≤ s.written.length
  started_le : s.started ≤ s.written.length
  ret : s.pc = .ret → s.started ≤ s.frontStamp
  held : s.pc = .idle → ∀ shot ∈ s.returned.getLast?, s.frame = s.frontBuf ∧
    shot.stamp = s.frontStamp
  shots : ∀ shot ∈ s.returned, shot.started ≤ shot.stamp ∧ shot.stamp ≤ s.frontStamp ∧
    shot.image = imageAt s.written shot.stamp
  sorted : (s.returned.map Shot.stamp).Pairwise (· ≤ ·)

theorem init_inv (heap : Cell → Image) : Inv { heap := heap } := by
  constructor <;> simp [State.shows, imageAt]

theorem Inv.write (s t : State) (img : Image) (fresh : Cell) (hinv : Inv s)
    (h : s.write img fresh = some t) : Inv t := by
  obtain ⟨heap,back,rfl,hkeep,hback⟩ := write_cases s t img fresh hinv.apart h
  have hlen : s.written.length ≤ (s.written ++ [img]).length := by simp
  refine ⟨fun c hc => (hkeep c hc).2, ?_, ?_, ?_, ?_, ?_, hinv.ret, hinv.held, ?_, hinv.sorted⟩
  · -- the cell of `front_buf` is not touched
    have hsame : s.frontBuf.map heap = s.frontBuf.map s.heap := by
      cases hfront : s.frontBuf with
      | none => rfl
      | some c => simp [(hkeep c hfront).1]
    rw [imageAt_snoc _ _ _ hinv.front_le, ← hinv.front]
    exact hsame
  · intro _
    exact ⟨by simp, hback⟩
  · intro h
    contradiction
  · exact hinv.front_le.trans hlen
  · exact hinv.started_le.trans hlen
  · intro shot hshot
    obtain ⟨hstart,hle,himage⟩ := hinv.shots shot hshot
    refine ⟨hstart, hle, ?_⟩
    rw [imageAt_snoc _ _ _ (hle.trans hinv.front_le)]
    exact himage

theorem Inv.call (s : State) (hinv : Inv s) :
    Inv { s with pc := .test, started := s.written.length, frame := none } := by
  refine { hinv with started_le := le_rfl, ret := ?_, held := ?_ }
  · intro h
    contradiction
  · intro h
    contradiction

theorem Inv.swap (s : State) (hinv : Inv s) (hupdated : s.updated = true) :
    Inv { s with frontBuf := s.backBuf, backBuf := s.frontBuf, updated := false, pc := .ret,
                 frontStamp := s.backStamp, backStamp := s.frontStamp } := by
  obtain ⟨hstamp,hshows⟩ := hinv.back hupdated
  have hforward : s.frontStamp ≤ s.backStamp := hstamp ▸ hinv.front_le
  refine ⟨fun c hc hfront => hinv.apart c hfront hc, hshows, ?_, fun _ => hstamp, hstamp.le,
    hinv.started_le, fun _ => hstamp ▸ hinv.started_le, ?_, ?_, hinv.sorted⟩
  · intro h
    contradiction
  · intro h
    contradiction
  · intro shot hshot
    obtain ⟨hstart,hle,himage⟩ := hinv.shots shot hshot
    exact ⟨hstart, hle.trans hforward, himage⟩

theorem Inv.return (s : State) (hinv : Inv s) (hpc : s.pc = .ret) :
    Inv { s with frame := s.frontBuf, pc := .idle,
                 returned := s.returned ++ [⟨s.frontStamp, s.started, s.shows s.frontBuf⟩] } := by
  refine { hinv with ret := ?_, held := ?_, shots := ?_, sorted := ?_ }
  · intro h
    contradiction
  · intro _ shot hshot
    simp only [List.getLast?_concat, Option.mem_def, Option.some.injEq] at hshot
    subst hshot
    exact ⟨rfl, rfl⟩
  · intro shot hshot
    rcases List.mem_append.mp hshot with hshot | hshot
    · exact hinv.shots shot hshot
    · rw [List.mem_singleton] at hshot
      subst hshot
      exact ⟨hinv.ret hpc, le_rfl, hinv.front⟩
  · -- every earlier frame is at most as new as the front one
    rw [List.map_append, List.pairwise_append]
    refine ⟨hinv.sorted, List.pairwise_singleton _ _, ?_⟩
    intro a ha b hb
    obtain ⟨shot,hshot,rfl⟩ := List.mem_map.mp ha
    rw [List.map_singleton, List.mem_singleton] at hb
    rw [hb]
    exact (hinv.shots shot hshot).2.1

theorem Inv.readNext (s t : State) (hinv : Inv s) (h : s.readNext = some t) : Inv t := by
  unfold State.readNext at h
  cases hpc : s.pc with
  | idle => simp [hpc] at h
  | test =>
    simp only [hpc, Option.some.injEq] at h
    subst h
    refine { hinv with ret := ?_, held := ?_ }
    · -- an unset flag means that the front frame is the newest one
      intro hret
      cases hupdated : s.updated with
      | true => simp [hupdated] at hret
      | false => exact hinv.current hupdated ▸ hinv.started_le
    · intro hidle
      cases hupdated : s.updated <;> simp [hupdated] at hidle
  | swap =>
    simp only [hpc] at h
    split_ifs at h with hupdated
    · cases h
      exact hinv.swap s hupdated
    · cases h
      refine { hinv with ret := ?_, held := ?_ }
      · intro _
        exact hinv.current (by simpa using hupdated) ▸ hinv.started_le
      · intro h
        contradiction
  | ret =>
    simp only [hpc, Option.some.injEq] at h
    subst h
    exact hinv.return s hpc

theorem Inv.step (s : State) (e : Event) (t : State) (hinv : Inv s) (h : step s e = some t) :
    Inv t := by
  cases e with
  | write img fresh => exact hinv.write s t img fresh h
  | call =>
    simp only [Driver.step] at h
    split at h
    · cases h
      exact hinv.call s
    · contradiction
  | next => exact hinv.readNext s t h

/-- The different numbers in a sorted list of write numbers, none of them 0, are
a subsequence of all write numbers. -/
theorem stamps_sublist (stamps : List ℕ) (n : ℕ) (hsorted : stamps.Pairwise (· ≤ ·))
    (hle : ∀ k ∈ stamps, k ≤ n) :
    (stamps.dedup.filter (0 < ·)).Sublist (List.range' 1 n) := by
  have hpairwise : (stamps.dedup.filter (0 < ·)).Pairwise (· ≤ ·) :=
    hsorted.sublist ((List.filter_sublist).trans (List.dedup_sublist stamps))
  have hsubset : stamps.dedup.filter (0 < ·) ⊆ List.range' 1 n := by
    intro k hk
    rw [List.mem_filter, List.mem_dedup, decide_eq_true_iff] at hk
    have := hle k hk.1
    rw [List.mem_range'_1]
    omega
  have hnodup : (stamps.dedup.filter (0 < ·)).Nodup := (List.nodup_dedup stamps).filter _
  exact List.sublist_of_subperm_of_sortedLE (List.subperm_of_subset hnodup hsubset) hpairwise.sortedLE
    (List.sortedLE_range' 1 n 1)

/-- In every state of a run: between two reads the held frame still shows what
`read` returned; the frames returned are frames written, never older than the
one before, each at least as new as the last write over when `read` was called. -/
theorem read_frames (heap : Cell → Image) (events : List Event) (s : State)
    (hrun : run step { heap := heap } events = some s) :
    (s.pc = .idle → ∀ shot ∈ s.returned.getLast?, s.shows s.frame = shot.image) ∧
      (∀ shot ∈ s.returned, shot.image = imageAt s.written shot.stamp ∧
        shot.stamp ≤ s.written.length ∧ shot.started ≤ shot.stamp) ∧
      (s.returned.map Shot.stamp).Pairwise (· ≤ ·) ∧
      ((s.returned.map Shot.stamp).dedup.filter (0 < ·)).Sublist
        (List.range' 1 s.written.length) := by
  have hinv : Inv s := run_invariant step Inv Inv.step _ s events (init_inv heap) hrun
  have hshots : ∀ shot ∈ s.returned, shot.stamp ≤ s.written.length :=
    fun shot hshot => (hinv.shots shot hshot).2.1.trans hinv.front_le
  refine ⟨?_, ?_, hinv.sorted, ?_⟩
  · intro hidle shot hshot
    obtain ⟨hframe,hstamp⟩ := hinv.held hidle shot hshot
    obtain ⟨-,-,himage⟩ := hinv.shots shot (List.mem_of_getLast? hshot)
    rw [hframe, hinv.front, himage, hstamp]
  · intro shot hshot
    obtain ⟨hstart,-,himage⟩ := hinv.shots shot hshot
    exact ⟨himage, hshots shot hshot, hstart⟩
  · apply stamps_sublist _ _ hinv.sorted
    intro k hk
    obtain ⟨shot,hshot,rfl⟩ := List.mem_map.mp hk
    exact hshots shot hshot

-- the second write lands between the test of the first `read` and its return
theorem read_frames_overtaken : ∃ s : State,
    run step { heap := fun _ => ⟨0, 0, 0, []⟩ }
      [.write ⟨1, 1, 0, [7]⟩ 0, .call, .next, .next, .write ⟨1, 1, 0, [9]⟩ 1, .next,
        .call, .next, .next, .next] = some s ∧
    (s.returned.map Shot.stamp) = [1, 2] ∧ s.shows s.frame = some ⟨1, 1, 0, [9]⟩ := by
  obtain ⟨s,hrun⟩ : ∃ s, run step { heap := fun _ => ⟨0, 0, 0, []⟩ }
      [.write ⟨1, 1, 0, [7]⟩ 0, .call, .next, .next, .write ⟨1, 1, 0, [9]⟩ 1, .next,
        .call, .next, .next, .next] = some s := ⟨_, rfl⟩
  have hframes := read_frames (fun _ => ⟨0, 0, 0, []⟩) _ s hrun
  have hs := hrun
  cases hs
  exact ⟨_, hrun, rfl, hframes.1 rfl _ rfl⟩

end CppOperate.Driver

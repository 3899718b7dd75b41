import CppOperate.CNumbers
import CppOperate.DriverDoubleBuffer
import CppOperate.StampedCells
import Mathlib

/-! The thread of `show_img` and the caller of `load_frame`, statement by
statement: the metadata and the frames reach the loop by different ways. -/
namespace CppOperate.Driver.Image

-- `CV_MAT_CN`
def channels (img : Image) : ℕ := img.type / 8 % 512+1

-- `CV_ELEM_SIZE1`
def elemSize1 (img : Image) : ℕ := [1, 1, 2, 2, 4, 4, 8, 2].getD (img.type % 8) 0

-- `step`: the Mats here are continuous
def rowBytes (img : Image) : ℕ := img.cols*(img.channels*img.elemSize1)

theorem channels_pos (img : Image) : 1 ≤ img.channels := Nat.le_add_left 1 _

theorem elemSize1_pos (img : Image) : 1 ≤ img.elemSize1 := by
  have hsizes : ∀ k < 8, 1 ≤ [1, 1, 2, 2, 4, 4, 8, 2].getD k 0 := by decide
  exact hsizes _ (Nat.mod_lt _ (by norm_num))

end CppOperate.Driver.Image

namespace CppOperate.Show
open StepRuns StampedCells CNumbers
open Driver (Image Cell)

/-- `buf`: the sizes of the screen, and whether `vaddr` is set. -/
structure Screen where
  width : ℕ
  height : ℕ
  mapped : Bool
deriving DecidableEq, Repr

/-- A Mat of a caller: its sizes are `int`. -/
structure Frame extends Image where
  rows_lt : rows < 2^31
  cols_lt : cols < 2^31
deriving DecidableEq

/-- `StreamMetadata`. The fields the geometry is computed from carry the number
of the update that wrote them; `flips` counts the updates that are over. -/
structure Metadata where
  version : Bool := false
  width : Stamped ℕ := ⟨1920, 0⟩
  height : Stamped ℕ := ⟨1080, 0⟩
  channels : ℕ := 3
  fps : Stamped ℚ := ⟨30, 0⟩
  flips : ℕ := 0
deriving DecidableEq, Repr

/-- The statements of `update`, in order. -/
inductive UpdatePc
  | width
  | height
  | channels
  | fps
  | flip
deriving DecidableEq, Repr

def UpdatePc.next : UpdatePc → Option UpdatePc
  | .width => some .height
  | .height => some .channels
  | .channels => some .fps
  | .fps => some .flip
  | .flip => none

/-- One statement of `update`. -/
def Metadata.update (m : Metadata) (frame : Image) (fps : ℚ) : UpdatePc → Metadata
  | .width => { m with width := ⟨frame.cols, m.flips+1⟩ }
  | .height => { m with height := ⟨frame.rows, m.flips+1⟩ }
  | .channels => { m with channels := frame.channels }
  | .fps => { m with fps := ⟨fps, m.flips+1⟩ }
  | .flip => { m with version := !m.version, flips := m.flips+1 }

/-- The caller between the statements of `load_frame`. -/
inductive LoadPc
  | idle
  -- `first` tells the update before the frame is written from the one after it
  | update (at_ : UpdatePc) (frame : Frame) (fps : ℚ) (first : Bool)
  | raise (frame : Frame)
  | write (frame : Frame)
  | count (frame : Frame)
deriving DecidableEq

/-- `x` or `y`: `buf.width / 2 - metadata.width / 2` as an `int`. -/
def position (screen size : ℕ) : ℤ := int32 ((screen/2:ℕ)-(size/2:ℕ))

/-- `calculate_bounds` on one axis: where the copy starts and ends on the screen. -/
def bounds (screen : ℕ) (pos : ℤ) (size : ℕ) : ℤ × ℤ := (max 0 pos, min screen (uint32 (pos+size)))

/-- The locals of `show_img` that are computed from the metadata, each with the
stamp of the field it was computed from. -/
structure Geometry where
  x : Stamped ℤ := ⟨0, 0⟩
  y : Stamped ℤ := ⟨0, 0⟩
  -- `start_x` and `end_x`, `start_y` and `end_y`
  spanX : Stamped (ℤ × ℤ) := ⟨(0, 0), 0⟩
  spanY : Stamped (ℤ × ℤ) := ⟨(0, 0), 0⟩
  frameTime : Stamped ℚ := ⟨0, 0⟩
deriving DecidableEq, Repr

namespace Geometry

abbrev startX (g : Geometry) : ℤ := g.spanX.value.1
abbrev endX (g : Geometry) : ℤ := g.spanX.value.2
abbrev startY (g : Geometry) : ℤ := g.spanY.value.1
abbrev endY (g : Geometry) : ℤ := g.spanY.value.2

end Geometry

/-- The show thread; the locals of the copy are in its places. -/
inductive ShowPc
  -- the computation of the geometry, at the start and after a version test
  | posX
  | posY
  | boundX
  | boundY
  | time
  -- `while (running)`
  | loop
  | check
  | lastVer
  | call
  | reading
  | got (frame : Option Image)
  | row (frame : Image) (r : ℤ)
  | pixel (frame : Image) (r col src : ℤ)
  | advance (frame : Image) (r col src : ℤ)
  | ended
deriving DecidableEq, Repr

/-- What the copy does to the frame: it takes the address of a row, or reads the
three bytes at an offset for one place of the screen. -/
inductive Access
  | row (frame : Image) (index : ℤ)
  | pixel (frame : Image) (src dst : ℤ)
deriving DecidableEq, Repr

structure State where
  metadata : Metadata := {}
  frameBuffer : Driver.State
  running : Bool := true
  isSetFrameSize : Bool := false
  -- `static`: an earlier pipeline may have counted already
  frameCount : ℕ
  load : LoadPc := .idle
  pc : ShowPc := .posX
  -- the loop has been entered
  entered : Bool := false
  lastVer : Bool := false
  geometry : Geometry := {}
  -- history: `flips` when `last_ver` was read, the updates started when the last
  -- check began, and the accesses of all iterations
  lastFlips : ℕ := 0
  checkStarted : ℕ := 0
  accesses : List Access := []

/-- What the caller, the show thread and `stop` do. -/
inductive Event
  | loadFrame (frame : Frame)
  -- the next statement of `load_frame`: a new cell if it needs one, the clock
  | produce (fresh : Cell) (elapsed : ℚ)
  | next
  | halt
deriving DecidableEq

namespace State

/-- The updates that have written their first field. -/
abbrev started (s : State) : ℕ := s.metadata.width.stamp

def loadFrame (s : State) (frame : Frame) : Option State :=
  match s.load with
  | .idle =>
    some { s with isSetFrameSize := true,
                  load := if s.isSetFrameSize then .raise frame else .update .width frame 25 true }
  | _ => none

/-- The statements of `load_frame`. -/
def produce (s : State) (fresh : Cell) (elapsed : ℚ) : Option State :=
  match s.load with
  | .idle => none
  | .update at_ frame fps first =>
    some { s with metadata := s.metadata.update frame.toImage fps at_,
                  load := match at_.next with
                    | some pc => .update pc frame fps first
                    | none => if first then .raise frame else .idle }
  | .raise frame => some { s with running := true, load := .write frame }
  | .write frame =>
    (Driver.step s.frameBuffer (.write frame.toImage fresh)).map fun b =>
      { s with frameBuffer := b, load := .count frame }
  | .count frame =>
    if (s.frameCount+1) % 25 = 0 then
      some { s with frameCount := 0, load := .update .width frame (25/elapsed) false }
    else some { s with frameCount := s.frameCount+1, load := .idle }

/-- The copy loop and what leads to it. -/
def copy (screen : Screen) (s : State) : ShowPc → Option State
  | .got none => some { s with pc := .loop }
  | .got (some frame) =>
    -- without a mapping the iteration ends here
    if frame.isEmpty = true ∨ screen.mapped = false then some { s with pc := .loop }
    else some { s with pc := .row frame s.geometry.startY }
  | .row frame r =>
    if r < s.geometry.endY then
      some { s with accesses := s.accesses ++ [.row frame (int32 (r-s.geometry.y.value))],
                    pc := .pixel frame r s.geometry.startX
                      (int32 (r-s.geometry.y.value)*frame.rowBytes) }
    else some { s with pc := .loop }
  | .pixel frame r col src =>
    if col < s.geometry.endX then
      some { s with accesses := s.accesses ++ [.pixel frame src (uint32 (r*screen.width)+col)],
                    pc := .advance frame r col src }
    else some { s with pc := .row frame (r+1) }
  -- `metadata.channels` is read again for every pixel
  | .advance frame r col src =>
    some { s with pc := .pixel frame r (col+1) (src+s.metadata.channels) }
  | _ => none

/-- The next statement of `show_img`. The commit of the plane, which writes none
of these fields, is not one of them. -/
def showNext (screen : Screen) (s : State) : Option State :=
  let m := s.metadata
  let g := s.geometry
  match s.pc with
  | .posX => some { s with geometry := { g with x := m.width.map (position screen.width) },
                           pc := .posY }
  | .posY => some { s with geometry := { g with y := m.height.map (position screen.height) },
                           pc := .boundX }
  | .boundX =>
    some { s with geometry := { g with spanX := m.width.map (bounds screen.width g.x.value) },
                  pc := .boundY }
  | .boundY =>
    some { s with geometry := { g with spanY := m.height.map (bounds screen.height g.y.value) },
                  pc := .time }
  | .time => some { s with geometry := { g with frameTime := m.fps.map fun fps => 1/fps },
                           pc := if s.entered then .lastVer else .loop }
  | .loop => some { s with entered := true, pc := if s.running then .check else .ended }
  | .check => some { s with checkStarted := s.started,
                            pc := if m.version = s.lastVer then .call else .posX }
  | .lastVer => some { s with lastVer := m.version, lastFlips := m.flips, pc := .call }
  | .call => (Driver.step s.frameBuffer .call).map fun b =>
      { s with frameBuffer := b, pc := .reading }
  | .reading => (Driver.step s.frameBuffer .next).map fun b =>
      { s with frameBuffer := b,
               pc := match b.pc with
                 | .idle => .got (b.returned.getLast?.bind Driver.Shot.image)
                 | _ => .reading }
  | pc => s.copy screen pc

end State

def step (screen : Screen) (s : State) : Event → Option State
  | .loadFrame frame => s.loadFrame frame
  | .produce fresh elapsed => s.produce fresh elapsed
  | .next => s.showNext screen
  | .halt => some { s with running := false }

/-- The pipeline when its thread starts. -/
def init (heap : Cell → Image) (frameCount : ℕ) : State :=
  { frameBuffer := { heap := heap }, frameCount := frameCount }

/-- What a statement of `load_frame` can do. -/
theorem produce_cases (s t : State) (fresh : Cell) (elapsed : ℚ)
    (h : s.produce fresh elapsed = some t) :
    (∃ at_ frame fps first, s.load = .update at_ frame fps first ∧
      t = { s with metadata := s.metadata.update frame.toImage fps at_,
                   load := match at_.next with
                     | some pc => .update pc frame fps first
                     | none => if first then .raise frame else .idle }) ∨
      (∃ frame, s.load = .raise frame ∧ t = { s with running := true, load := .write frame }) ∨
      (∃ frame b, s.load = .write frame ∧
        Driver.step s.frameBuffer (.write frame.toImage fresh) = some b ∧
        t = { s with frameBuffer := b, load := .count frame }) ∨
      (∃ frame, s.load = .count frame ∧
        t = { s with frameCount := 0, load := .update .width frame (25/elapsed) false }) ∨
      (∃ frame, s.load = .count frame ∧
        t = { s with frameCount := s.frameCount+1, load := .idle }) := by
  unfold State.produce at h
  cases hload : s.load with
  | idle => simp [hload] at h
  | update at_ frame fps first =>
    simp only [hload, Option.some.injEq] at h
    exact Or.inl ⟨at_, frame, fps, first, rfl, h.symm⟩
  | raise frame =>
    simp only [hload, Option.some.injEq] at h
    exact Or.inr (Or.inl ⟨frame, rfl, h.symm⟩)
  | write frame =>
    simp only [hload, Option.map_eq_some_iff] at h
    obtain ⟨b,hb,rfl⟩ := h
    exact Or.inr (Or.inr (Or.inl ⟨frame, b, rfl, hb, rfl⟩))
  | count frame =>
    simp only [hload] at h
    split_ifs at h with hcount
    · cases h
      exact Or.inr (Or.inr (Or.inr (Or.inl ⟨frame, rfl, rfl⟩)))
    · cases h
      exact Or.inr (Or.inr (Or.inr (Or.inr ⟨frame, rfl, rfl⟩)))

/-- The copy records its accesses and moves on; nothing else changes. -/
theorem copy_cases (screen : Screen) (s t : State) (pc : ShowPc) (h : s.copy screen pc = some t) :
    ∃ accesses next, t = { s with accesses := accesses, pc := next } := by
  unfold State.copy at h
  split at h
  · cases h
    exact ⟨_, _, rfl⟩
  · split_ifs at h <;> cases h <;> exact ⟨_, _, rfl⟩
  · split_ifs at h <;> cases h <;> exact ⟨_, _, rfl⟩
  · split_ifs at h <;> cases h <;> exact ⟨_, _, rfl⟩
  · cases h
    exact ⟨_, _, rfl⟩
  · contradiction

end CppOperate.Show

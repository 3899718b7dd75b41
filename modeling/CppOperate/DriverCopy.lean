import CppOperate.DriverMetadata

/-! What the copy loop of `show_img` reads of the frame it copies. -/
namespace CppOperate.Show
open StepRuns StampedCells CNumbers
open Driver (Image Cell)

-- the bytes of the frame
def bytes (frame : Image) : ℤ := frame.rows*frame.rowBytes

/-- The row, or each of the three bytes, is one of the frame's. -/
def Access.Inside : Access → Prop
  | .row frame index => 0 ≤ index ∧ index < frame.rows
  | .pixel frame src _ => 0 ≤ src ∧ src+2 < bytes frame

namespace Geometry

/-- The rows of the copy from `r` on, with the given bytes for a pixel: the last
row is a row of the frame, and its last pixel ends in the frame. -/
def FitsFrom (g : Geometry) (channels : ℕ) (frame : Image) (r : ℤ) : Prop :=
  r < g.endY → g.endY-g.y.value ≤ frame.rows ∧
    (g.startX < g.endX →
      (g.endY-1-g.y.value)*frame.rowBytes+(g.endX-1-g.startX)*channels+2 < bytes frame)

/-- What the copy still reads fits in its frame: the rest of the row it is at and
the rows after it. -/
def Fits (g : Geometry) (channels : ℕ) : ShowPc → Prop
  | .row frame r => g.FitsFrom channels frame r
  | .pixel frame r col src =>
    (col < g.endX → src+(g.endX-1-col)*channels+2 < bytes frame) ∧
      g.FitsFrom channels frame (r+1)
  | .advance frame r col src =>
    (col+1 < g.endX → src+(g.endX-1-col)*channels+2 < bytes frame) ∧
      g.FitsFrom channels frame (r+1)
  | _ => True

end Geometry

/-- A frame is copied with a geometry and a number of channels that fit it, and a
new number of channels fits what is left of the copy in progress. -/
def CopyOk (screen : Screen) (s : State) : Event → Prop
  | .next =>
    match s.pc with
    | .got (some frame) => frame.isEmpty = false → screen.mapped = true →
        s.geometry.FitsFrom s.metadata.channels frame s.geometry.startY
    | _ => True
  | .produce .. =>
    match s.load with
    | .update .channels frame .. => s.geometry.Fits frame.channels s.pc
    | _ => True
  | _ => True

/-- The rows of a Mat are an `int`, the copy is not above its first row, and its
source is not before the first byte. -/
def Placed (g : Geometry) : ShowPc → Prop
  | .got frame => ∀ f ∈ frame, f.rows < 2^31
  | .row frame r => frame.rows < 2^31 ∧ g.y.value ≤ r
  | .pixel frame r _ src => frame.rows < 2^31 ∧ g.y.value ≤ r ∧ 0 ≤ src
  | .advance frame r _ src => frame.rows < 2^31 ∧ g.y.value ≤ r ∧ 0 ≤ src
  | _ => True

structure CopyInv (s : State) : Prop where
  buffer : Driver.Inv s.frameBuffer
  written : ∀ img ∈ s.frameBuffer.written, img.rows < 2^31
  start : 3 < s.pc.computed → s.geometry.y.value ≤ s.geometry.startY
  placed : Placed s.geometry s.pc
  fits : s.geometry.Fits s.metadata.channels s.pc
  inside : ∀ a ∈ s.accesses, a.Inside

theorem init_copyInv (heap : Cell → Image) (frameCount : ℕ) : CopyInv (init heap frameCount) := by
  refine ⟨Driver.init_inv heap, ?_, ?_, trivial, trivial, ?_⟩ <;> simp [init, ShowPc.computed]

theorem fitsFrom_succ (g : Geometry) (channels : ℕ) (frame : Image) (r : ℤ)
    (h : g.FitsFrom channels frame r) : g.FitsFrom channels frame (r+1) :=
  fun hr => h (by omega)

/-- The row of a copy that fits is a row of the frame. -/
theorem row_inside (g : Geometry) (channels : ℕ) (frame : Image) (r : ℤ)
    (hrows : frame.rows < 2^31) (hr : g.y.value ≤ r) (hlt : r < g.endY)
    (hfits : g.FitsFrom channels frame r) :
    int32 (r-g.y.value) = r-g.y.value ∧ r-g.y.value < frame.rows := by
  have hlast := (hfits hlt).1
  have hrow : r-g.y.value < frame.rows := by omega
  exact ⟨int32_eq_self _ (by omega) (by omega), hrow⟩

/-- The pixels of a row end no later than those of the last row. -/
theorem pixels_inside (g : Geometry) (channels : ℕ) (frame : Image) (r : ℤ)
    (hlt : r < g.endY) (hfits : g.FitsFrom channels frame r) (hcol : g.startX < g.endX) :
    (r-g.y.value)*frame.rowBytes+(g.endX-1-g.startX)*channels+2 < bytes frame := by
  have hlast := (hfits hlt).2 hcol
  have hle : (r-g.y.value)*frame.rowBytes ≤ (g.endY-1-g.y.value)*frame.rowBytes :=
    mul_le_mul_of_nonneg_right (by omega) (by positivity)
  linarith

theorem copy_computed (screen : Screen) (s t : State) (pc : ShowPc)
    (h : s.copy screen pc = some t) : pc.computed = 5 := by
  cases pc <;> first | rfl | contradiction

theorem CopyInv.copy (screen : Screen) (s t : State) (hinv : CopyInv s)
    (hok : CopyOk screen s .next) (h : s.copy screen s.pc = some t) : CopyInv t := by
  have hstart : s.geometry.y.value ≤ s.geometry.startY :=
    hinv.start (by rw [copy_computed screen s t _ h]; decide)
  have hplaced := hinv.placed
  have hfits := hinv.fits
  cases hpc : s.pc with
  | got frame =>
    rw [hpc] at hplaced
    cases frame with
    | none =>
      rw [hpc] at h
      cases h
      exact { hinv with start := fun _ => hstart, placed := trivial, fits := trivial }
    | some frame =>
      simp only [hpc, State.copy] at h
      split_ifs at h with hskip
      · cases h
        exact { hinv with start := fun _ => hstart, placed := trivial, fits := trivial }
      · cases h
        simp only [CopyOk, hpc] at hok
        push Not at hskip
        refine { hinv with start := fun _ => hstart, placed := ?_, fits := ?_ }
        · exact ⟨hplaced frame rfl, hstart⟩
        · exact hok (by simpa using hskip.1) (by simpa using hskip.2)
  | row frame r =>
    rw [hpc] at hplaced hfits
    obtain ⟨hrows,hr⟩ := hplaced
    simp only [hpc, State.copy] at h
    split_ifs at h with hlt
    · cases h
      obtain ⟨hindex,hrow⟩ :=
        row_inside s.geometry s.metadata.channels frame r hrows hr hlt hfits
      rw [hindex]
      refine { hinv with start := fun _ => hstart, placed := ?_, fits := ?_, inside := ?_ }
      · exact ⟨hrows, hr, mul_nonneg (by omega) (by positivity)⟩
      · exact ⟨pixels_inside s.geometry s.metadata.channels frame r hlt hfits,
          fitsFrom_succ _ _ _ _ hfits⟩
      · have hinside : Access.Inside (.row frame (r-s.geometry.y.value)) := ⟨by omega, hrow⟩
        exact List.forall_mem_append.mpr ⟨hinv.inside, List.forall_mem_singleton.mpr hinside⟩
    · cases h
      exact { hinv with start := fun _ => hstart, placed := trivial, fits := trivial }
  | pixel frame r col src =>
    rw [hpc] at hplaced hfits
    obtain ⟨hrows,hr,hsrc⟩ := hplaced
    simp only [hpc, State.copy] at h
    split_ifs at h with hlt
    · cases h
      have hrest := hfits.1 hlt
      have hmore : 0 ≤ (s.geometry.endX-1-col)*s.metadata.channels :=
        mul_nonneg (by omega) (by positivity)
      refine { hinv with start := fun _ => hstart, placed := ⟨hrows, hr, hsrc⟩, fits := ?_,
                         inside := ?_ }
      · exact ⟨fun _ => hrest, hfits.2⟩
      · have hinside : Access.Inside (.pixel frame src (uint32 (r*screen.width)+col)) :=
          ⟨hsrc, by linarith⟩
        exact List.forall_mem_append.mpr ⟨hinv.inside, List.forall_mem_singleton.mpr hinside⟩
    · cases h
      have hsucc : s.geometry.y.value ≤ r+1 := by omega
      exact { hinv with start := fun _ => hstart, placed := ⟨hrows, hsucc⟩, fits := hfits.2 }
  | advance frame r col src =>
    rw [hpc] at hplaced hfits
    obtain ⟨hrows,hr,hsrc⟩ := hplaced
    rw [hpc] at h
    cases h
    refine { hinv with start := fun _ => hstart, placed := ⟨hrows, hr, by positivity⟩, fits := ?_ }
    refine ⟨fun hcol => ?_, hfits.2⟩
    have hrest := hfits.1 hcol
    linarith
  | _ => simp [hpc, State.copy] at h

/-- A statement of `update` matters to the copy only when it sets the channels. -/
theorem CopyInv.produce (screen : Screen) (s t : State) (hinv : CopyInv s) (fresh : Cell)
    (elapsed : ℚ) (hok : CopyOk screen s (.produce fresh elapsed))
    (h : s.produce fresh elapsed = some t) : CopyInv t := by
  rcases produce_cases s t fresh elapsed h with ⟨at_,frame,fps,first,hload,rfl⟩ |
    ⟨frame,hload,rfl⟩ | ⟨frame,b,hload,hb,rfl⟩ | ⟨frame,hload,rfl⟩ | ⟨frame,hload,rfl⟩
  · cases at_ with
    | channels =>
      simp only [CopyOk, hload] at hok
      exact { hinv with fits := hok }
    | _ => exact { hinv with }
  · exact { hinv with }
  · have hbuffer : Driver.Inv b := hinv.buffer.step _ _ _ hb
    obtain ⟨heap,back,rfl,-,-⟩ := Driver.write_cases _ b _ fresh hinv.buffer.apart hb
    have hwritten : ∀ img ∈ s.frameBuffer.written ++ [frame.toImage], img.rows < 2^31 :=
      List.forall_mem_append.mpr ⟨hinv.written, List.forall_mem_singleton.mpr frame.rows_lt⟩
    exact { hinv with buffer := hbuffer, written := hwritten }
  · exact { hinv with }
  · exact { hinv with }

-- `read` writes nothing
theorem read_written (b c : Driver.State) (h : Driver.step b .next = some c) :
    c.written = b.written := by
  simp only [Driver.step, Driver.State.readNext] at h
  split at h
  · contradiction
  · cases h
    rfl
  · split_ifs at h <;> cases h <;> rfl
  · cases h
    rfl

theorem mem_of_imageAt (written : List Image) (k : ℕ) (img : Image)
    (h : Driver.imageAt written k = some img) : img ∈ written := by
  cases k with
  | zero => contradiction
  | succ k =>
    rw [Driver.imageAt, Option.filter_eq_some_iff] at h
    exact List.mem_of_getElem? h.1

/-- What `read` returned last was written before. -/
theorem last_shot_mem (b : Driver.State) (hinv : Driver.Inv b) (img : Image)
    (h : b.returned.getLast?.bind Driver.Shot.image = some img) : img ∈ b.written := by
  obtain ⟨shot,hshot,himage⟩ := Option.bind_eq_some_iff.mp h
  obtain ⟨-,-,hstamp⟩ := hinv.shots shot (List.mem_of_getLast? hshot)
  exact mem_of_imageAt _ _ _ (hstamp ▸ himage)

theorem CopyInv.showNext (screen : Screen) (s t : State) (hinv : CopyInv s)
    (hok : CopyOk screen s .next) (h : s.showNext screen = some t) : CopyInv t := by
  have hcopy : s.copy screen s.pc = some t → CopyInv t := hinv.copy screen s t hok
  unfold State.showNext at h
  cases hpc : s.pc with
  | posX | posY | boundX =>
    simp only [hpc, Option.some.injEq] at h
    subst h
    refine { hinv with start := ?_, placed := trivial, fits := trivial }
    intro h
    simp [ShowPc.computed] at h
  | boundY =>
    simp only [hpc, Option.some.injEq] at h
    subst h
    exact { hinv with start := fun _ => le_max_right _ _, placed := trivial, fits := trivial }
  | time | loop | check | lastVer =>
    have hstart := hinv.start (by rw [hpc]; decide)
    simp only [hpc, Option.some.injEq] at h
    subst h
    refine { hinv with start := fun _ => hstart, placed := ?_, fits := ?_ }
    all_goals
      dsimp only
      try split
      all_goals trivial
  | call =>
    have hstart := hinv.start (by rw [hpc]; decide)
    simp only [hpc, Option.map_eq_some_iff] at h
    obtain ⟨b,hb,rfl⟩ := h
    refine { hinv with buffer := hinv.buffer.step _ _ _ hb, written := ?_,
                       start := fun _ => hstart, placed := trivial, fits := trivial }
    simp only [Driver.step] at hb
    split at hb
    · cases hb
      exact hinv.written
    · contradiction
  | reading =>
    have hstart := hinv.start (by rw [hpc]; decide)
    simp only [hpc, Option.map_eq_some_iff] at h
    obtain ⟨b,hb,rfl⟩ := h
    have hbuffer : Driver.Inv b := hinv.buffer.step _ _ _ hb
    have hwritten : ∀ img ∈ b.written, img.rows < 2^31 := read_written _ b hb ▸ hinv.written
    refine { hinv with buffer := hbuffer, written := hwritten, start := fun _ => hstart,
                       placed := ?_, fits := ?_ }
    · cases b.pc with
      | idle => exact fun img himg => hwritten img (last_shot_mem b hbuffer img himg)
      | _ => trivial
    · cases b.pc <;> trivial
  | _ =>
    simp only [hpc] at h hcopy
    exact hcopy h

theorem CopyInv.step (screen : Screen) (s : State) (e : Event) (t : State) (hinv : CopyInv s)
    (hok : CopyOk screen s e) (h : step screen s e = some t) : CopyInv t := by
  cases e with
  | loadFrame frame =>
    simp only [Show.step, State.loadFrame] at h
    split at h
    · cases h
      exact { hinv with }
    · contradiction
  | produce fresh elapsed => exact hinv.produce screen s t fresh elapsed hok h
  | next => exact hinv.showNext screen s t hok h
  | halt =>
    cases h
    exact { hinv with }

/-- In a run that copies frames only with a geometry and channels that fit them,
every row and every byte read lies in the frame that was read. -/
theorem copy_inside (screen : Screen) (heap : Cell → Image) (frameCount : ℕ)
    (events : List Event) (s : State)
    (hrun : run (step screen) (init heap frameCount) events = some s)
    (hok : Meets (step screen) (CopyOk screen) (init heap frameCount) events) :
    ∀ a ∈ s.accesses, a.Inside :=
  (run_invariant_of_meets (step screen) (CopyOk screen) CopyInv (CopyInv.step screen) _ s events
    (init_copyInv heap frameCount) hok hrun).inside

/-- The loop over a row comes to its end, and reads the last pixel if there is one. -/
theorem row_end (screen : Screen) (frame : Image) (r col src : ℤ) (s : State)
    (hpc : s.pc = .pixel frame r col src) :
    ∃ t, Repeats (step screen) .next s t ∧ t.pc = .row frame (r+1) ∧
      t.geometry = s.geometry ∧ t.metadata = s.metadata ∧ s.accesses ⊆ t.accesses ∧
      (col < s.geometry.endX → ∃ dst,
        .pixel frame (src+(s.geometry.endX-1-col)*s.metadata.channels) dst ∈ t.accesses) := by
  -- by the number of pixels left
  obtain ⟨k,hk⟩ : ∃ k : ℕ, s.geometry.endX-col ≤ k := ⟨_, Int.self_le_toNat _⟩
  induction k generalizing col src s with
  | zero =>
    have hlt : ¬ col < s.geometry.endX := by omega
    refine ⟨{ s with pc := .row frame (r+1) }, .head _ ?_ (.refl _ _ _), rfl, rfl, rfl,
      fun _ ha => ha, fun h => absurd h hlt⟩
    simp [step, State.showNext, State.copy, hpc, hlt]
  | succ k ih =>
    by_cases hlt : col < s.geometry.endX
    · let u : State := { s with accesses := s.accesses ++ [.pixel frame src (uint32 (r*screen.width)+col)],
                                pc := .advance frame r col src }
      let v : State := { u with pc := .pixel frame r (col+1) (src+s.metadata.channels) }
      have hu : step screen s .next = some u := by
        simp [step, State.showNext, State.copy, hpc, hlt, u]
      have hv : step screen u .next = some v := rfl
      have hleft : v.geometry.endX-(col+1) ≤ k := by
        change s.geometry.endX-(col+1) ≤ k
        omega
      obtain ⟨t,hrun,htpc,hgeometry,hmetadata,hmem,hlast⟩ :=
        ih (col+1) (src+s.metadata.channels) v rfl hleft
      refine ⟨t, .head _ hu (.head _ hv hrun), htpc, hgeometry, hmetadata, ?_, fun _ => ?_⟩
      · exact fun a ha => hmem (List.mem_append_left _ ha)
      · by_cases hnext : col+1 < s.geometry.endX
        · obtain ⟨dst,hdst⟩ := hlast hnext
          have hsrc : src+(s.geometry.endX-1-col)*s.metadata.channels =
              src+s.metadata.channels+(s.geometry.endX-1-(col+1))*s.metadata.channels := by ring
          exact ⟨dst, hsrc ▸ hdst⟩
        · have hend : s.geometry.endX-1-col = 0 := by omega
          rw [hend, zero_mul, add_zero]
          exact ⟨uint32 (r*screen.width)+col, hmem (List.mem_append_right _ (List.mem_singleton_self _))⟩
    · refine ⟨{ s with pc := .row frame (r+1) }, .head _ ?_ (.refl _ _ _), rfl, rfl, rfl,
        fun _ ha => ha, fun h => absurd h hlt⟩
      simp [step, State.showNext, State.copy, hpc, hlt]

/-- A row is read: its address is taken, and its last pixel if there is one. -/
theorem row_read (screen : Screen) (frame : Image) (r : ℤ) (s : State)
    (hpc : s.pc = .row frame r) (hlt : r < s.geometry.endY) :
    ∃ t, Repeats (step screen) .next s t ∧ t.pc = .row frame (r+1) ∧
      t.geometry = s.geometry ∧ t.metadata = s.metadata ∧
      .row frame (int32 (r-s.geometry.y.value)) ∈ t.accesses ∧
      (s.geometry.startX < s.geometry.endX → ∃ dst, .pixel frame
        (int32 (r-s.geometry.y.value)*frame.rowBytes+
          (s.geometry.endX-1-s.geometry.startX)*s.metadata.channels) dst ∈ t.accesses) := by
  let index := int32 (r-s.geometry.y.value)
  let u : State := { s with accesses := s.accesses ++ [.row frame index],
                            pc := .pixel frame r s.geometry.startX (index*frame.rowBytes) }
  have hu : step screen s .next = some u := by
    simp [step, State.showNext, State.copy, hpc, hlt, u, index]
  obtain ⟨t,hrun,htpc,hgeometry,hmetadata,hmem,hlast⟩ :=
    row_end screen frame r s.geometry.startX (index*frame.rowBytes) u rfl
  have hrow : .row frame index ∈ u.accesses :=
    List.mem_append_right _ (List.mem_singleton_self _)
  exact ⟨t, .head _ hu hrun, htpc, hgeometry, hmetadata, hmem hrow, hlast⟩

/-- The copy comes to its last row. -/
theorem last_row_read (screen : Screen) (frame : Image) (r : ℤ) (s : State)
    (hpc : s.pc = .row frame r) (hlt : r < s.geometry.endY) :
    ∃ t, Repeats (step screen) .next s t ∧
      .row frame (int32 (s.geometry.endY-1-s.geometry.y.value)) ∈ t.accesses ∧
      (s.geometry.startX < s.geometry.endX → ∃ dst, .pixel frame
        (int32 (s.geometry.endY-1-s.geometry.y.value)*frame.rowBytes+
          (s.geometry.endX-1-s.geometry.startX)*s.metadata.channels) dst ∈ t.accesses) := by
  -- by the number of rows left
  obtain ⟨k,hk⟩ : ∃ k : ℕ, s.geometry.endY-1-r ≤ k := ⟨_, Int.self_le_toNat _⟩
  obtain ⟨t,hrun,htpc,hgeometry,hmetadata,hrow,hpixel⟩ := row_read screen frame r s hpc hlt
  induction k generalizing r s t with
  | zero =>
    obtain rfl : r = s.geometry.endY-1 := by omega
    exact ⟨t, hrun, hrow, hpixel⟩
  | succ k ih =>
    by_cases hnext : r+1 < s.geometry.endY
    · rw [← hgeometry] at hnext
      obtain ⟨u,hrun',hupc,hgeometry',hmetadata',hrow',hpixel'⟩ :=
        row_read screen frame (r+1) t htpc hnext
      have hleft : t.geometry.endY-1-(r+1) ≤ k := by
        rw [hgeometry]
        omega
      obtain ⟨v,hv,hresult⟩ :=
        ih (r+1) t htpc hnext hleft u hrun' hupc hgeometry' hmetadata' hrow' hpixel'
      rw [hgeometry, hmetadata] at hresult
      exact ⟨v, hrun.trans _ hv, hresult⟩
    · obtain rfl : r = s.geometry.endY-1 := by omega
      exact ⟨t, hrun, hrow, hpixel⟩

/-- The condition on a copy is exact: a copy that it does not allow, and during
which the metadata stays as it is, comes to an access outside the frame. -/
theorem copy_outside (screen : Screen) (s : State) (frame : Image) (hinv : CopyInv s)
    (hpc : s.pc = .got (some frame)) (hint : s.geometry.endY-s.geometry.y.value ≤ 2^31)
    (hbad : ¬ CopyOk screen s .next) :
    ∃ t, Repeats (step screen) .next s t ∧ ∃ a ∈ t.accesses, ¬ a.Inside := by
  simp only [CopyOk, hpc, not_forall] at hbad
  obtain ⟨hfull,hmapped,hfits⟩ := hbad
  have hstart : s.geometry.y.value ≤ s.geometry.startY :=
    hinv.start (by simp [hpc, ShowPc.computed])
  let u : State := { s with pc := .row frame s.geometry.startY }
  have hu : step screen s .next = some u := by
    simp [step, State.showNext, State.copy, hpc, hfull, hmapped, u]
  unfold Geometry.FitsFrom at hfits
  push Not at hfits
  obtain ⟨hlt,hfits⟩ := hfits
  obtain ⟨t,hrun,hrow,hpixel⟩ := last_row_read screen frame s.geometry.startY u rfl hlt
  change .row frame (int32 (s.geometry.endY-1-s.geometry.y.value)) ∈ t.accesses at hrow
  have hindex : int32 (s.geometry.endY-1-s.geometry.y.value) =
      s.geometry.endY-1-s.geometry.y.value := int32_eq_self _ (by omega) (by omega)
  refine ⟨t, .head _ hu hrun, ?_⟩
  by_cases hrows : s.geometry.endY-s.geometry.y.value ≤ frame.rows
  · -- the last pixel does not end in the frame
    obtain ⟨hcol,hbytes⟩ := hfits hrows
    obtain ⟨dst,hdst⟩ := hpixel hcol
    refine ⟨_, hdst, fun hinside => ?_⟩
    have hlast := hinside.2
    change int32 (s.geometry.endY-1-s.geometry.y.value)*frame.rowBytes+
      (s.geometry.endX-1-s.geometry.startX)*s.metadata.channels+2 < bytes frame at hlast
    rw [hindex] at hlast
    omega
  · -- the last row is not one of the frame
    refine ⟨_, hrow, fun hinside => ?_⟩
    have hlast := hinside.2
    rw [hindex] at hlast
    omega

/-- On one axis the copy ends at the end of the frame or before, and is not longer
than the frame. -/
theorem bounds_within (screen size : ℕ) (hscreen : screen < 2^31) (hsize : size < 2^31) :
    (bounds screen (position screen size) size).2-position screen size ≤ size ∧
      (bounds screen (position screen size) size).2-
        (bounds screen (position screen size) size).1 ≤ size := by
  have hposition : position screen size = (screen/2:ℕ)-(size/2:ℕ) :=
    int32_eq_self _ (by omega) (by omega)
  have hend : uint32 (position screen size+size) = position screen size+size :=
    uint32_eq_self _ (by omega) (by omega)
  simp only [bounds, hend]
  omega

/-- A frame of the sizes in the metadata, whose pixels are at least three bytes,
fits the geometry that was computed from them. -/
theorem fitsFrom_of_current (screen : Screen) (s : State) (frame : Frame) (r : ℤ)
    (hwidth : screen.width < 2^31) (hheight : screen.height < 2^31) (hcurrent : Current screen s)
    (hcols : s.metadata.width.value = frame.cols) (hrows : s.metadata.height.value = frame.rows)
    (hdepth : 3 ≤ frame.channels*frame.elemSize1) :
    s.geometry.FitsFrom frame.channels frame.toImage r := by
  obtain ⟨hx,hy,hspanX,hspanY,-⟩ := hcurrent
  rw [hcols] at hx hspanX
  rw [hrows] at hy hspanY
  have hlenX : s.geometry.endX-s.geometry.startX ≤ frame.cols := by
    rw [Geometry.endX, Geometry.startX, hspanX, hx]
    exact (bounds_within screen.width frame.cols hwidth frame.cols_lt).2
  have hendY : s.geometry.endY-s.geometry.y.value ≤ frame.rows := by
    rw [Geometry.endY, hspanY, hy]
    exact (bounds_within screen.height frame.rows hheight frame.rows_lt).1
  intro _
  refine ⟨hendY, fun hcol => ?_⟩
  have hlast : (s.geometry.endY-1-s.geometry.y.value)*frame.rowBytes ≤
      ((frame.rows:ℤ)-1)*frame.rowBytes :=
    mul_le_mul_of_nonneg_right (by omega) (by positivity)
  have hpixel : (s.geometry.endX-1-s.geometry.startX)*frame.channels ≤
      ((frame.cols:ℤ)-1)*(frame.channels*frame.elemSize1) := by
    have hc : (frame.channels:ℤ) ≤ frame.channels*frame.elemSize1 := by
      exact_mod_cast Nat.le_mul_of_pos_right _ (Image.elemSize1_pos _)
    exact mul_le_mul (by omega) hc (by positivity) (by omega)
  have hthree : (3:ℤ) ≤ frame.channels*frame.elemSize1 := by exact_mod_cast hdepth
  have hrow : (frame.rowBytes:ℤ) = frame.cols*(frame.channels*frame.elemSize1) := by
    simp [Image.rowBytes]
  unfold bytes
  calc
    _ ≤ ((frame.rows:ℤ)-1)*frame.rowBytes+
        ((frame.cols:ℤ)-1)*(frame.channels*frame.elemSize1)+2 := by linarith
    _ = frame.rows*frame.rowBytes-frame.channels*frame.elemSize1+2 := by rw [hrow]; ring
    _ < _ := by linarith

instance decidableInside : ∀ a : Access, Decidable a.Inside
  | .row .. => inferInstanceAs (Decidable (_ ∧ _))
  | .pixel .. => inferInstanceAs (Decidable (_ ∧ _))

instance decidableFitsFrom (g : Geometry) (channels : ℕ) (frame : Image) (r : ℤ) :
    Decidable (g.FitsFrom channels frame r) :=
  inferInstanceAs (Decidable (_ → _ ∧ (_ → _)))

instance decidableFits (g : Geometry) (channels : ℕ) : ∀ pc, Decidable (g.Fits channels pc)
  | .row .. => inferInstanceAs (Decidable (g.FitsFrom _ _ _))
  | .pixel .. | .advance .. => inferInstanceAs (Decidable ((_ → _) ∧ g.FitsFrom _ _ _))
  | .posX | .posY | .boundX | .boundY | .time | .loop | .check | .lastVer | .call | .reading
  | .got _ | .ended => isTrue trivial

instance decidableCopyOk (screen : Screen) (s : State) : ∀ e, Decidable (CopyOk screen s e)
  | .next =>
    match h : s.pc with
    | .got (some frame) => decidable_of_iff (frame.isEmpty = false → screen.mapped = true →
        s.geometry.FitsFrom s.metadata.channels frame s.geometry.startY) (by simp [CopyOk, h])
    | .got none | .posX | .posY | .boundX | .boundY | .time | .loop | .check | .lastVer | .call
    | .reading | .row .. | .pixel .. | .advance .. | .ended => isTrue (by simp [CopyOk, h])
  | .produce .. =>
    match h : s.load with
    | .update .channels frame .. =>
      decidable_of_iff (s.geometry.Fits frame.channels s.pc) (by simp [CopyOk, h])
    | .update .width .. | .update .height .. | .update .fps .. | .update .flip .. | .idle
    | .raise _ | .write _ | .count _ => isTrue (by simp [CopyOk, h])
  | .loadFrame _ | .halt => isTrue trivial

/-- A frame of two by two pixels, shown in the middle of the screen. -/
def smallFrame : List Event :=
  List.flatten [List.replicate 5 .next,
    [.loadFrame ⟨⟨2, 2, 16, []⟩, by decide, by decide⟩], List.replicate 8 (.produce 0 1),
    List.replicate 26 .next]

theorem copy_inside_small : ∃ s,
    run (step ⟨6, 4, true⟩) (init (fun _ => ⟨0, 0, 0, []⟩) 0) smallFrame = some s ∧
      s.accesses.length = 6 ∧ ∀ a ∈ s.accesses, a.Inside := by
  have hany : (run (step ⟨6, 4, true⟩) (init (fun _ => ⟨0, 0, 0, []⟩) 0) smallFrame).any
      (fun s => s.accesses.length = 6) := by
    decide +kernel
  obtain ⟨s,hrun,hs⟩ := (Option.any_eq_true _ _).mp hany
  exact ⟨s, hrun, of_decide_eq_true hs,
    copy_inside ⟨6, 4, true⟩ _ 0 smallFrame s hrun (by decide +kernel)⟩

/-- The first frame is loaded between the version test and the read of an
iteration, which copies it with the geometry of 1920 by 1080. -/
def firstFrame : List Event :=
  List.flatten [List.replicate 7 .next,
    [.loadFrame ⟨⟨120, 160, 16, []⟩, by decide, by decide⟩], List.replicate 8 (.produce 0 1),
    List.replicate 6 .next]

-- the first row of the screen takes row 420 of the 120 rows of the frame
theorem first_frame_outside : ∃ s,
    run (step ⟨320, 240, true⟩) (init (fun _ => ⟨0, 0, 0, []⟩) 0) firstFrame = some s ∧
      ∃ a ∈ s.accesses, ¬ a.Inside := by
  have hany : (run (step ⟨320, 240, true⟩) (init (fun _ => ⟨0, 0, 0, []⟩) 0) firstFrame).any
      (fun s => .row ⟨120, 160, 16, []⟩ 420 ∈ s.accesses) := by
    decide +kernel
  obtain ⟨s,hrun,hs⟩ := (Option.any_eq_true _ _).mp hany
  exact ⟨s, hrun, _, of_decide_eq_true hs, by decide⟩

end CppOperate.Show

import CppOperate.DriverShow

/-! When the version test of `show_img` keeps the geometry in step with the
metadata. -/
namespace CppOperate.Show
open StepRuns StampedCells CNumbers

/-- The place of a statement in `update`. -/
def UpdatePc.order : UpdatePc → ℕ
  | .width => 0
  | .height => 1
  | .channels => 2
  | .fps => 3
  | .flip => 4

/-- 1 if the update in progress is past its statement `k`. -/
def LoadPc.past (k : ℕ) : LoadPc → ℕ
  | .update at_ .. => if k < at_.order then 1 else 0
  | _ => 0

/-- How many locals of the geometry are computed. -/
def ShowPc.computed : ShowPc → ℕ
  | .posX => 0
  | .posY => 1
  | .boundX => 2
  | .boundY => 3
  | .time => 4
  | _ => 5

/-- Every local was computed from fields not older than the `n`-th update. -/
def Geometry.Since (g : Geometry) (n : ℕ) : Prop :=
  n ≤ g.x.stamp ∧ n ≤ g.y.stamp ∧ n ≤ g.spanX.stamp ∧ n ≤ g.spanY.stamp ∧ n ≤ g.frameTime.stamp

/-- The geometry is the one of the metadata as it is now. -/
def Current (screen : Screen) (s : State) : Prop :=
  let m := s.metadata
  let g := s.geometry
  g.x.value = position screen.width m.width.value ∧
    g.y.value = position screen.height m.height.value ∧
    g.spanX.value = bounds screen.width g.x.value m.width.value ∧
    g.spanY.value = bounds screen.height g.y.value m.height.value ∧
    g.frameTime.value = 1/m.fps.value

/-- A version test after an even number of flips finds nothing that the geometry
was not computed from; a check reads a field when the updates that had started
before the check have written it. -/
def CheckOk (s : State) : Event → Prop
  | .next =>
    match s.pc with
    | .check => (s.metadata.flips-s.lastFlips) % 2 = 0 → s.geometry.Since s.started
    | .posY | .boundY => s.checkStarted ≤ s.metadata.height.stamp
    | .time => s.checkStarted ≤ s.metadata.fps.stamp
    | _ => True
  | _ => True

/-- The version and `last_ver` are the parities of the flips they stand for, and
each local is derived from the field it is computed from. -/
structure Inv (screen : Screen) (s : State) : Prop where
  version : s.metadata.version = s.metadata.flips.bodd
  lastVer : s.lastVer = s.lastFlips.bodd
  lastFlips_le : s.lastFlips ≤ s.metadata.flips
  width : s.metadata.width.stamp = s.metadata.flips+s.load.past 0
  height : s.metadata.height.stamp = s.metadata.flips+s.load.past 1
  fps : s.metadata.fps.stamp = s.metadata.flips+s.load.past 3
  begun : s.checkStarted ≤ s.started
  x : 0 < s.pc.computed →
    DerivedSince s.checkStarted s.geometry.x s.metadata.width (position screen.width)
  y : 1 < s.pc.computed →
    DerivedSince s.checkStarted s.geometry.y s.metadata.height (position screen.height)
  spanX : 2 < s.pc.computed → DerivedSince s.checkStarted s.geometry.spanX s.metadata.width
    (bounds screen.width s.geometry.x.value)
  spanY : 3 < s.pc.computed → DerivedSince s.checkStarted s.geometry.spanY s.metadata.height
    (bounds screen.height s.geometry.y.value)
  frameTime : 4 < s.pc.computed →
    DerivedSince s.checkStarted s.geometry.frameTime s.metadata.fps fun fps => 1/fps

theorem init_inv (screen : Screen) (heap : Driver.Cell → Driver.Image) (frameCount : ℕ) :
    Inv screen (init heap frameCount) := by
  constructor <;> simp [init, LoadPc.past, ShowPc.computed]

/-- The version test sees a change when the number of flips since `last_ver` was
read is odd. -/
theorem Inv.version_eq_iff (screen : Screen) (s : State) (hinv : Inv screen s) :
    s.metadata.version = s.lastVer ↔ (s.metadata.flips-s.lastFlips) % 2 = 0 := by
  obtain ⟨k,hk⟩ := Nat.exists_eq_add_of_le hinv.lastFlips_le
  rw [hinv.version, hinv.lastVer, hk, Nat.bodd_add, Nat.add_sub_cancel_left, Nat.mod_two_of_bodd]
  cases s.lastFlips.bodd <;> cases k.bodd <;> simp

/-- A statement of the caller that is not one of `update`. -/
theorem Inv.caller (screen : Screen) (s : State) (hinv : Inv screen s) (load : LoadPc)
    (hpast : ∀ k, load.past k = s.load.past k) (b : Driver.State) (running isSet : Bool)
    (count : ℕ) :
    Inv screen { s with frameBuffer := b, running := running, isSetFrameSize := isSet,
                        frameCount := count, load := load } := by
  have hwidth : s.metadata.width.stamp = s.metadata.flips+load.past 0 := by
    rw [hpast]
    exact hinv.width
  have hheight : s.metadata.height.stamp = s.metadata.flips+load.past 1 := by
    rw [hpast]
    exact hinv.height
  have hfps : s.metadata.fps.stamp = s.metadata.flips+load.past 3 := by
    rw [hpast]
    exact hinv.fps
  exact { hinv with width := hwidth, height := hheight, fps := hfps }

/-- A statement of the loop after the geometry is computed, which keeps all of it. -/
theorem Inv.after (screen : Screen) (s : State) (hinv : Inv screen s) (hpc : s.pc.computed = 5)
    (b : Driver.State) (entered : Bool) (accesses : List Access) (next : ShowPc) :
    Inv screen { s with frameBuffer := b, entered := entered, accesses := accesses,
                        pc := next } := by
  have hle : next.computed ≤ s.pc.computed := by
    rw [hpc]
    cases next <;> simp [ShowPc.computed]
  exact { hinv with
    x := fun h => hinv.x (h.trans_le hle)
    y := fun h => hinv.y (h.trans_le hle)
    spanX := fun h => hinv.spanX (h.trans_le hle)
    spanY := fun h => hinv.spanY (h.trans_le hle)
    frameTime := fun h => hinv.frameTime (h.trans_le hle) }

/-- A statement of `update` leaves the stamp of field `k` one ahead of the flips
from the write of the field to the flip. -/
theorem stamp_update (k : ℕ) (hk : k < 4) (at_ : UpdatePc) (stamp flips : ℕ)
    (h : stamp = flips+if k < at_.order then 1 else 0) :
    (if at_.order = k then flips+1 else stamp) =
      (if at_ = .flip then flips+1 else flips)+
        if at_ = .flip then 0 else if k < at_.order+1 then 1 else 0 := by
  subst h
  interval_cases k <;> cases at_ <;> rfl

/-- A statement of `update` makes what was computed from its field older. -/
theorem Inv.update (screen : Screen) (s : State) (hinv : Inv screen s) (at_ : UpdatePc)
    (frame : Frame) (fps : ℚ) (first : Bool) (load : LoadPc)
    (hload : s.load = .update at_ frame fps first)
    (hpast : ∀ k, load.past k = if at_ = .flip then 0 else if k < at_.order+1 then 1 else 0) :
    Inv screen { s with metadata := s.metadata.update frame.toImage fps at_, load := load } := by
  have hbefore : ∀ k, s.load.past k = if k < at_.order then 1 else 0 := by
    intro k
    rw [hload]
    rfl
  have hwidth := hinv.width
  have hheight := hinv.height
  have hfps := hinv.fps
  rw [hbefore] at hwidth hheight hfps
  have hwidth' : (s.metadata.update frame.toImage fps at_).width.stamp =
      (s.metadata.update frame.toImage fps at_).flips+load.past 0 := by
    have hstamp := stamp_update 0 (by decide) at_ _ _ hwidth
    rw [hpast]
    cases at_ <;> exact hstamp
  have hheight' : (s.metadata.update frame.toImage fps at_).height.stamp =
      (s.metadata.update frame.toImage fps at_).flips+load.past 1 := by
    have hstamp := stamp_update 1 (by decide) at_ _ _ hheight
    rw [hpast]
    cases at_ <;> exact hstamp
  have hfps' : (s.metadata.update frame.toImage fps at_).fps.stamp =
      (s.metadata.update frame.toImage fps at_).flips+load.past 3 := by
    have hstamp := stamp_update 3 (by decide) at_ _ _ hfps
    rw [hpast]
    cases at_ <;> exact hstamp
  cases at_ with
  | width =>
    have hlt : s.metadata.width.stamp < s.metadata.flips+1 := by
      rw [hwidth]
      simp [UpdatePc.order]
    have hbegun : s.checkStarted ≤ s.metadata.flips+1 := hinv.begun.trans hlt.le
    exact { hinv with
      width := hwidth', height := hheight', fps := hfps', begun := hbegun
      x := fun h => (hinv.x h).write _ _ hlt
      spanX := fun h => (hinv.spanX h).write _ _ hlt }
  | height =>
    have hlt : s.metadata.height.stamp < s.metadata.flips+1 := by
      rw [hheight]
      simp [UpdatePc.order]
    exact { hinv with
      width := hwidth', height := hheight', fps := hfps'
      y := fun h => (hinv.y h).write _ _ hlt
      spanY := fun h => (hinv.spanY h).write _ _ hlt }
  | channels => exact { hinv with width := hwidth', height := hheight', fps := hfps' }
  | fps =>
    have hlt : s.metadata.fps.stamp < s.metadata.flips+1 := by
      rw [hfps]
      simp [UpdatePc.order]
    exact { hinv with
      width := hwidth', height := hheight', fps := hfps'
      frameTime := fun h => (hinv.frameTime h).write _ _ hlt }
  | flip =>
    have hversion : (!s.metadata.version) = (s.metadata.flips+1).bodd := by
      rw [hinv.version, Nat.bodd_succ]
    have hle : s.lastFlips ≤ s.metadata.flips+1 := hinv.lastFlips_le.trans (Nat.le_succ _)
    exact { hinv with
      version := hversion, lastFlips_le := hle, width := hwidth', height := hheight',
      fps := hfps' }

theorem Inv.produce (screen : Screen) (s t : State) (hinv : Inv screen s) (fresh : Driver.Cell)
    (elapsed : ℚ) (h : s.produce fresh elapsed = some t) : Inv screen t := by
  rcases produce_cases s t fresh elapsed h with ⟨at_,frame,fps,first,hload,rfl⟩ |
    ⟨frame,hload,rfl⟩ | ⟨frame,b,hload,-,rfl⟩ | ⟨frame,hload,rfl⟩ | ⟨frame,hload,rfl⟩
  · apply hinv.update screen s at_ frame fps first _ hload
    intro k
    cases at_ <;> cases first <;> rfl
  · have hpast : ∀ k, (LoadPc.write frame).past k = s.load.past k := by simp [hload, LoadPc.past]
    exact hinv.caller screen s _ hpast _ _ _ _
  · have hpast : ∀ k, (LoadPc.count frame).past k = s.load.past k := by simp [hload, LoadPc.past]
    exact hinv.caller screen s _ hpast _ _ _ _
  · have hpast : ∀ k, (LoadPc.update .width frame (25/elapsed) false).past k = s.load.past k := by
      simp [hload, LoadPc.past, UpdatePc.order]
    exact hinv.caller screen s _ hpast _ _ _ _
  · have hpast : ∀ k, LoadPc.idle.past k = s.load.past k := by simp [hload, LoadPc.past]
    exact hinv.caller screen s _ hpast _ _ _ _

theorem Inv.loadFrame (screen : Screen) (s t : State) (hinv : Inv screen s) (frame : Frame)
    (h : s.loadFrame frame = some t) : Inv screen t := by
  unfold State.loadFrame at h
  cases hload : s.load with
  | idle =>
    simp only [hload, Option.some.injEq] at h
    subst h
    apply hinv.caller screen s
    intro k
    cases hset : s.isSetFrameSize <;> simp [hload, LoadPc.past, UpdatePc.order]
  | _ => simp [hload] at h

theorem Inv.showNext (screen : Screen) (s t : State) (hinv : Inv screen s)
    (hok : CheckOk s .next) (h : s.showNext screen = some t) : Inv screen t := by
  unfold State.showNext at h
  unfold CheckOk at hok
  cases hpc : s.pc with
  | posX =>
    simp only [hpc, Option.some.injEq] at h
    subst h
    refine { hinv with x := ?_, y := ?_, spanX := ?_, spanY := ?_, frameTime := ?_ }
    · exact fun _ => derivedSince_map _ _ _ hinv.begun
    all_goals
      intro h
      simp [ShowPc.computed] at h
  | posY =>
    simp only [hpc, Option.some.injEq] at h hok
    subst h
    have hcomputed : s.pc.computed = 1 := by rw [hpc]; rfl
    refine { hinv with x := ?_, y := ?_, spanX := ?_, spanY := ?_, frameTime := ?_ }
    · exact fun _ => hinv.x (by omega)
    · exact fun _ => derivedSince_map _ _ _ hok
    all_goals
      intro h
      simp [ShowPc.computed] at h
  | boundX =>
    simp only [hpc, Option.some.injEq] at h
    subst h
    have hcomputed : s.pc.computed = 2 := by rw [hpc]; rfl
    refine { hinv with x := ?_, y := ?_, spanX := ?_, spanY := ?_, frameTime := ?_ }
    · exact fun _ => hinv.x (by omega)
    · exact fun _ => hinv.y (by omega)
    · exact fun _ => derivedSince_map _ _ _ hinv.begun
    all_goals
      intro h
      simp [ShowPc.computed] at h
  | boundY =>
    simp only [hpc, Option.some.injEq] at h hok
    subst h
    have hcomputed : s.pc.computed = 3 := by rw [hpc]; rfl
    refine { hinv with x := ?_, y := ?_, spanX := ?_, spanY := ?_, frameTime := ?_ }
    · exact fun _ => hinv.x (by omega)
    · exact fun _ => hinv.y (by omega)
    · exact fun _ => hinv.spanX (by omega)
    · exact fun _ => derivedSince_map _ _ _ hok
    · intro h
      simp [ShowPc.computed] at h
  | time =>
    simp only [hpc, Option.some.injEq] at h hok
    subst h
    have hcomputed : s.pc.computed = 4 := by rw [hpc]; rfl
    refine { hinv with x := ?_, y := ?_, spanX := ?_, spanY := ?_, frameTime := ?_ }
    · exact fun _ => hinv.x (by omega)
    · exact fun _ => hinv.y (by omega)
    · exact fun _ => hinv.spanX (by omega)
    · exact fun _ => hinv.spanY (by omega)
    · exact fun _ => derivedSince_map _ _ _ hok
  | loop =>
    simp only [hpc, Option.some.injEq] at h
    subst h
    exact hinv.after screen s (by rw [hpc]; rfl) _ _ _ _
  | check =>
    simp only [hpc, Option.some.injEq] at h hok
    subst h
    have hcomputed : s.pc.computed = 5 := by rw [hpc]; rfl
    rw [← hinv.version_eq_iff] at hok
    by_cases hsame : s.metadata.version = s.lastVer
    · -- no change is seen, and nothing has started since the reads
      obtain ⟨hx,hy,hspanX,hspanY,htime⟩ := hok hsame
      refine { hinv with
        begun := le_rfl, x := ?_, y := ?_, spanX := ?_, spanY := ?_, frameTime := ?_ }
      · exact fun _ => (hinv.x (by omega)).since hx
      · exact fun _ => (hinv.y (by omega)).since hy
      · exact fun _ => (hinv.spanX (by omega)).since hspanX
      · exact fun _ => (hinv.spanY (by omega)).since hspanY
      · exact fun _ => (hinv.frameTime (by omega)).since htime
    · refine { hinv with
        begun := le_rfl, x := ?_, y := ?_, spanX := ?_, spanY := ?_, frameTime := ?_ }
      all_goals
        intro h
        simp [hsame, ShowPc.computed] at h
  | lastVer =>
    simp only [hpc, Option.some.injEq] at h
    subst h
    have hcomputed : s.pc.computed = 5 := by rw [hpc]; rfl
    refine { hinv with
      lastVer := hinv.version, lastFlips_le := le_rfl,
      x := ?_, y := ?_, spanX := ?_, spanY := ?_, frameTime := ?_ }
    · exact fun _ => hinv.x (by omega)
    · exact fun _ => hinv.y (by omega)
    · exact fun _ => hinv.spanX (by omega)
    · exact fun _ => hinv.spanY (by omega)
    · exact fun _ => hinv.frameTime (by omega)
  | call =>
    simp only [hpc, Option.map_eq_some_iff] at h
    obtain ⟨b,-,rfl⟩ := h
    exact hinv.after screen s (by rw [hpc]; rfl) _ _ _ _
  | reading =>
    simp only [hpc, Option.map_eq_some_iff] at h
    obtain ⟨b,-,rfl⟩ := h
    exact hinv.after screen s (by rw [hpc]; rfl) _ _ _ _
  | _ =>
    simp only [hpc] at h
    obtain ⟨accesses,next,rfl⟩ := copy_cases screen s t _ h
    exact hinv.after screen s (by rw [hpc]; rfl) _ _ _ _

theorem Inv.step (screen : Screen) (s : State) (e : Event) (t : State) (hinv : Inv screen s)
    (hok : CheckOk s e) (h : step screen s e = some t) : Inv screen t := by
  cases e with
  | loadFrame frame => exact hinv.loadFrame screen s t frame h
  | produce fresh elapsed => exact hinv.produce screen s t fresh elapsed h
  | next => exact hinv.showNext screen s t hok h
  | halt =>
    cases h
    exact { hinv with }

/-- When every check of a run is allowed, the geometry in use is the one of the
metadata until an update starts after the last version test. -/
theorem checks_current (screen : Screen) (heap : Driver.Cell → Driver.Image) (frameCount : ℕ)
    (events : List Event) (s : State)
    (hrun : run (step screen) (init heap frameCount) events = some s)
    (hok : Meets (step screen) CheckOk (init heap frameCount) events)
    (hpc : s.pc.computed = 5) (hstill : s.started = s.checkStarted) : Current screen s := by
  have hinv : Inv screen s :=
    run_invariant_of_meets (step screen) CheckOk (Inv screen) (Inv.step screen) _ s events
      (init_inv screen heap frameCount) hok hrun
  have hpast : ∀ k, s.load.past k ≤ s.load.past 0 := by
    intro k
    cases s.load <;> simp only [LoadPc.past, le_refl]
    split_ifs <;> omega
  -- the fields are as old as the last version test
  have hwidth : s.metadata.width.stamp ≤ s.checkStarted := hstill.le
  have hheight : s.metadata.height.stamp ≤ s.checkStarted := by
    calc
      s.metadata.height.stamp = s.metadata.flips+s.load.past 1 := hinv.height
      _ ≤ s.metadata.flips+s.load.past 0 := Nat.add_le_add_left (hpast 1) _
      _ = s.metadata.width.stamp := hinv.width.symm
      _ ≤ s.checkStarted := hwidth
  have hfps : s.metadata.fps.stamp ≤ s.checkStarted := by
    calc
      s.metadata.fps.stamp = s.metadata.flips+s.load.past 3 := hinv.fps
      _ ≤ s.metadata.flips+s.load.past 0 := Nat.add_le_add_left (hpast 3) _
      _ = s.metadata.width.stamp := hinv.width.symm
      _ ≤ s.checkStarted := hwidth
  exact ⟨(hinv.x (by omega)).value_eq hwidth, (hinv.y (by omega)).value_eq hheight,
    (hinv.spanX (by omega)).value_eq hwidth, (hinv.spanY (by omega)).value_eq hheight,
    (hinv.frameTime (by omega)).value_eq hfps⟩

/-- Every local was computed from its field as the last write left it. -/
def UpToDate (s : State) : Prop :=
  let m := s.metadata
  let g := s.geometry
  g.x.stamp = m.width.stamp ∧ g.y.stamp = m.height.stamp ∧ g.spanX.stamp = m.width.stamp ∧
    g.spanY.stamp = m.height.stamp ∧ g.frameTime.stamp = m.fps.stamp

/-- Between two updates the condition on a version test that sees no change is
exact: the geometry it leaves in use is up to date or the condition fails. -/
theorem upToDate_iff_of_skip (screen : Screen) (s t : State) (hinv : Inv screen s)
    (hpc : s.pc = .check) (hidle : ∀ k, s.load.past k = 0) (hskip : s.metadata.version = s.lastVer)
    (h : step screen s .next = some t) :
    t.pc = .call ∧ t.started = t.checkStarted ∧ (UpToDate t ↔ CheckOk s .next) := by
  have hcomputed : s.pc.computed = 5 := by rw [hpc]; rfl
  have hwidth : s.metadata.width.stamp = s.metadata.flips := by rw [hinv.width, hidle]; rfl
  have hheight : s.metadata.height.stamp = s.metadata.flips := by rw [hinv.height, hidle]; rfl
  have hfps : s.metadata.fps.stamp = s.metadata.flips := by rw [hinv.fps, hidle]; rfl
  -- no local is newer than its field
  have hx := (hinv.x (by omega)).1.1
  have hy := (hinv.y (by omega)).1.1
  have hspanX := (hinv.spanX (by omega)).1.1
  have hspanY := (hinv.spanY (by omega)).1.1
  have htime := (hinv.frameTime (by omega)).1.1
  have heven := (hinv.version_eq_iff screen s).mp hskip
  simp only [step, State.showNext, hpc, hskip, if_true, Option.some.injEq] at h
  subst h
  refine ⟨rfl, rfl, ?_⟩
  simp only [CheckOk, hpc, heven, forall_const, UpToDate, Geometry.Since, State.started]
  constructor
  · rintro ⟨h1,h2,h3,h4,h5⟩
    refine ⟨h1.ge, ?_, h3.ge, ?_, ?_⟩ <;> omega
  · rintro ⟨h1,h2,h3,h4,h5⟩
    refine ⟨?_, ?_, ?_, ?_, ?_⟩ <;> omega

/-- A field that is behind the start of the check waits for the update in progress. -/
theorem Inv.pending (screen : Screen) (s : State) (hinv : Inv screen s) (k stamp : ℕ)
    (hstamp : stamp = s.metadata.flips+s.load.past k) (h : stamp < s.checkStarted) :
    s.checkStarted = s.metadata.flips+1 ∧ s.started = s.checkStarted ∧
      ∃ at_ frame fps first, s.load = .update at_ frame fps first ∧
        0 < at_.order ∧ at_.order ≤ k := by
  have hwidth : s.started = s.metadata.flips+s.load.past 0 := hinv.width
  have hbegun := hinv.begun
  cases hload : s.load with
  | update at_ frame fps first =>
    simp only [hload, LoadPc.past] at hwidth hstamp
    have hpos : 0 < at_.order := by
      by_contra hpos
      rw [if_neg hpos] at hwidth
      omega
    have hle : at_.order ≤ k := by
      by_contra hle
      rw [if_pos (by omega)] at hstamp
      rw [if_pos hpos] at hwidth
      omega
    rw [if_pos hpos] at hwidth
    rw [if_neg (by omega)] at hstamp
    exact ⟨by omega, by omega, at_, frame, fps, first, rfl, hpos, hle⟩
  | _ =>
    simp only [hload, LoadPc.past] at hwidth hstamp
    omega

/-- The condition on the reads of a check is exact: one in the middle of an update
that is still to write the field makes a geometry that the update leaves stale. -/
theorem torn_read_stale (screen : Screen) (s : State) (hinv : Inv screen s)
    (hpc : s.pc = .posY ∨ s.pc = .boundY ∨ s.pc = .time) (hbad : ¬ CheckOk s .next) :
    ∃ rest t, run (step screen) s (.next :: rest) = some t ∧ t.pc.computed = 5 ∧
      t.started = t.checkStarted ∧ ¬ UpToDate t := by
  rcases hpc with hpc | hpc | hpc
  · have hold : s.metadata.height.stamp < s.checkStarted := by simpa [CheckOk, hpc] using hbad
    obtain ⟨hflips,hstarted,at_,frame,fps,first,hload,hpos,hle⟩ :=
      hinv.pending screen s 1 _ hinv.height hold
    cases at_ with
    | height =>
      refine ⟨[.next, .next, .next, .produce 0 0], ?_⟩
      simp only [run, step, State.showNext, State.produce, hpc, hload, Option.bind_some,
        Option.some.injEq, exists_eq_left']
      refine ⟨by cases s.entered <;> rfl, hstarted, ?_⟩
      rintro ⟨-,hy,-⟩
      exact hold.ne (hy.trans hflips.symm)
    | _ => simp [UpdatePc.order] at hpos hle
  · have hold : s.metadata.height.stamp < s.checkStarted := by simpa [CheckOk, hpc] using hbad
    obtain ⟨hflips,hstarted,at_,frame,fps,first,hload,hpos,hle⟩ :=
      hinv.pending screen s 1 _ hinv.height hold
    cases at_ with
    | height =>
      refine ⟨[.next, .produce 0 0], ?_⟩
      simp only [run, step, State.showNext, State.produce, hpc, hload, Option.bind_some,
        Option.some.injEq, exists_eq_left']
      refine ⟨by cases s.entered <;> rfl, hstarted, ?_⟩
      rintro ⟨-,-,-,hspanY,-⟩
      exact hold.ne (hspanY.trans hflips.symm)
    | _ => simp [UpdatePc.order] at hpos hle
  · have hold : s.metadata.fps.stamp < s.checkStarted := by simpa [CheckOk, hpc] using hbad
    obtain ⟨hflips,hstarted,at_,frame,fps,first,hload,hpos,hle⟩ :=
      hinv.pending screen s 3 _ hinv.fps hold
    have hrest : ∃ rest t, run (step screen) s (.next :: rest) = some t ∧ t.pc.computed = 5 ∧
        t.started = t.checkStarted ∧ t.geometry.frameTime.stamp = s.metadata.fps.stamp ∧
        t.metadata.fps.stamp = s.metadata.flips+1 := by
      cases at_ with
      | height =>
        refine ⟨[.produce 0 0, .produce 0 0, .produce 0 0], ?_⟩
        simp only [run, step, State.showNext, State.produce, hpc, hload, UpdatePc.next,
          Option.bind_some, Option.some.injEq, exists_eq_left']
        exact ⟨by cases s.entered <;> rfl, hstarted, rfl, rfl⟩
      | channels =>
        refine ⟨[.produce 0 0, .produce 0 0], ?_⟩
        simp only [run, step, State.showNext, State.produce, hpc, hload, UpdatePc.next,
          Option.bind_some, Option.some.injEq, exists_eq_left']
        exact ⟨by cases s.entered <;> rfl, hstarted, rfl, rfl⟩
      | fps =>
        refine ⟨[.produce 0 0], ?_⟩
        simp only [run, step, State.showNext, State.produce, hpc, hload, UpdatePc.next,
          Option.bind_some, Option.some.injEq, exists_eq_left']
        exact ⟨by cases s.entered <;> rfl, hstarted, rfl, rfl⟩
      | _ => simp [UpdatePc.order] at hpos hle
    obtain ⟨rest,t,hrun,hcomputed,hsame,htime,hfps⟩ := hrest
    refine ⟨rest, t, hrun, hcomputed, hsame, ?_⟩
    rintro ⟨-,-,-,-,hcurrent⟩
    rw [htime, hfps] at hcurrent
    exact hold.ne (hcurrent.trans hflips.symm)

instance decidableSince (g : Geometry) (n : ℕ) : Decidable (g.Since n) :=
  inferInstanceAs (Decidable (_ ∧ _ ∧ _ ∧ _ ∧ _))

instance decidableCurrent (screen : Screen) (s : State) : Decidable (Current screen s) :=
  inferInstanceAs (Decidable (_ ∧ _ ∧ _ ∧ _ ∧ _))

instance decidableCheckOk (s : State) : ∀ e, Decidable (CheckOk s e)
  | .next =>
    match h : s.pc with
    | .check => decidable_of_iff
        ((s.metadata.flips-s.lastFlips) % 2 = 0 → s.geometry.Since s.started) (by simp [CheckOk, h])
    | .posY | .boundY => decidable_of_iff (s.checkStarted ≤ s.metadata.height.stamp)
        (by simp [CheckOk, h])
    | .time => decidable_of_iff (s.checkStarted ≤ s.metadata.fps.stamp) (by simp [CheckOk, h])
    | .posX | .boundX | .loop | .lastVer | .call | .reading | .got _ | .row .. | .pixel ..
    | .advance .. | .ended => isTrue (by simp [CheckOk, h])
  | .loadFrame _ | .produce .. | .halt => isTrue trivial

/-- The thread starts, a frame is loaded, and the next check is run to its end. -/
def firstCheck : List Event :=
  List.flatten [List.replicate 5 .next,
    [.loadFrame ⟨⟨240, 320, 16, []⟩, by decide, by decide⟩], List.replicate 8 (.produce 0 1),
    List.replicate 8 .next]

theorem checks_current_first : ∃ s,
    run (step ⟨320, 240, true⟩) (init (fun _ => ⟨0, 0, 0, []⟩) 0) firstCheck = some s ∧
      s.metadata.width.value = 320 ∧ Current ⟨320, 240, true⟩ s := by
  have hany : (run (step ⟨320, 240, true⟩) (init (fun _ => ⟨0, 0, 0, []⟩) 0) firstCheck).any
      (fun s => s.metadata.width.value = 320 ∧ s.pc.computed = 5 ∧ s.started = s.checkStarted) := by
    decide +kernel
  obtain ⟨s,hrun,hs⟩ := (Option.any_eq_true _ _).mp hany
  obtain ⟨hwidth,hpc,hstill⟩ := of_decide_eq_true hs
  exact ⟨s, hrun, hwidth,
    checks_current ⟨320, 240, true⟩ _ 0 firstCheck s hrun (by decide +kernel) hpc hstill⟩

/-- After one iteration without a frame, 25 frames are loaded before the next
version test, all but the first smaller. -/
def missedUpdates : List Event :=
  List.flatten [List.replicate 11 .next,
    [.loadFrame ⟨⟨200, 200, 16, []⟩, by decide, by decide⟩], List.replicate 8 (.produce 0 1),
    (List.replicate 24 (.loadFrame ⟨⟨100, 100, 16, []⟩, by decide, by decide⟩ ::
      List.replicate 3 (.produce 0 1))).flatten,
    List.replicate 5 (.produce 0 1), List.replicate 2 .next]

-- the version is what it was: neither update is seen
theorem two_updates_missed : ∃ s,
    run (step ⟨320, 240, true⟩) (init (fun _ => ⟨0, 0, 0, []⟩) 0) missedUpdates = some s ∧
      s.pc.computed = 5 ∧ s.started = s.checkStarted ∧ ¬ Current ⟨320, 240, true⟩ s := by
  have hany : (run (step ⟨320, 240, true⟩) (init (fun _ => ⟨0, 0, 0, []⟩) 0) missedUpdates).any
      (fun s => s.pc.computed = 5 ∧ s.started = s.checkStarted ∧
        ¬ Current ⟨320, 240, true⟩ s) := by
    decide +kernel
  obtain ⟨s,hrun,hs⟩ := (Option.any_eq_true _ _).mp hany
  exact ⟨s, hrun, of_decide_eq_true hs⟩

end CppOperate.Show

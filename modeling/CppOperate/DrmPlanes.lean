import CppOperate.StepRuns
import Mathlib

/-! The plane table `pp` of drm-core.c: `drm_get_plane_property_id` enters a plane
at an index taken from `count_plane`, `drm_set_plane` looks it up again. -/
namespace CppOperate.Drm
open StepRuns

/-- The property ids of a plane. -/
structure Properties where
  fbId : ℕ := 0
  crtcX : ℕ := 0
  crtcY : ℕ := 0
  crtcW : ℕ := 0
  crtcH : ℕ := 0
  srcX : ℕ := 0
  srcY : ℕ := 0
  srcW : ℕ := 0
  srcH : ℕ := 0
deriving DecidableEq, Repr

structure PropertyPlanes where
  planeId : ℕ := 0
  property : Properties := {}
deriving DecidableEq, Repr

/-- `get_property_id` of the names and ids the driver lists. -/
def getPropertyId (name : String) : List (String × ℕ) → ℕ
  | [] => 0
  | (n, id) :: props => if n = name ∧ id ≠ 0 then id else getPropertyId name props

def getProperties (props : List (String × ℕ)) : Properties where
  fbId := getPropertyId "FB_ID" props
  crtcX := getPropertyId "CRTC_X" props
  crtcY := getPropertyId "CRTC_Y" props
  crtcW := getPropertyId "CRTC_W" props
  crtcH := getPropertyId "CRTC_H" props
  srcX := getPropertyId "SRC_X" props
  srcY := getPropertyId "SRC_Y" props
  srcW := getPropertyId "SRC_W" props
  srcH := getPropertyId "SRC_H" props

/-- A plane and what the driver lists for it. -/
structure Plane where
  id : ℕ
  props : List (String × ℕ)
  nonzero : id ≠ 0
deriving DecidableEq, Repr

/-- The globals of drm-core.c that concern planes; `outside` is set once an
index from 3 on was written. -/
structure Table where
  pp : Fin 3 → PropertyPlanes := fun _ => {}
  countPlane : ℕ := 0
  outside : Bool := false
  -- history: the planes registered and their property ids
  registered : ℕ → Option Properties := fun _ => none

namespace Table

/-- The index a plane is entered at and `count_plane` after the loop, which runs
once at most. -/
def place (t : Table) (id : ℕ) : ℕ × ℕ :=
  if 0 < (t.countPlane+1) % 2^32 then
    if (t.pp 0).planeId = id then (0, t.countPlane)
    else (t.countPlane, (t.countPlane+1) % 2^32)
  else (0, t.countPlane)

def drmGetPlanePropertyId (t : Table) (p : Plane) : Table :=
  let (num, count) := t.place p.id
  let registered := Function.update t.registered p.id (some (getProperties p.props))
  -- an index from 2^31 on is negative as an `int`, no less outside
  if h : num < 3 then
    { t with pp := Function.update t.pp ⟨num, h⟩ ⟨p.id, getProperties p.props⟩,
             countPlane := (count+1) % 2^32, registered := registered }
  else { t with countPlane := (count+1) % 2^32, registered := registered, outside := true }

/-- The loop of `drm_set_plane` from index `i` on: the entry it selects, `none`
when it reads past the last one. -/
def scan (id bound i : ℕ) : List PropertyPlanes → Option ℕ
  | [] => if i < bound then none else some 0
  | e :: rest => if i < bound then (if e.planeId = id then some i else scan id bound (i+1) rest)
    else some 0

def lookup (t : Table) (id : ℕ) : Option ℕ :=
  scan id ((t.countPlane+1) % 2^32) 0 [t.pp 0, t.pp 1, t.pp 2]

end Table

/-- One use of drm-core.c. A `drm_init` gets to the planes only when the frame
buffer was created and the crtc set; `drm_exit` leaves the table as it is. -/
inductive Op
  | drmInit (reached : Bool) (plane0 plane1 : Plane)
  | drmExit
  | drmGetPlanePropertyId (p : Plane)
deriving DecidableEq, Repr

/-- The registrations of a sequence of uses. -/
def calls (ops : List Op) : List Plane :=
  ops.flatMap fun
    | .drmInit true plane0 plane1 => [plane0, plane1]
    | .drmInit false _ _ | .drmExit => []
    | .drmGetPlanePropertyId p => [p]

/-- Nothing was written outside, and every registered plane has exactly one
entry, with its own property ids, which `drm_set_plane` selects. -/
def Good (t : Table) : Prop :=
  t.outside = false ∧ ∀ id property, t.registered id = some property →
    ∃ i : Fin 3, t.pp i = ⟨id, property⟩ ∧ (∀ j, (t.pp j).planeId = id → j = i) ∧
      t.lookup id = some i.val

/-- The call is the first one, or names the plane of entry 0 (while `count_plane`
does not wrap, if there is a second plane), or is the first to name another one
while the count is 1 or 2. -/
def CallOk (t : Table) (p : Plane) : Prop :=
  (t.pp 0).planeId = 0 ∨
    (t.pp 0).planeId = p.id ∧
      ((t.pp 1).planeId = 0 ∧ (t.pp 2).planeId = 0 ∨ t.countPlane+2 < 2^32) ∨
    (t.pp 1).planeId = 0 ∧ (t.pp 2).planeId = 0 ∧ (t.countPlane = 1 ∨ t.countPlane = 2)

instance (t : Table) (p : Plane) : Decidable (CallOk t p) :=
  inferInstanceAs (Decidable (_ ∨ _ ∧ (_ ∧ _ ∨ _) ∨ _ ∧ _ ∧ (_ ∨ _)))

def step (t : Table) (p : Plane) : Option Table := some (t.drmGetPlanePropertyId p)

/-- What the table looks like after calls that were all in order. -/
inductive Phase (t : Table) : Prop
  | empty (hpp : ∀ i, (t.pp i).planeId = 0) (hcount : t.countPlane = 0)
      (hregistered : ∀ id, t.registered id = none)
  | one (a : ℕ) (ha : a ≠ 0) (h0 : (t.pp 0).planeId = a) (hrest : ∀ i, i ≠ 0 → (t.pp i).planeId = 0)
      (hregistered : ∀ id, t.registered id = if id = a then some (t.pp 0).property else none)
  | two (a b : ℕ) (m : Fin 3) (hm : m ≠ 0) (ha : a ≠ 0) (hb : b ≠ 0) (hab : a ≠ b)
      (h0 : (t.pp 0).planeId = a) (h1 : (t.pp m).planeId = b)
      (hrest : ∀ i, i ≠ 0 → i ≠ m → (t.pp i).planeId = 0)
      (hcount : 3 ≤ t.countPlane ∧ t.countPlane+1 < 2^32)
      (hregistered : ∀ id, t.registered id =
        if id = a then some (t.pp 0).property else if id = b then some (t.pp m).property else none)

structure Inv (t : Table) : Prop where
  inside : t.outside = false
  count_lt : t.countPlane < 2^32
  phase : Phase t

theorem lookup_first (t : Table) (id : ℕ) (h : (t.pp 0).planeId = id) : t.lookup id = some 0 := by
  unfold Table.lookup Table.scan
  split_ifs
  · rfl
  · rfl

theorem lookup_second (t : Table) (id : ℕ) (m : Fin 3) (hm : m ≠ 0) (h0 : (t.pp 0).planeId ≠ id)
    (h1 : (t.pp m).planeId = id) (hrest : ∀ i, i ≠ 0 → i ≠ m → (t.pp i).planeId ≠ id)
    (hcount : 3 ≤ t.countPlane ∧ t.countPlane+1 < 2^32) : t.lookup id = some m.val := by
  have hbound : (t.countPlane+1) % 2^32 = t.countPlane+1 := Nat.mod_eq_of_lt hcount.2
  have h0lt : 0 < t.countPlane+1 := by omega
  have h1lt : 0+1 < t.countPlane+1 := by omega
  have h2lt : 0+1+1 < t.countPlane+1 := by omega
  rw [Table.lookup, hbound, Table.scan, if_pos h0lt, if_neg h0, Table.scan, if_pos h1lt]
  fin_cases m
  · contradiction
  · exact if_pos h1
  · have hnot := hrest 1 (by decide) (by decide)
    rw [if_neg hnot, Table.scan, if_pos h2lt]
    exact if_pos h1

theorem good_of_inv (t : Table) (hinv : Inv t) : Good t := by
  refine ⟨hinv.inside, fun id property hid => ?_⟩
  cases hinv.phase with
  | empty _ _ hregistered =>
    rw [hregistered id] at hid
    contradiction
  | one a ha h0 hrest hregistered =>
    rw [hregistered id] at hid
    split_ifs at hid with hida
    cases hid
    subst hida
    refine ⟨0, by rw [← h0], ?_, lookup_first t _ h0⟩
    intro j hj
    by_contra hj0
    rw [hrest j hj0] at hj
    exact ha hj.symm
  | two a b m hm ha hb hab h0 h1 hrest hcount hregistered =>
    rw [hregistered id] at hid
    split_ifs at hid with hida hidb
    · cases hid
      subst hida
      refine ⟨0, by rw [← h0], ?_, lookup_first t _ h0⟩
      intro j hj
      by_contra hj0
      by_cases hjm : j = m
      · rw [hjm, h1] at hj
        exact hab hj.symm
      · rw [hrest j hj0 hjm] at hj
        exact ha hj.symm
    · cases hid
      subst hidb
      have hnot : ∀ i, i ≠ 0 → i ≠ m → (t.pp i).planeId ≠ id := by
        intro i hi him h
        rw [hrest i hi him] at h
        exact hb h.symm
      have h0' : (t.pp 0).planeId ≠ id := by
        rw [h0]
        exact hab
      refine ⟨m, by rw [← h1], ?_, lookup_second t id m hm h0' h1 hnot hcount⟩
      intro j hj
      by_contra hjm
      by_cases hj0 : j = 0
      · exact h0' (hj0 ▸ hj)
      · exact hnot j hj0 hjm hj

theorem place_first (t : Table) (id : ℕ) (h : (t.pp 0).planeId = id) :
    t.place id = (0, t.countPlane) := by
  unfold Table.place
  split_ifs
  · rfl
  · rfl

theorem place_new (t : Table) (id : ℕ) (h : (t.pp 0).planeId ≠ id) (hlt : t.countPlane+1 < 2^32) :
    t.place id = (t.countPlane, t.countPlane+1) := by
  rw [Table.place, Nat.mod_eq_of_lt hlt, if_pos (Nat.succ_pos _), if_neg h]

-- the bound of the loop has wrapped to 0
theorem place_wrapped (t : Table) (id : ℕ) (h : t.countPlane+1 = 2^32) :
    t.place id = (0, t.countPlane) := by
  rw [Table.place, h, Nat.mod_self, if_neg (lt_irrefl 0)]

/-- A call that enters the plane at `num`. -/
theorem register_at (t : Table) (p : Plane) (num : Fin 3) (count : ℕ)
    (hplace : t.place p.id = (num.val, count)) :
    t.drmGetPlanePropertyId p =
      { t with pp := Function.update t.pp num ⟨p.id, getProperties p.props⟩,
               countPlane := (count+1) % 2^32,
               registered := Function.update t.registered p.id (some (getProperties p.props)) } := by
  simp only [Table.drmGetPlanePropertyId, hplace, dif_pos num.isLt]

theorem register_outside (t : Table) (p : Plane) (num count : ℕ)
    (hplace : t.place p.id = (num, count)) (h : 3 ≤ num) :
    (t.drmGetPlanePropertyId p).outside = true := by
  simp only [Table.drmGetPlanePropertyId, hplace, dif_neg (Nat.not_lt.mpr h)]

/-- The only plane, entered at 0 for the first time or again. -/
theorem register_only (t : Table) (p : Plane) (count : ℕ) (hinside : t.outside = false)
    (hplace : t.place p.id = ((0 : Fin 3).val, count)) (hrest : ∀ i, i ≠ 0 → (t.pp i).planeId = 0)
    (hregistered : ∀ id, id ≠ p.id → t.registered id = none) :
    Inv (t.drmGetPlanePropertyId p) := by
  rw [register_at t p 0 count hplace]
  refine ⟨hinside, Nat.mod_lt _ (by decide), Phase.one p.id p.nonzero ?_ ?_ ?_⟩
  · simp only [Function.update_self]
  · intro i hi
    simp only [Function.update_of_ne hi, hrest i hi]
  · intro id
    by_cases hid : id = p.id
    · simp only [hid, Function.update_self, if_true]
    · simp only [Function.update_of_ne hid, hregistered id hid, if_neg hid]

/-- A second plane, entered at 1 or 2. -/
theorem register_second (t : Table) (p : Plane) (a : ℕ) (hinside : t.outside = false) (ha : a ≠ 0)
    (hp : p.id ≠ a) (h0 : (t.pp 0).planeId = a) (hrest : ∀ i, i ≠ 0 → (t.pp i).planeId = 0)
    (hcount : t.countPlane = 1 ∨ t.countPlane = 2)
    (hregistered : ∀ id, t.registered id = if id = a then some (t.pp 0).property else none) :
    Inv (t.drmGetPlanePropertyId p) := by
  obtain ⟨m,hm,hcountm⟩ : ∃ m : Fin 3, m ≠ 0 ∧ t.countPlane = m.val := by
    rcases hcount with h | h
    · exact ⟨1, by decide, h⟩
    · exact ⟨2, by decide, h⟩
  have hplace : t.place p.id = (m.val, t.countPlane+1) := by
    rw [place_new t p.id (by rw [h0]; exact hp.symm) (by omega), ← hcountm]
  rw [register_at t p m _ hplace]
  have hlt : t.countPlane+1+1 < 2^32 := by omega
  refine ⟨hinside, Nat.mod_lt _ (by decide),
    Phase.two a p.id m hm ha p.nonzero hp.symm ?_ ?_ ?_ ?_ ?_⟩
  · simp only [Function.update_of_ne hm.symm, h0]
  · simp only [Function.update_self]
  · intro i hi him
    simp only [Function.update_of_ne him, hrest i hi]
  · simp only [Nat.mod_eq_of_lt hlt]
    omega
  · intro id
    by_cases hid : id = p.id
    · simp only [hid, Function.update_self, if_true, if_neg hp]
    · simp only [Function.update_of_ne hid, Function.update_of_ne hm.symm, hregistered, if_neg hid]

/-- The plane of entry 0 again, when there is a second one. -/
theorem register_first (t : Table) (p : Plane) (b : ℕ) (m : Fin 3) (hinside : t.outside = false)
    (hm : m ≠ 0) (hb : b ≠ 0) (hpb : p.id ≠ b) (h0 : (t.pp 0).planeId = p.id)
    (h1 : (t.pp m).planeId = b) (hrest : ∀ i, i ≠ 0 → i ≠ m → (t.pp i).planeId = 0)
    (hcount : 3 ≤ t.countPlane ∧ t.countPlane+2 < 2^32)
    (hregistered : ∀ id, t.registered id =
      if id = p.id then some (t.pp 0).property else if id = b then some (t.pp m).property else none) :
    Inv (t.drmGetPlanePropertyId p) := by
  have hlt : t.countPlane+1 < 2^32 := by omega
  rw [register_at t p 0 t.countPlane (place_first t p.id h0)]
  refine ⟨hinside, Nat.mod_lt _ (by decide),
    Phase.two p.id b m hm p.nonzero hb hpb ?_ ?_ ?_ ?_ ?_⟩
  · simp only [Function.update_self]
  · simp only [Function.update_of_ne hm, h1]
  · intro i hi him
    simp only [Function.update_of_ne hi, hrest i hi him]
  · simp only [Nat.mod_eq_of_lt hlt]
    omega
  · intro id
    by_cases hid : id = p.id
    · simp only [hid, Function.update_self, if_true]
    · simp only [Function.update_of_ne hid, Function.update_of_ne hm, hregistered, if_neg hid]

/-- A registered plane without an entry. -/
theorem not_good_of_lost (t : Table) (a : ℕ) (property : Properties)
    (hregistered : t.registered a = some property) (hlost : ∀ i, (t.pp i).planeId ≠ a) : ¬ Good t := by
  intro ⟨_,hall⟩
  obtain ⟨i,hi,-,-⟩ := hall a property hregistered
  exact hlost i (by rw [hi])

/-- Another plane entered at 0 takes the place of the one that was there. -/
theorem overwritten_not_good (t : Table) (p : Plane) (a count : ℕ) (ha : a ≠ 0) (hp : p.id ≠ a)
    (hplace : t.place p.id = ((0 : Fin 3).val, count)) (hrest : ∀ i, i ≠ 0 → (t.pp i).planeId = 0)
    (hregistered : t.registered a ≠ none) : ¬ Good (t.drmGetPlanePropertyId p) := by
  obtain ⟨property,hproperty⟩ := Option.ne_none_iff_exists'.mp hregistered
  rw [register_at t p 0 count hplace]
  apply not_good_of_lost _ a property
  · simp only [Function.update_of_ne hp.symm, hproperty]
  · intro i
    by_cases hi : i = 0
    · subst hi
      simp only [Function.update_self, ne_eq, hp, not_false_eq_true]
    · simp only [Function.update_of_ne hi, hrest i hi]
      exact ha.symm

/-- With a count of `2^32-1` the lookup does not run and selects entry 0. -/
theorem wrapped_not_good (t : Table) (b : ℕ) (property : Properties)
    (hregistered : t.registered b = some property) (h0 : (t.pp 0).planeId ≠ b)
    (hcount : t.countPlane+1 = 2^32) : ¬ Good t := by
  intro ⟨_,hall⟩
  obtain ⟨i,hi,-,hlookup⟩ := hall b property hregistered
  have hzero : t.lookup b = some 0 := by
    rw [Table.lookup, hcount, Nat.mod_self, Table.scan, if_neg (lt_irrefl 0)]
  rw [hzero, Option.some.injEq] at hlookup
  have hi0 : i = 0 := Fin.ext hlookup.symm
  rw [← hi0, hi] at h0
  contradiction

/-- A call keeps the table in order exactly when it meets `CallOk`. -/
theorem Inv.step (t : Table) (p : Plane) (u : Table) (hinv : Inv t) (h : step t p = some u) :
    (CallOk t p ↔ Good u) ∧ (CallOk t p → Inv u) := by
  cases h
  have hkeep : Inv (t.drmGetPlanePropertyId p) → CallOk t p →
      (CallOk t p ↔ Good (t.drmGetPlanePropertyId p)) ∧
        (CallOk t p → Inv (t.drmGetPlanePropertyId p)) :=
    fun hu hok => ⟨iff_of_true hok (good_of_inv _ hu), fun _ => hu⟩
  have hbreak : ¬ Good (t.drmGetPlanePropertyId p) → ¬ CallOk t p →
      (CallOk t p ↔ Good (t.drmGetPlanePropertyId p)) ∧
        (CallOk t p → Inv (t.drmGetPlanePropertyId p)) :=
    fun hbad hnot => ⟨iff_of_false hnot hbad, fun hok => absurd hok hnot⟩
  have hout : (t.drmGetPlanePropertyId p).outside = true → ¬ Good (t.drmGetPlanePropertyId p) := by
    intro hout hgood
    rw [hgood.1] at hout
    contradiction
  have hlt := hinv.count_lt
  cases hinv.phase with
  | empty hpp hcount hregistered =>
    have hplace : t.place p.id = ((0 : Fin 3).val, 1) := by
      rw [place_new t p.id (by rw [hpp]; exact p.nonzero.symm) (by omega), hcount]
      rfl
    exact hkeep (register_only t p 1 hinv.inside hplace (fun i _ => hpp i)
      (fun id _ => hregistered id)) (Or.inl (hpp 0))
  | one a ha h0 hrest hregistered =>
    have hnone : ∀ id, id ≠ a → t.registered id = none := by
      intro id hid
      rw [hregistered id, if_neg hid]
    by_cases hp : p.id = a
    · have hfirst : (t.pp 0).planeId = p.id := h0.trans hp.symm
      exact hkeep (register_only t p _ hinv.inside (place_first t p.id hfirst) hrest (hp ▸ hnone))
        (Or.inr (Or.inl ⟨hfirst, Or.inl ⟨hrest 1 (by decide), hrest 2 (by decide)⟩⟩))
    · have hp0 : (t.pp 0).planeId ≠ p.id := by
        rw [h0]
        exact fun h => hp h.symm
      by_cases hcount : t.countPlane = 1 ∨ t.countPlane = 2
      · exact hkeep (register_second t p a hinv.inside ha hp h0 hrest hcount hregistered)
          (Or.inr (Or.inr ⟨hrest 1 (by decide), hrest 2 (by decide), hcount⟩))
      · have hnot : ¬ CallOk t p := by
          rintro (h | ⟨h,-⟩ | ⟨-,-,h⟩)
          · exact ha (h0 ▸ h)
          · exact hp0 h
          · exact hcount h
        apply hbreak _ hnot
        have hsome : t.registered a ≠ none := by
          rw [hregistered a, if_pos rfl]
          exact Option.some_ne_none _
        rcases Nat.lt_or_ge t.countPlane 3 with hsmall | hlarge
        · have hzero : t.countPlane = 0 := by omega
          have hplace := place_new t p.id hp0 (by omega)
          rw [hzero] at hplace
          exact overwritten_not_good t p a _ ha hp hplace hrest hsome
        · by_cases hwrap : t.countPlane+1 = 2^32
          · exact overwritten_not_good t p a _ ha hp (place_wrapped t p.id hwrap) hrest hsome
          · exact hout (register_outside t p _ _ (place_new t p.id hp0 (by omega)) hlarge)
  | two a b m hm ha hb hab h0 h1 hrest hcount hregistered =>
    have halone : ¬ ((t.pp 1).planeId = 0 ∧ (t.pp 2).planeId = 0) := by
      intro ⟨hone,htwo⟩
      fin_cases m
      · contradiction
      · exact hb (h1 ▸ hone)
      · exact hb (h1 ▸ htwo)
    by_cases hp : p.id = a
    · subst hp
      by_cases hroom : t.countPlane+2 < 2^32
      · exact hkeep (register_first t p b m hinv.inside hm hb hab h0 h1 hrest ⟨hcount.1, hroom⟩
          hregistered) (Or.inr (Or.inl ⟨h0, Or.inr hroom⟩))
      · have hnot : ¬ CallOk t p := by
          rintro (h | ⟨-,h | h⟩ | ⟨hone,htwo,-⟩)
          · exact ha (h0 ▸ h)
          · exact halone h
          · exact hroom h
          · exact halone ⟨hone, htwo⟩
        apply hbreak _ hnot
        rw [register_at t p 0 t.countPlane (place_first t p.id h0)]
        apply wrapped_not_good _ b (t.pp m).property
        · simp only [Function.update_of_ne hab.symm, hregistered, if_neg hab.symm, if_true]
        · simp only [Function.update_self]
          exact hab
        · simp only [Nat.mod_eq_of_lt hcount.2]
          omega
    · have hp0 : (t.pp 0).planeId ≠ p.id := by
        rw [h0]
        exact fun h => hp h.symm
      have hnot : ¬ CallOk t p := by
        rintro (h | ⟨h,-⟩ | ⟨hone,htwo,-⟩)
        · exact ha (h0 ▸ h)
        · exact hp0 h
        · exact halone ⟨hone, htwo⟩
      exact hbreak (hout (register_outside t p _ _ (place_new t p.id hp0 hcount.2) hcount.1)) hnot

theorem init_inv : Inv {} :=
  ⟨rfl, by decide, Phase.empty (fun _ => rfl) rfl (fun _ => rfl)⟩

/-- The table after calls in this order. -/
def registerAll (ps : List Plane) : Table := ps.foldl Table.drmGetPlanePropertyId {}

theorem run_eq_registerAll (t : Table) (ps : List Plane) :
    run step t ps = some (ps.foldl Table.drmGetPlanePropertyId t) := by
  induction ps generalizing t with
  | nil => rfl
  | cons p ps ih => exact ih _

/-- For every sequence of uses of drm-core.c: the table is good after each of its
registrations exactly when all of them meet `CallOk`. -/
theorem plane_table_good_iff (ops : List Op) :
    (∀ ps, ps <+: calls ops → Good (registerAll ps)) ↔ Meets step CallOk {} (calls ops) := by
  rw [meets_iff_good_states step CallOk Inv Good good_of_inv Inv.step {} _ (calls ops) init_inv
    (run_eq_registerAll {} (calls ops))]
  constructor
  · intro h ps t hps ht
    rw [run_eq_registerAll, Option.some.injEq] at ht
    exact ht ▸ h ps hps
  · intro h ps hps
    exact h ps _ hps (run_eq_registerAll {} ps)

/-- `drm_init`, `drm_exit`, `drm_init` with the planes 31 and 32: the fourth
registration is written at index 5. -/
theorem second_init_writes_outside : ∃ plane0 plane1 : Plane,
    plane0.id = 31 ∧ plane1.id = 32 ∧
    let ops : List Op := [.drmInit true plane0 plane1, .drmExit, .drmInit true plane0 plane1]
    calls ops = [plane0, plane1, plane0, plane1] ∧
    (registerAll [plane0, plane1, plane0]).place plane1.id = (5, 6) ∧
    (registerAll (calls ops)).outside = true ∧ ¬ ∀ ps, ps <+: calls ops → Good (registerAll ps) := by
  refine ⟨⟨31, [("FB_ID", 17)], by decide⟩, ⟨32, [("FB_ID", 18)], by decide⟩, rfl, rfl, rfl,
    by decide +kernel, by decide +kernel, fun h => ?_⟩
  exact absurd (h _ List.prefix_rfl).1 (by decide +kernel)

end CppOperate.Drm

import CppOperate.ParamsFile

/-! `addConfigLine` when it is stopped on the way or its file operations fail:
what is then left in `filePath`. -/
namespace CppOperate.Params
open KeyValueText

/-- The file operations of `addConfigLine`. -/
inductive Op
  | openIn
  | openTmp
  | write (line : Bytes)
  | close
  | remove
  | rename
deriving DecidableEq, Repr

/-- An operation that fails may still get some bytes to the file: those of the
line it writes, or those of the whole file that a close keeps. -/
inductive Outcome
  | ok
  | fails (kept : ℕ)
deriving DecidableEq, Repr

structure Files where
  filePath : Option Bytes
  tmp : Option Bytes
  -- `is_open` of both streams, and the state of `outFile`
  isOpen : Bool := true
  good : Bool := true
deriving DecidableEq, Repr

namespace Files

/-- One line goes through the stream unless an earlier one has failed. -/
def write (s : Files) (line : Bytes) (o : Outcome) : Files :=
  if s.good then
    match o with
    | .ok => { s with tmp := s.tmp.map (· ++ line) }
    | .fails kept => { s with tmp := s.tmp.map (· ++ line.take kept), good := false }
  else s

/-- `std::rename`, over whatever `filePath` is. -/
def rename (s : Files) : Files :=
  match s.tmp with
  | some text => { s with filePath := some text, tmp := none }
  | none => s

def exec (s : Files) (op : Op) (o : Outcome) : Files :=
  match op, o with
  | .openIn, .ok => s
  | .openIn, .fails _ => { s with isOpen := false }
  | .openTmp, .ok => { s with tmp := some [] }
  | .openTmp, .fails _ => { s with isOpen := false }
  -- all below is behind the test of `is_open`
  | .write line, o => if s.isOpen then s.write line o else s
  | .close, .ok => s
  | .close, .fails kept => if s.isOpen then { s with tmp := s.tmp.map (·.take kept) } else s
  -- neither result is looked at
  | .remove, .ok => if s.isOpen then { s with filePath := none } else s
  | .remove, .fails _ => s
  | .rename, .ok => if s.isOpen then s.rename else s
  | .rename, .fails _ => s

/-- The operations with these outcomes, stopped when there are no more of them. -/
def execAll (s : Files) : List Op → List Outcome → Files
  | op :: ops, o :: outcomes => execAll (s.exec op o) ops outcomes
  | _, _ => s

end Files

/-- The operations of one call, one write for each line. -/
def operations (lines : List Bytes) : List Op :=
  [.openIn, .openTmp] ++ lines.map (fun line => .write (line ++ [newline])) ++
    [.close, .remove, .rename]

/-- A call of `addConfigLine` on a file that holds `file`, with these outcomes. -/
def addConfigLineWith (file key value : Bytes) (tmp : Option Bytes) (outcomes : List Outcome) :
    Files :=
  Files.execAll { filePath := some file, tmp := tmp } (operations (writtenLines file key value))
    outcomes

/-- How many bytes of the lines reach the temporary file. -/
def delivered : List Bytes → List Outcome → ℕ
  | line :: lines, .ok :: outcomes => (line.length+1) + delivered lines outcomes
  | line :: _, .fails kept :: _ => min kept (line.length+1)
  | _, _ => 0

/-- How many of `n` bytes are left after the close. -/
def keptBy (close : Option Outcome) (n : ℕ) : ℕ :=
  match close with
  | some (.fails kept) => min kept n
  | _ => n

def kept (lines : List Bytes) (outcomes : List Outcome) : ℕ :=
  keptBy (outcomes.drop 2)[lines.length]? (delivered lines (outcomes.drop 2))

/-- When a call leaves `filePath` whole: a stream could not be opened, or neither
remove nor rename took place, or the rename did and all of the new text had
reached the temporary file (or just as much of it as is the old text). -/
def Safe (file key value : Bytes) (outcomes : List Outcome) : Prop :=
  let lines := writtenLines file key value
  outcomes[0]? ≠ some .ok ∨ outcomes[1]? ≠ some .ok ∨
    if (outcomes.drop 2)[lines.length+2]? = some .ok then
      kept lines outcomes = (addConfigLine file key value).length ∨
        (addConfigLine file key value).take (kept lines outcomes) = file
    else (outcomes.drop 2)[lines.length+1]? ≠ some .ok

instance (file key value : Bytes) (outcomes : List Outcome) :
    Decidable (Safe file key value outcomes) :=
  inferInstanceAs (Decidable (_ ∨ _ ∨ ite _ _ _))

theorem execAll_append (s : Files) (ops ops' : List Op) (outcomes : List Outcome) :
    s.execAll (ops ++ ops') outcomes =
      (s.execAll ops outcomes).execAll ops' (outcomes.drop ops.length) := by
  induction ops generalizing s outcomes with
  | nil => simp [Files.execAll]
  | cons op ops ih =>
    cases outcomes with
    | nil => cases ops' <;> simp [Files.execAll]
    | cons o outcomes => simp only [List.cons_append, Files.execAll, ih, List.length_cons,
        List.drop_succ_cons]

-- behind a stream that is not open nothing happens to the file
theorem execAll_closed (s : Files) (ops : List Op) (outcomes : List Outcome)
    (hclosed : s.isOpen = false) : (s.execAll ops outcomes).filePath = s.filePath := by
  induction ops generalizing s outcomes with
  | nil => rfl
  | cons op ops ih =>
    cases outcomes with
    | nil => rfl
    | cons o outcomes =>
      have hkeep : (s.exec op o).filePath = s.filePath ∧ (s.exec op o).isOpen = false := by
        cases op <;> cases o <;> simp [Files.exec, hclosed]
      rw [Files.execAll, ih _ outcomes hkeep.2, hkeep.1]

/-- A stream that has failed writes no more. -/
theorem execAll_bad (s : Files) (lines : List Bytes) (outcomes : List Outcome)
    (hbad : s.good = false) :
    s.execAll (lines.map fun line => .write (line ++ [newline])) outcomes = s := by
  induction lines generalizing outcomes with
  | nil => rfl
  | cons line lines ih =>
    cases outcomes with
    | nil => rfl
    | cons o outcomes =>
      have hkeep : s.exec (.write (line ++ [newline])) o = s := by
        simp [Files.exec, Files.write, hbad]
      rw [List.map_cons, Files.execAll, hkeep, ih]

/-- The writes bring a beginning of the text to the temporary file. -/
theorem execAll_writes (s : Files) (lines : List Bytes) (outcomes : List Outcome) (text : Bytes)
    (hopen : s.isOpen = true) (hgood : s.good = true) (htmp : s.tmp = some text) :
    ∃ good, s.execAll (lines.map fun line => .write (line ++ [newline])) outcomes =
      { s with tmp := some (text ++ (unlines newline lines).take (delivered lines outcomes)),
               good := good } := by
  induction lines generalizing s outcomes text with
  | nil =>
    refine ⟨true, ?_⟩
    cases s
    simp_all [Files.execAll, unlines]
  | cons line lines ih =>
    have hunlines : unlines newline (line :: lines) =
        (line ++ [newline]) ++ unlines newline lines := by simp [unlines]
    cases outcomes with
    | nil =>
      refine ⟨true, ?_⟩
      cases s
      simp_all [Files.execAll, delivered]
    | cons o outcomes =>
      cases o with
      | ok =>
        obtain ⟨good,hrest⟩ := ih { s with tmp := some (text ++ (line ++ [newline])) } outcomes
          (text ++ (line ++ [newline])) hopen hgood rfl
        refine ⟨good, ?_⟩
        have hfirst : s.exec (.write (line ++ [newline])) .ok =
            { s with tmp := some (text ++ (line ++ [newline])) } := by
          simp [Files.exec, Files.write, hopen, hgood, htmp]
        have hlen : line.length+1 = (line ++ [newline]).length := by simp
        rw [List.map_cons, Files.execAll, hfirst, hrest, hunlines, delivered, hlen,
          List.take_length_add_append, List.append_assoc]
      | fails k =>
        refine ⟨false, ?_⟩
        have hfirst : s.exec (.write (line ++ [newline])) (.fails k) =
            { s with tmp := some (text ++ (line ++ [newline]).take k), good := false } := by
          simp [Files.exec, Files.write, hopen, hgood, htmp]
        have hlen : line.length+1 = (line ++ [newline]).length := by simp
        rw [List.map_cons, Files.execAll, hfirst, execAll_bad _ _ _ rfl, hunlines, delivered, hlen,
          List.take_append_of_le_length (min_le_right _ _), List.take_eq_take_min]

/-- What the last three operations make of an open call. -/
theorem execAll_replace (s : Files) (outcomes : List Outcome) (text : Bytes)
    (hopen : s.isOpen = true) (htmp : s.tmp = some text) :
    (s.execAll [.close, .remove, .rename] outcomes).filePath =
      if outcomes[2]? = some .ok then
        some (text.take (keptBy outcomes[0]? text.length))
      else if outcomes[1]? = some .ok then none else s.filePath := by
  match outcomes with
  | [] => rfl
  | [a] => cases a <;> simp [Files.execAll, Files.exec, hopen]
  | [a, b] => cases a <;> cases b <;> simp [Files.execAll, Files.exec, hopen]
  | a :: b :: c :: rest =>
    cases a <;> cases b <;> cases c <;>
      simp [Files.execAll, Files.exec, Files.rename, keptBy, hopen, htmp]

theorem delivered_le (lines : List Bytes) (outcomes : List Outcome) :
    delivered lines outcomes ≤ (unlines newline lines).length := by
  induction lines generalizing outcomes with
  | nil => simp [delivered]
  | cons line lines ih =>
    have hlen : (unlines newline (line :: lines)).length =
        (line.length+1) + (unlines newline lines).length := by
      rw [unlines, unlines, List.flatMap_cons, List.length_append, List.length_append,
        List.length_singleton]
    cases outcomes with
    | nil => simp [delivered]
    | cons o outcomes =>
      have hrest := ih outcomes
      cases o <;> simp only [delivered] <;> omega

theorem keptBy_le (close : Option Outcome) (n : ℕ) : keptBy close n ≤ n := by
  unfold keptBy
  split
  · exact min_le_right _ _
  · exact le_rfl

/-- What `filePath` holds at the end of a call whose streams were opened. -/
theorem addConfigLineWith_filePath (file key value : Bytes) (tmp : Option Bytes)
    (outcomes : List Outcome) (lines : List Bytes) (hlines : writtenLines file key value = lines) :
    (addConfigLineWith file key value tmp (.ok :: .ok :: outcomes)).filePath =
      if outcomes[lines.length+2]? = some .ok then
        some ((addConfigLine file key value).take (kept lines (.ok :: .ok :: outcomes)))
      else if outcomes[lines.length+1]? = some .ok then none else some file := by
  have hnew : addConfigLine file key value = unlines newline lines := by rw [addConfigLine, hlines]
  have hdelivered := delivered_le lines outcomes
  obtain ⟨good,hwrites⟩ :=
    execAll_writes ⟨some file, some [], true, true⟩ lines outcomes [] rfl rfl rfl
  let text := (unlines newline lines).take (delivered lines outcomes)
  have hlen : text.length = delivered lines outcomes := by
    rw [List.length_take]
    omega
  have hcall : addConfigLineWith file key value tmp (.ok :: .ok :: outcomes) =
      Files.execAll ⟨some file, some text, true, good⟩ [.close, .remove, .rename]
        (outcomes.drop lines.length) := by
    have hopened : Files.execAll { filePath := some file, tmp := tmp } [.openIn, .openTmp]
        (.ok :: .ok :: outcomes) = ⟨some file, some [], true, true⟩ := rfl
    have hdrop : (Outcome.ok :: .ok :: outcomes).drop
        ([Op.openIn, .openTmp] ++ lines.map fun line => Op.write (line ++ [newline])).length =
          outcomes.drop lines.length := by
      rw [List.length_append, List.length_map, Nat.add_comm]
      rfl
    rw [addConfigLineWith, hlines, operations, execAll_append, execAll_append, hopened, hdrop]
    exact congrArg (fun s => Files.execAll s _ _) hwrites
  have hreplace := execAll_replace ⟨some file, some text, true, good⟩ (outcomes.drop lines.length)
    text rfl rfl
  have htake : text.take (keptBy outcomes[lines.length]? (delivered lines outcomes)) =
      (unlines newline lines).take (kept lines (.ok :: .ok :: outcomes)) := by
    rw [List.take_take, min_eq_left (keptBy_le _ _)]
    rfl
  rw [hcall, hreplace, hlen, hnew]
  simp only [List.getElem?_drop, Nat.add_zero, htake]

/-- `filePath` holds the complete old or the complete new text. -/
def Intact (file key value : Bytes) (s : Files) : Prop :=
  s.filePath = some file ∨ s.filePath = some (addConfigLine file key value)

/-- For every file, key and value, and for all outcomes of the operations up to
any point: the file is whole afterwards exactly when the outcomes are safe. -/
theorem addConfigLine_intact_iff (file key value : Bytes) (tmp : Option Bytes)
    (outcomes : List Outcome) :
    Intact file key value (addConfigLineWith file key value tmp outcomes) ↔
      Safe file key value outcomes := by
  by_cases hopen : outcomes[0]? = some .ok ∧ outcomes[1]? = some .ok
  · obtain ⟨rest,rfl⟩ : ∃ rest, outcomes = .ok :: .ok :: rest := by
      match outcomes, hopen with
      | a :: b :: rest, h => simpa using h
    have hfile := addConfigLineWith_filePath file key value tmp rest _ rfl
    have hle : kept (writtenLines file key value) (.ok :: .ok :: rest) ≤
        (addConfigLine file key value).length := by
      calc
        _ ≤ delivered (writtenLines file key value) rest := keptBy_le _ _
        _ ≤ (addConfigLine file key value).length := delivered_le _ _
    rw [Intact, hfile, Safe]
    simp only [List.getElem?_cons_zero, List.getElem?_cons_succ, ne_eq, not_true, false_or,
      List.drop_succ_cons, List.drop_zero]
    split_ifs with hrename hremove
    · have hwhole : (addConfigLine file key value).take
          (kept (writtenLines file key value) (.ok :: .ok :: rest)) = addConfigLine file key value ↔
            kept (writtenLines file key value) (.ok :: .ok :: rest) =
              (addConfigLine file key value).length := by
        constructor
        · intro h
          have hlen := congrArg List.length h
          rw [List.length_take] at hlen
          omega
        · intro h
          rw [h, List.take_length]
      rw [Option.some.injEq, Option.some.injEq, hwhole]
      exact or_comm
    · simp [hremove]
    · simp [hremove]
  · have hsafe : Safe file key value outcomes := by
      rw [not_and_or] at hopen
      exact hopen.elim Or.inl fun h => Or.inr (Or.inl h)
    refine iff_of_true (Or.inl ?_) hsafe
    match outcomes with
    | [] => rfl
    | .fails _ :: rest => exact execAll_closed _ (_ :: _) rest rfl
    | [.ok] => rfl
    | .ok :: .fails _ :: rest => exact execAll_closed _ _ rest rfl
    | .ok :: .ok :: rest => simp at hopen

-- `a=1` becomes `a=22`, and nothing fails
theorem addConfigLine_intact_update :
    Intact [0x61, 0x3D, 0x31, 0x0A] [0x61] [0x32, 0x32]
      (addConfigLineWith [0x61, 0x3D, 0x31, 0x0A] [0x61] [0x32, 0x32] none
        [.ok, .ok, .ok, .ok, .ok, .ok]) :=
  (addConfigLine_intact_iff _ _ _ none _).mpr (by decide)

/-- A stop between remove and rename leaves no file; a disk that is full after
the first of two lines leaves the first one. -/
theorem addConfigLine_not_intact :
    (addConfigLineWith [0x61, 0x3D, 0x31, 0x0A] [0x61] [0x32, 0x32] none
        [.ok, .ok, .ok, .ok, .ok]).filePath = none ∧
      (addConfigLineWith [0x61, 0x3D, 0x31, 0x0A, 0x62, 0x3D, 0x31, 0x0A] [0x61] [0x32] none
        [.ok, .ok, .ok, .fails 0, .ok, .ok, .ok]).filePath = some [0x61, 0x3D, 0x32, 0x0A] ∧
      ¬ Intact [0x61, 0x3D, 0x31, 0x0A] [0x61] [0x32, 0x32]
        (addConfigLineWith [0x61, 0x3D, 0x31, 0x0A] [0x61] [0x32, 0x32] none
          [.ok, .ok, .ok, .ok, .ok]) := by
  refine ⟨by decide, by decide, ?_⟩
  unfold Intact
  decide

end CppOperate.Params

import CppOperate.KeyValueText

/-! The parameter files of `params.cpp`: `parseConfigFile` reads `key=value`
lines, `addConfigLine` rewrites them with a second copy of the line grammar. -/
namespace CppOperate.Params
open KeyValueText

-- a `std::string` and a file are sequences of bytes
abbrev Bytes := List UInt8

def newline : UInt8 := 0x0A

def equals : UInt8 := 0x3D

def hash : UInt8 := 0x23

/-- The characters of `whitespace = " \t"`. -/
def isBlank (c : UInt8) : Bool := c = 0x20 ∨ c = 0x09

def trim (str : Bytes) : Bytes := strip isBlank str

-- `std::map<std::string, std::string>`, looked up by key
abbrev Config := Bytes → Option Bytes

/-- The body of the loop of `parseConfigFile`: the pair a line stores. -/
def parseLine (line : Bytes) : Option (Bytes × Bytes) :=
  let line := trim line
  -- blank lines and comments
  if line = [] ∨ line.head? = some hash then none
  else
    match cutAt equals line with
    | none => none
    | some (before, after) => some (trim before, trim after)

/-- `parseConfigFile` of a file that can be opened. -/
def parseConfigFile (file : Bytes) : Config :=
  (getLines newline file).foldl (fun config line =>
    match parseLine line with
    | none => config
    | some (key, value) => Function.update config key (some value)) fun _ => none

-- the members the loop of `addConfigLine` changes
structure Rewrite where
  outFile : List Bytes
  keyExists : Bool
deriving DecidableEq

/-- The body of the loop of `addConfigLine`. -/
def rewriteLine (key value : Bytes) (w : Rewrite) (line : Bytes) : Rewrite :=
  let trimmedLine := trim line
  if trimmedLine = [] ∨ trimmedLine.head? = some hash then
    { w with outFile := w.outFile ++ [line] }
  else
    match cutAt equals trimmedLine with
    | none => { w with outFile := w.outFile ++ [line] }
    | some (before, _) =>
      let currentKey := trim before
      if currentKey = key then ⟨w.outFile ++ [key ++ equals :: value], true⟩
      else { w with outFile := w.outFile ++ [line] }

/-- The lines `addConfigLine` writes to the temporary file. -/
def writtenLines (file key value : Bytes) : List Bytes :=
  let w := (getLines newline file).foldl (rewriteLine key value) ⟨[], false⟩
  if w.keyExists then w.outFile else w.outFile ++ [key ++ equals :: value]

/-- `addConfigLine` with every file operation succeeding: what `filePath` holds
after the rename. -/
def addConfigLine (file key value : Bytes) : Bytes :=
  unlines newline (writtenLines file key value)

theorem parseConfigFile_eq_assign (file : Bytes) :
    parseConfigFile file =
      assign (fun _ => none) ((getLines newline file).filterMap parseLine) := by
  unfold parseConfigFile assign
  generalize (fun _ => none : Config) = config
  induction getLines newline file generalizing config with
  | nil => rfl
  | cons line lines ih =>
    rw [List.foldl_cons, ih, List.filterMap_cons]
    cases parseLine line <;> rfl

/-- The line a key and a value are written as. -/
def entryLine (key value : Bytes) : Bytes := key ++ equals :: value

/-- What the reader can return: trimmed parts of one line, the key without `=`
and not read as a comment. -/
structure Entry (key value : Bytes) : Prop where
  key_trim : trim key = key
  value_trim : trim value = value
  equals_not_mem : equals ∉ key
  head_ne_hash : key.head? ≠ some hash
  newline_not_mem_key : newline ∉ key
  newline_not_mem_value : newline ∉ value

theorem parseLine_eq_some_iff (line key value : Bytes) : parseLine line = some (key, value) ↔
    (trim line).head? ≠ some hash ∧ ∃ before after, trim line = before ++ equals :: after ∧
      equals ∉ before ∧ trim before = key ∧ trim after = value := by
  simp only [parseLine]
  constructor
  · intro h
    split_ifs at h with hskip
    cases hcut : cutAt equals (trim line) with
    | none =>
      rw [hcut] at h
      contradiction
    | some cut =>
      rw [hcut] at h
      cases h
      rw [not_or] at hskip
      obtain ⟨hline,hmem⟩ := (cutAt_eq_some_iff equals _ _ _).mp hcut
      exact ⟨hskip.2, _, _, hline, hmem, rfl, rfl⟩
  · intro ⟨hhash,before,after,hline,hmem,hkey,hvalue⟩
    rw [if_neg, (cutAt_eq_some_iff equals _ before after).mpr ⟨hline,hmem⟩]
    · simp only [hkey, hvalue]
    · rw [not_or, hline]
      exact ⟨by simp, hline ▸ hhash⟩

theorem head_trim_ne_hash (before after line : Bytes) (hline : trim line = before ++ equals :: after)
    (hhash : (trim line).head? ≠ some hash) : (trim before).head? ≠ some hash := by
  intro h
  cases before with
  | nil => simp [trim, strip] at h
  | cons c rest =>
    -- the trimmed line starts with a kept character, so its key starts there too
    have hblank : isBlank c = false := by
      have hself := (strip_eq_self_iff isBlank (trim line)).mp (strip_idem isBlank line)
      have hne : trim line ≠ [] := by simp [hline]
      simpa only [hline, List.cons_append, List.head_cons] using (hself hne).1
    have hprefix : trim (c :: rest) <+: c :: rest := by
      have hkeep : (c :: rest).dropWhile isBlank = c :: rest :=
        List.dropWhile_cons_of_neg (by simp [hblank])
      simpa only [trim, strip, hkeep] using List.rdropWhile_prefix isBlank (c :: rest)
    obtain ⟨t,ht⟩ := hprefix
    cases hkey : trim (c :: rest) with
    | nil => simp [hkey] at h
    | cons d key =>
      rw [hkey, List.cons_append, List.cons.injEq] at ht
      rw [hkey, List.head?_cons, ht.1] at h
      exact hhash (by rw [hline, List.cons_append, List.head?_cons, h])

/-- What a line stores can be written back. -/
theorem entry_of_parseLine (line key value : Bytes) (hnl : newline ∉ line)
    (h : parseLine line = some (key, value)) : Entry key value := by
  obtain ⟨hhash,before,after,hline,hmem,rfl,rfl⟩ := (parseLine_eq_some_iff line key value).mp h
  have hsub (c : UInt8) (hc : c ∈ before ∨ c ∈ after) : c ∈ line := by
    apply mem_of_mem_strip isBlank line
    change c ∈ trim line
    rw [hline]
    rcases hc with hc | hc
    · exact List.mem_append_left _ hc
    · exact List.mem_append_right _ (List.mem_cons_of_mem _ hc)
  have hstrip (c : UInt8) (part : Bytes) (hc : c ∈ trim part) : c ∈ part :=
    mem_of_mem_strip isBlank part c hc
  exact {
    key_trim := strip_idem isBlank before
    value_trim := strip_idem isBlank after
    equals_not_mem := fun hc => hmem (hstrip _ _ hc)
    head_ne_hash := head_trim_ne_hash before after line hline hhash
    newline_not_mem_key := fun hc => hnl (hsub _ (Or.inl (hstrip _ _ hc)))
    newline_not_mem_value := fun hc => hnl (hsub _ (Or.inr (hstrip _ _ hc))) }

/-- The line written for an entry is read back as this entry. -/
theorem parseLine_entryLine (key value : Bytes) (h : Entry key value) :
    parseLine (entryLine key value) = some (key, value) := by
  have htrim : trim (entryLine key value) = key ++ equals :: value :=
    strip_join isBlank key value equals h.key_trim h.value_trim (by decide)
  rw [parseLine_eq_some_iff, htrim]
  refine ⟨?_, key, value, rfl, h.equals_not_mem, h.key_trim, h.value_trim⟩
  cases hkey : key with
  | nil =>
    rw [List.nil_append, List.head?_cons]
    decide
  | cons c rest =>
    have hhead := h.head_ne_hash
    rwa [hkey] at hhead

theorem entry_of_parseConfigFile (file key value : Bytes)
    (h : parseConfigFile file key = some value) : Entry key value := by
  rw [parseConfigFile_eq_assign] at h
  rcases assign_eq_some _ _ _ _ h with h | h
  · contradiction
  · obtain ⟨line,hline,hparse⟩ := List.mem_filterMap.mp h
    exact entry_of_parseLine line key value (newline_not_mem newline file line hline) hparse

-- what the writer makes of a line, in the terms of the reader
def lineAfter (key value line : Bytes) : Bytes :=
  if (parseLine line).map Prod.fst = some key then entryLine key value else line

/-- Reader and writer classify a line alike: the writer replaces exactly the
lines from which the reader takes the key. -/
theorem rewriteLine_eq (key value : Bytes) (w : Rewrite) (line : Bytes) :
    rewriteLine key value w line = ⟨w.outFile ++ [lineAfter key value line],
      w.keyExists || decide ((parseLine line).map Prod.fst = some key)⟩ := by
  by_cases hskip : trim line = [] ∨ (trim line).head? = some hash
  · have hparse : parseLine line = none := if_pos hskip
    simp [rewriteLine, lineAfter, if_pos hskip, hparse]
  · cases hcut : cutAt equals (trim line) with
    | none =>
      have hparse : parseLine line = none := by
        simp only [parseLine, if_neg hskip, hcut]
      simp [rewriteLine, lineAfter, hcut, hparse]
    | some cut =>
      have hparse : parseLine line = some (trim cut.1, trim cut.2) := by
        simp only [parseLine, if_neg hskip, hcut]
      by_cases hkey : trim cut.1 = key
      · simp [rewriteLine, lineAfter, if_neg hskip, hcut, hparse, hkey, entryLine]
      · simp [rewriteLine, lineAfter, hcut, hparse, hkey]

theorem rewriteLine_foldl (key value : Bytes) (lines : List Bytes) (w : Rewrite) :
    (lines.foldl (rewriteLine key value) w).outFile =
        w.outFile ++ lines.map (lineAfter key value) ∧
      ((lines.foldl (rewriteLine key value) w).keyExists = true ↔
        w.keyExists = true ∨ key ∈ (lines.filterMap parseLine).map Prod.fst) := by
  induction lines generalizing w with
  | nil => simp
  | cons line lines ih =>
    obtain ⟨hout,hexists⟩ := ih (rewriteLine key value w line)
    rw [List.foldl_cons, hout, hexists, rewriteLine_eq]
    constructor
    · simp
    · cases hparse : parseLine line with
      | none =>
        rw [List.filterMap_cons_none hparse]
        simp
      | some e =>
        rw [List.filterMap_cons_some hparse, List.map_cons, List.mem_cons, Bool.or_eq_true,
          decide_eq_true_eq, Option.map_some, Option.some.injEq, or_assoc, eq_comm (a := key)]

/-- What the writer leaves: every line that holds the key replaced, the others
kept, and one more line when there was none. -/
theorem writtenLines_eq (file key value : Bytes) : writtenLines file key value =
    (getLines newline file).map (lineAfter key value) ++
      if key ∈ ((getLines newline file).filterMap parseLine).map Prod.fst then []
      else [entryLine key value] := by
  obtain ⟨hout,hexists⟩ := rewriteLine_foldl key value (getLines newline file) ⟨[], false⟩
  rw [List.nil_append] at hout
  simp only [Bool.false_eq_true, false_or] at hexists
  simp only [writtenLines, hout, hexists]
  split_ifs
  · rw [List.append_nil]
  · rfl

theorem parseLine_lineAfter (key value : Bytes) (h : Entry key value) (line : Bytes) :
    parseLine (lineAfter key value line) =
      (parseLine line).map fun e => if e.1 = key then (key, value) else e := by
  unfold lineAfter
  cases hparse : parseLine line with
  | none => simpa using hparse
  | some e =>
    by_cases hkey : e.1 = key
    · simp [hkey, parseLine_entryLine key value h]
    · simp [hkey, hparse]

theorem newline_not_mem_entryLine (key value : Bytes) (h : Entry key value) :
    newline ∉ entryLine key value := by
  simp only [entryLine, List.mem_append, List.mem_cons, not_or]
  exact ⟨h.newline_not_mem_key, by decide, h.newline_not_mem_value⟩

-- so what is written is read back line by line
theorem newline_not_mem_writtenLines (file key value : Bytes) (h : Entry key value) (line : Bytes)
    (hline : line ∈ writtenLines file key value) : newline ∉ line := by
  have hnew := newline_not_mem_entryLine key value h
  rw [writtenLines_eq] at hline
  rcases List.mem_append.mp hline with hline | hline
  · obtain ⟨old,hold,rfl⟩ := List.mem_map.mp hline
    unfold lineAfter
    split_ifs
    · exact hnew
    · exact newline_not_mem newline file old hold
  · split_ifs at hline
    · contradiction
    · exact List.mem_singleton.mp hline ▸ hnew

theorem filterMap_lineAfter (key value : Bytes) (h : Entry key value) (lines : List Bytes) :
    (lines.map (lineAfter key value)).filterMap parseLine =
      (lines.filterMap parseLine).map fun e => if e.1 = key then (key, value) else e := by
  rw [List.filterMap_map, List.map_filterMap]
  apply List.filterMap_congr
  intro line _
  exact parseLine_lineAfter key value h line

/-- `addConfigLine` updates exactly its key, for every file and for every key
and value the reader can return: duplicates are all rewritten, a missing key is
appended, and no other key changes. -/
theorem parse_addConfigLine (file key value origin : Bytes)
    (hreturned : parseConfigFile origin key = some value) :
    parseConfigFile (addConfigLine file key value) =
      Function.update (parseConfigFile file) key (some value) := by
  have hentry := entry_of_parseConfigFile origin key value hreturned
  have hwritten := newline_not_mem_writtenLines file key value hentry
  rw [addConfigLine, parseConfigFile_eq_assign, getLines_unlines newline _ hwritten,
    writtenLines_eq, List.filterMap_append, filterMap_lineAfter key value hentry, assign_append,
    assign_rewrite, parseConfigFile_eq_assign]
  -- the appended line is the update of a file without the key
  split_ifs
  · rfl
  · simp [parseLine_entryLine key value hentry, assign]

-- the value "#" for `k`, written over the line "k =1"
theorem parse_addConfigLine_padded :
    parseConfigFile (addConfigLine [0x6B, 0x20, 0x3D, 0x31] [0x6B] [0x23]) =
      Function.update (parseConfigFile [0x6B, 0x20, 0x3D, 0x31]) [0x6B] (some [0x23]) :=
  parse_addConfigLine [0x6B, 0x20, 0x3D, 0x31] [0x6B] [0x23] [0x6B, 0x3D, 0x23] (by decide)

end CppOperate.Params

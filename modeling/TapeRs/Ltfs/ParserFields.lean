import TapeRs.Ltfs.ParserRun

namespace TapeRs.Ltfs.IndexParser

open Result Text IndexWriter List

variable {p : IndexParser} {tag parent trimmed : String} {crates : Crates}

/-- Field set of a node under construction: only an increment records which elements it has seen. -/
def recorded (incremental : Bool) (names : Finset String) : Fields :=
  if incremental then some names else none

/-- The checks an increment makes at the end of an element, and the field set of its node after it. -/
def fieldStep (incremental : Bool) (fields : Fields) (tag trimmed : String) : Result Fields :=
  if incremental then
    if (tag = "readonly" || tag = "openforwrite") && trimmed ∉ ["true", "false", "1", "0"] then
      .error (.ltfs "增量 readonly 非法")
    else if tag = "partition" && (Text.asciiLetter trimmed).isNone then .error (.ltfs "增量 partition 非法")
    else if tag ∈ numericTags && (Text.parseU64 trimmed).isNone then .error (.ltfs ("增量数值非法: " ++ tag))
    else
      match recordField fields tag with
      | none => .error (.ltfs ("增量字段重复: " ++ tag))
      | some fields => if tag = "deleted" && !trimmed.isEmpty then .error (.ltfs "deleted 必须为空元素") else .ok fields
  else .ok fields

def withFile (p : IndexParser) (file : FileNode) : IndexParser :=
  { p with fileStack := file :: p.fileStack.tail }

def withDir (p : IndexParser) (dir : DirectoryNode) : IndexParser :=
  { p with dirStack := dir :: p.dirStack.tail }

def structuralTags : List String := locationTags ++ ["extent", "xattr", "file", "directory"]

theorem checkElement_eq {fields : Fields} {embed : Fields → IndexParser} (below : parent ≠ "ltfsincrementalindex")
    (noted : p.noteField tag parent = (recordField fields tag).map embed) (same : embed fields = p) (trimmed : String) :
    p.checkElement tag parent trimmed = embed <$> fieldStep p.header.incremental fields tag trimmed := by
  unfold checkElement fieldStep
  cases p.header.incremental with
  | false => exact congrArg Except.ok same.symm
  | true =>
    simp only [if_true, endIncremental, noteHeader, below, if_false, ok_bind, noted]
    split
    · rfl
    split
    · rfl
    split
    · rfl
    cases recordField fields tag with
    | none => rfl
    | some fields =>
      simp only [Option.map_some]
      split <;> rfl

theorem checkElement_file {file : FileNode} {outer : List FileNode} (stack : p.fileStack = file :: outer)
    (tag trimmed : String) :
    p.checkElement tag "file" trimmed =
      (fun deltaFields => p.withFile { file with deltaFields }) <$>
        fieldStep p.header.incremental file.deltaFields tag trimmed := by
  apply checkElement_eq (by decide)
  · simp only [noteField, if_true, stack, withFile, tail_cons]
  · simp only [withFile, stack, tail_cons]
    rw [← stack]

theorem checkElement_dir {dir : DirectoryNode} {outer : List DirectoryNode} (stack : p.dirStack = dir :: outer)
    (tag trimmed : String) :
    p.checkElement tag "directory" trimmed =
      (fun deltaFields => p.withDir { dir with deltaFields }) <$>
        fieldStep p.header.incremental dir.deltaFields tag trimmed := by
  apply checkElement_eq (by decide)
  · simp only [noteField, String.reduceEq, if_false, if_true, stack, withDir, tail_cons]
  · cases dir
    simp only [withDir, stack, tail_cons]
    rw [← stack]

theorem checkElement_inner (inner : parent ∉ ["file", "directory", "ltfsincrementalindex"]) (tag trimmed : String) :
    p.checkElement tag parent trimmed = (fun _ => p) <$> fieldStep p.header.incremental none tag trimmed := by
  simp only [mem_cons, not_mem_nil, or_false, not_or] at inner
  apply checkElement_eq inner.2.2
  · simp [noteField, inner, recordField]
  · rfl

def fileStep (incremental : Bool) (file : FileNode) (leaf : String × String) : Result FileNode := do
  let deltaFields ← fieldStep incremental file.deltaFields leaf.1 (Text.trim leaf.2)
  setFileField { file with deltaFields } leaf.1 leaf.2 (Text.trim leaf.2)

def dirStep (incremental : Bool) (dir : DirectoryNode) (leaf : String × String) : Result DirectoryNode := do
  let deltaFields ← fieldStep incremental dir.deltaFields leaf.1 (Text.trim leaf.2)
  setDirectoryField { dir with deltaFields } leaf.1 leaf.2 (Text.trim leaf.2)

theorem endLocationField_other (other : parent ∉ locationTags) (tag trimmed : String) :
    p.endLocationField tag parent trimmed = .ok p := by
  unfold endLocationField
  split
  · rfl
  · rw [if_pos other]

theorem endExtentField_other (other : parent ≠ "extent") (tag trimmed : String) :
    p.endExtentField tag parent trimmed = .ok p := by
  unfold endExtentField
  split
  · rfl
  · rw [if_pos other]

theorem endFileField_other (other : parent ≠ "file") (tag text trimmed : String) :
    p.endFileField tag parent text trimmed = .ok p := by
  unfold endFileField
  split
  · rfl
  · rw [if_pos other]

theorem endDirectoryField_other (other : parent ≠ "directory") (tag text trimmed : String) :
    p.endDirectoryField tag parent text trimmed = .ok p := by
  unfold endDirectoryField
  split
  · rfl
  · rw [if_pos other]

theorem endHeaderField_other (other : parent ≠ "ltfsindex" ∧ parent ≠ "ltfsincrementalindex")
    (tag text trimmed : String) : endHeaderField crates p tag parent text trimmed = .ok p :=
  if_pos other

def headerNote (h : HeaderState) (tag : String) : Result HeaderState :=
  if h.incremental then
    if tag ∈ h.headerFields then .error (.ltfs ("增量头字段重复: " ++ tag))
    else .ok { h with headerFields := insert tag h.headerFields }
  else .ok h

def headerStep (crates : Crates) (h : HeaderState) (leaf : String × String) : Result HeaderState := do
  let noted ← headerNote h leaf.1
  let _ ← fieldStep h.incremental none leaf.1 (Text.trim leaf.2)
  setHeaderField crates noted leaf.1 leaf.2 (Text.trim leaf.2)

theorem checkElement_header {root : String} (rooted : root = rootName p.header.incremental)
    (tag trimmed : String) :
    p.checkElement tag root trimmed = (do
      let header ← headerNote p.header tag
      let _ ← fieldStep p.header.incremental none tag trimmed
      .ok { p with header }) := by
  unfold checkElement headerNote fieldStep
  cases incremental : p.header.incremental with
  | false => rfl
  | true =>
    rw [incremental] at rooted
    subst rooted
    simp only [if_true, endIncremental, noteHeader, rootName]
    split
    · rfl
    have noted : ∀ q : IndexParser, q.noteField tag "ltfsincrementalindex" = some q := fun q => rfl
    have unfielded : recordField none tag = some none := rfl
    simp only [ok_bind, noted, unfielded]
    split
    · rfl
    split
    · rfl
    split
    · rfl
    split
    · rfl
    · rw [incremental]
      rfl

theorem rootName_cases (incremental : Bool) :
    rootName incremental = "ltfsindex" ∨ rootName incremental = "ltfsincrementalindex" := by
  cases incremental
  · exact .inl rfl
  · exact .inr rfl

def locationStep (incremental : Bool) (location : IndexLocation) (leaf : String × String) : Result IndexLocation := do
  let _ ← fieldStep incremental none leaf.1 (Text.trim leaf.2)
  if leaf.1 = "partition" then do
    let partition ← parseIndexPartition (Text.trim leaf.2)
    .ok { location with partition }
  else if leaf.1 = "startblock" then do
    let startBlock ← parseIndexU64 leaf.1 (Text.trim leaf.2)
    .ok { location with startBlock }
  else .ok location

def extentStep (incremental : Bool) (extent : Extent) (leaf : String × String) : Result Extent := do
  let _ ← fieldStep incremental none leaf.1 (Text.trim leaf.2)
  if leaf.1 = "partition" then do
    let partition ← parseIndexPartition (Text.trim leaf.2)
    .ok { extent with partition }
  else if leaf.1 = "startblock" then do
    let startBlock ← parseIndexU64 leaf.1 (Text.trim leaf.2)
    .ok { extent with startBlock }
  else if leaf.1 = "byteoffset" then do
    let byteOffset ← parseIndexU64 leaf.1 (Text.trim leaf.2)
    .ok { extent with byteOffset }
  else if leaf.1 = "bytecount" then do
    let byteCount ← parseIndexU64 leaf.1 (Text.trim leaf.2)
    .ok { extent with byteCount }
  else if leaf.1 = "fileoffset" then do
    let fileOffset ← parseIndexU64 leaf.1 (Text.trim leaf.2)
    .ok { extent with fileOffset }
  else .ok extent

section Field

variable (field : tag ∉ structuralTags) (text : String)
include field

theorem endElement_field (owner : parent ∉ locationTags ∧ parent ≠ "extent" ∧ parent ≠ "xattr") :
    endElement crates p tag parent text = (do
      let p ← p.checkElement tag parent (trim text)
      let p ← p.endFileField tag parent text (trim text)
      let p ← p.endDirectoryField tag parent text (trim text)
      endHeaderField crates p tag parent text (trim text)) := by
  simp only [structuralTags, mem_append, mem_cons, not_mem_nil, or_false, not_or] at field
  unfold endElement
  simp only [endLocationField_other owner.1, endExtentField_other owner.2.1, owner.2.2, field, if_false, ok_bind,
    bind_return]

theorem endElement_file {file : FileNode} {outer : List FileNode} (stack : p.fileStack = file :: outer) :
    endElement crates p tag "file" text = p.withFile <$> fileStep p.header.incremental file (tag, text) := by
  rw [endElement_field field text (by decide), checkElement_file stack]
  unfold fileStep
  cases fieldStep p.header.incremental file.deltaFields tag (trim text) with
  | error error => rfl
  | ok deltaFields =>
    simp only [Functor.map, Except.map, ok_bind, endFileField, withFile, ne_eq, not_true_eq_false, if_false]
    cases setFileField { file with deltaFields } tag text (trim text) with
    | error error => rfl
    | ok file =>
      rw [ok_bind, ok_bind, endDirectoryField_other (by decide), ok_bind,
        endHeaderField_other (by decide)]

theorem endElement_dir {dir : DirectoryNode} {outer : List DirectoryNode} (stack : p.dirStack = dir :: outer) :
    endElement crates p tag "directory" text = p.withDir <$> dirStep p.header.incremental dir (tag, text) := by
  rw [endElement_field field text (by decide), checkElement_dir stack]
  unfold dirStep
  cases fieldStep p.header.incremental dir.deltaFields tag (trim text) with
  | error error => rfl
  | ok deltaFields =>
    have noFile : ∀ r : IndexParser, r.endFileField tag "directory" text (trim text) = .ok r :=
      fun r => endFileField_other (by decide) ..
    simp only [Functor.map, Except.map, ok_bind, noFile, endDirectoryField, withDir, ne_eq, not_true_eq_false,
      if_false]
    cases setDirectoryField { dir with deltaFields } tag text (trim text) with
    | error error => rfl
    | ok dir => rw [ok_bind, ok_bind, endHeaderField_other (by decide)]

theorem endElement_header {root : String} (rooted : root = rootName p.header.incremental) :
    endElement crates p tag root text = (fun header => { p with header }) <$> headerStep crates p.header (tag, text) := by
  have named := rooted ▸ rootName_cases p.header.incremental
  have owner : root ∉ locationTags ∧ root ≠ "extent" ∧ root ≠ "xattr" := by
    rcases named with same | same <;> rw [same] <;> decide
  have noFile : root ≠ "file" := by rcases named with same | same <;> rw [same] <;> decide
  have noDir : root ≠ "directory" := by rcases named with same | same <;> rw [same] <;> decide
  rw [endElement_field field text owner, checkElement_header rooted]
  unfold headerStep
  cases headerNote p.header tag with
  | error error => rfl
  | ok noted =>
    cases fieldStep p.header.incremental none tag (trim text) with
    | error error => rfl
    | ok fields =>
      rw [ok_bind, ok_bind, ok_bind, endFileField_other noFile, ok_bind,
        endDirectoryField_other noDir, ok_bind, endHeaderField,
        if_neg (fun others => named.elim others.1 others.2)]
      rw [ok_bind, ok_bind]
      cases setHeaderField crates noted tag text (trim text) <;> rfl

theorem endElement_inner (inner : parent ∈ locationTags ∨ parent = "extent") :
    endElement crates p tag parent text = (do
      let _ ← fieldStep p.header.incremental none tag (trim text)
      let p ← p.endLocationField tag parent (trim text)
      p.endExtentField tag parent (trim text)) := by
  have others : parent ∉ ["file", "directory", "ltfsincrementalindex"] ∧ parent ≠ "file" ∧ parent ≠ "directory" ∧
      parent ≠ "xattr" ∧ parent ≠ "ltfsindex" ∧ parent ≠ "ltfsincrementalindex" := by
    rcases inner with member | rfl
    · simp only [locationTags, mem_cons, not_mem_nil, or_false] at member
      rcases member with rfl | rfl | rfl <;> decide
    · decide
  simp only [structuralTags, mem_append, mem_cons, not_mem_nil, or_false, not_or] at field
  unfold endElement
  simp only [checkElement_inner others.1, field, others.2.2.2.1, if_false, endFileField_other others.2.1,
    endDirectoryField_other others.2.2.1, endHeaderField_other others.2.2.2.2, bind_return]
  cases fieldStep p.header.incremental none tag (trim text) <;> rfl

theorem endElement_location {location : IndexLocation} (current : p.curLocation = some location)
    (inside : parent ∈ locationTags) :
    endElement crates p tag parent text =
      (fun location => { p with curLocation := some location }) <$>
        locationStep p.header.incremental location (tag, text) := by
  have noExtent : parent ≠ "extent" := by
    rintro rfl
    exact absurd inside (by decide)
  have kept : { p with curLocation := some location } = p := by rw [← current]
  rw [endElement_inner field text (.inl inside)]
  unfold locationStep endLocationField
  cases fieldStep p.header.incremental none tag (trim text) with
  | error error => rfl
  | ok fields =>
    simp only [ok_bind, current, inside, not_true_eq_false, if_false, endExtentField_other noExtent,
      bind_return]
    split
    · cases parseIndexPartition (trim text) <;> rfl
    · split
      · cases parseIndexU64 tag (trim text) <;> rfl
      · exact congrArg Except.ok kept.symm

theorem endElement_extent {extent : Extent} (current : p.curExtent = some extent) :
    endElement crates p tag "extent" text =
      (fun extent => { p with curExtent := some extent }) <$> extentStep p.header.incremental extent (tag, text) := by
  have kept : { p with curExtent := some extent } = p := by rw [← current]
  rw [endElement_inner field text (.inr rfl)]
  unfold extentStep endExtentField
  cases fieldStep p.header.incremental none tag (trim text) with
  | error error => rfl
  | ok fields =>
    simp only [ok_bind, endLocationField_other (show "extent" ∉ locationTags by decide), current, ne_eq,
      not_true_eq_false, if_false]
    split
    · cases parseIndexPartition (trim text) <;> rfl
    split
    · cases parseIndexU64 tag (trim text) <;> rfl
    split
    · cases parseIndexU64 tag (trim text) <;> rfl
    split
    · cases parseIndexU64 tag (trim text) <;> rfl
    · split
      · cases parseIndexU64 tag (trim text) <;> rfl
      · exact congrArg Except.ok kept.symm

end Field

theorem endElement_xattr (p : IndexParser) (field : tag = "key" ∨ tag = "value") (text : String) :
    endElement crates p tag "xattr" text = .ok (p.endXattrField tag text) := by
  have checked : p.checkElement tag "xattr" (trim text) = .ok p := by
    rw [checkElement_inner (by decide)]
    unfold fieldStep
    rcases field with rfl | rfl <;> cases p.header.incremental <;> rfl
  unfold endElement
  rw [checked, ok_bind, endLocationField_other (by decide), ok_bind]
  rcases field with rfl | rfl
  · rw [if_neg (by decide), endExtentField_other (by decide), ok_bind]
    rfl
  · rw [if_neg (by decide), endExtentField_other (by decide), ok_bind]
    rfl

/-- Leaves are read by the step of the part they belong to. -/
theorem reads_steps {α : Type} (crates : Crates) (embed : α → IndexParser) (step : α → String × String → Result α)
    {leaves : List (String × String)} (some : leaves ≠ []) (fields : ∀ leaf ∈ leaves, leaf.1 ∈ fieldTags)
    (each : ∀ part tag text, tag ∉ structuralTags →
      endElement crates (embed part) tag ((embed part).path.headD "") text = embed <$> step part (tag, text))
    {part next : α} {fits : Prop} (folds : ∀ after, leaves.foldlM step part = .ok after ↔ fits ∧ next = after)
    (ready : (embed part).Ready) : Reads crates (embed part) (writeLeaves leaves)
      ((embed part).path.length < nestingLimit ∧ fits) (embed next) := by
  intro width rest q
  have plain : ∀ tag ∈ fieldTags, tag ∉ structuralTags := by decide
  have folded : (embed part).endLeaves crates leaves = embed <$> leaves.foldlM step part :=
    foldlM_embed (fun leaf member part => each part leaf.1 leaf.2 (plain _ (fields leaf member))) part
  rw [feed_leaves ready fields, folded]
  simp only [map_ok, folds, some, ne_eq, not_false_eq_true, forall_const, and_assoc]
  apply and_congr_right
  intro _
  constructor
  · rintro ⟨_, ⟨_, fits, rfl, rfl⟩, fed⟩
    exact ⟨fits, fed⟩
  · rintro ⟨fits, fed⟩
    exact ⟨_, ⟨next, fits, rfl, rfl⟩, fed⟩

theorem reads_folded {α : Type} (crates : Crates) (embed : α → IndexParser) (step : α → String × String → Result α)
    {leaves : List (String × String)} (some : leaves ≠ []) (fields : ∀ leaf ∈ leaves, leaf.1 ∈ fieldTags)
    (each : ∀ part tag text, tag ∉ structuralTags →
      endElement crates (embed part) tag ((embed part).path.headD "") text = embed <$> step part (tag, text))
    {part next : α} (folded : leaves.foldlM step part = .ok next) (ready : (embed part).Ready) :
    Reads crates (embed part) (writeLeaves leaves) ((embed part).path.length < nestingLimit) (embed next) := by
  have folds : ∀ after, leaves.foldlM step part = .ok after ↔ True ∧ next = after := by
    intro after
    rw [folded, true_and, Except.ok.injEq]
  exact (reads_steps crates embed step some fields each folds ready).congr (by rw [and_true])

def Fine (tag trimmed : String) : Prop :=
  (tag = "readonly" ∨ tag = "openforwrite" → trimmed ∈ ["true", "false", "1", "0"]) ∧
    (tag = "partition" → (Text.asciiLetter trimmed).isSome) ∧
    (tag ∈ numericTags → (Text.parseU64 trimmed).isSome) ∧ (tag = "deleted" → trimmed = "")

theorem fieldStep_fine (fine : Fine tag trimmed) (incremental : Bool) {fields after : Fields}
    (noted : recordField fields tag = some after) :
    fieldStep incremental fields tag trimmed = .ok (if incremental then after else fields) := by
  obtain ⟨switch, letter, number, empty⟩ := fine
  have switchFits : ¬ ((tag = "readonly" || tag = "openforwrite") && trimmed ∉ ["true", "false", "1", "0"]) = true := by
    simp only [Bool.and_eq_true, Bool.or_eq_true, decide_eq_true_eq, not_and, not_not]
    exact switch
  have letterFits : ¬ (tag = "partition" && (asciiLetter trimmed).isNone) = true := by
    simp only [Bool.and_eq_true, decide_eq_true_eq, Option.isNone_iff_eq_none, not_and]
    intro same
    exact Option.isSome_iff_ne_none.mp (letter same)
  have numberFits : ¬ (tag ∈ numericTags && (parseU64 trimmed).isNone) = true := by
    simp only [Bool.and_eq_true, decide_eq_true_eq, Option.isNone_iff_eq_none, not_and]
    intro member
    exact Option.isSome_iff_ne_none.mp (number member)
  have emptyFits : ¬ (tag = "deleted" && !trimmed.isEmpty) = true := by
    simp only [Bool.and_eq_true, decide_eq_true_eq, not_and]
    intro same
    simp [empty same]
  unfold fieldStep
  cases incremental with
  | false => rfl
  | true => simp only [if_true, if_neg switchFits, if_neg letterFits, if_neg numberFits, noted, if_neg emptyFits]

theorem fieldStep_recorded (fine : Fine tag trimmed) (incremental : Bool) {names : Finset String} (fresh : tag ∉ names) :
    fieldStep incremental (recorded incremental names) tag trimmed = .ok (recorded incremental (insert tag names)) := by
  cases incremental with
  | false => rfl
  | true =>
    have noted : recordField (recorded true names) tag = some (some (insert tag names)) := by
      simp [recorded, recordField, fresh]
    rw [fieldStep_fine fine true noted]
    rfl

theorem fieldStep_plain (fine : Fine tag trimmed) (incremental : Bool) :
    fieldStep incremental none tag trimmed = .ok none := by
  have noted : recordField none tag = some none := rfl
  rw [fieldStep_fine fine incremental noted]
  cases incremental <;> rfl

theorem fine_text (other : tag ∉ ["readonly", "openforwrite", "partition", "deleted"] ++ numericTags) (text : String) :
    Fine tag text := by
  simp only [mem_append, mem_cons, not_mem_nil, or_false, not_or] at other
  exact ⟨by simp [other], by simp [other], by simp [other], by simp [other]⟩

theorem checkElement_plain (inner : parent ∉ ["file", "directory", "ltfsincrementalindex"])
    (other : tag ∉ ["readonly", "openforwrite", "partition", "deleted"] ++ numericTags) (trimmed : String) :
    p.checkElement tag parent trimmed = .ok p := by
  rw [checkElement_inner inner, fieldStep_plain (fine_text other trimmed)]
  rfl

end TapeRs.Ltfs.IndexParser

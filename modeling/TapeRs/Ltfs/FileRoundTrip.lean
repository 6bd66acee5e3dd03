import TapeRs.Ltfs.ParserFields

namespace TapeRs.Ltfs.IndexParser

open Xml IndexWriter Result Text Fields List

section Extents

def extentLeaves (extent : Extent) : List (String × String) :=
  [("partition", String.ofList [extent.partition]), ("startblock", Text.decimal extent.startBlock),
    ("byteoffset", Text.decimal extent.byteOffset), ("bytecount", Text.decimal extent.byteCount),
    ("fileoffset", Text.decimal extent.fileOffset)]

theorem writeExtent_eq (extent : Extent) :
    writeExtent extent = .start "extent" [] :: (writeLeaves (extentLeaves extent) ++ [.close "extent"]) := by
  simp [writeExtent, writeLeaves, extentLeaves, writeU64]

theorem fine_number {tag : String} (other : tag ∉ ["readonly", "openforwrite", "partition", "deleted"]) (value : UInt64) :
    Fine tag (trim (decimal value)) := by
  simp only [mem_cons, not_mem_nil, or_false, not_or] at other
  rw [trim_decimal]
  exact ⟨by simp [other], by simp [other], by simp [parseU64_decimal], by simp [other]⟩

theorem parse_number (tag : String) (value : UInt64) : parseIndexU64 tag (trim (decimal value)) = .ok value := by
  rw [trim_decimal, parseIndexU64, parseU64_decimal]

theorem partition_ok {α : Type} (incremental : Bool) {trimmed : String} {c : Char}
    (letterOf : asciiLetter trimmed = if c.isAlpha then some c else none) (set : Char → α) (value : α) :
    (fieldStep incremental none "partition" trimmed >>= fun _ =>
      parseIndexPartition trimmed >>= fun partition => (.ok (set partition) : Result α)) = .ok value ↔
        c.isAlpha = true ∧ set c = value := by
  unfold parseIndexPartition
  cases letter : c.isAlpha with
  | false =>
    rw [letter, if_neg Bool.false_ne_true] at letterOf
    rw [letterOf]
    cases fieldStep incremental none "partition" trimmed <;> simp
  | true =>
    rw [letter, if_pos rfl] at letterOf
    have fine : Fine "partition" trimmed := by simp [Fine, letterOf, numericTags]
    rw [fieldStep_plain fine, letterOf]
    simp

theorem number_step {tag : String} (other : tag ∉ ["readonly", "openforwrite", "partition", "deleted"])
    (incremental : Bool) (value : UInt64) :
    fieldStep incremental none tag (trim (decimal value)) = .ok none :=
  fieldStep_plain (fine_number other value) incremental

theorem partition_steps {α : Type} {step : α → String × String → Result α} (incremental : Bool) (set : Char → α)
    {fresh node after : α} {c : Char} {numbers : List (String × String)}
    (first : step fresh ("partition", String.ofList [c]) =
      (fieldStep incremental none "partition" (trim (String.ofList [c])) >>= fun _ =>
        parseIndexPartition (trim (String.ofList [c])) >>= fun partition => .ok (set partition)))
    (folded : numbers.foldlM step (set c) = .ok node) :
    (("partition", String.ofList [c]) :: numbers).foldlM step fresh = .ok after ↔ c.isAlpha = true ∧ node = after := by
  rw [foldlM_cons, bind_ok]
  simp only [first, partition_ok incremental (asciiLetter_trim c) set]
  constructor
  · rintro ⟨_, ⟨letter, rfl⟩, later⟩
    rw [folded] at later
    exact ⟨letter, Except.ok.inj later⟩
  · rintro ⟨letter, rfl⟩
    exact ⟨_, ⟨letter, rfl⟩, folded⟩

theorem extent_steps (incremental : Bool) (extent after : Extent) :
    (extentLeaves extent).foldlM (extentStep incremental) freshExtent = .ok after ↔
      extent.partition.isAlpha = true ∧ extent = after := by
  refine partition_steps incremental (fun partition => { freshExtent with partition })
    (by simp only [extentStep, if_true]) ?_
  simp only [foldlM_cons, foldlM_nil, extentStep, number_step (show "startblock" ∉ _ by decide),
    number_step (show "byteoffset" ∉ _ by decide), number_step (show "bytecount" ∉ _ by decide),
    number_step (show "fileoffset" ∉ _ by decide), parse_number, String.reduceEq, if_false, if_true, ok_bind]
  rfl

theorem endElement_closeExtent {crates : Crates} (p : IndexParser) (text : String) :
    endElement crates p "extent" "extentinfo" text = .ok p.closeExtent :=
  endElement_structural (by decide) (checkElement_plain (by decide) (by decide) _)

theorem reads_extent {crates : Crates} {p : IndexParser} {file : FileNode} {outer : List FileNode} (ready : p.Ready)
    (idle : p.curExtent = none) (inside : p.path.headD "" = "extentinfo") (stack : p.fileStack = file :: outer)
    (extent : Extent) : Reads crates p (writeExtent extent)
      (p.path.length + 1 < nestingLimit ∧ extent.partition.isAlpha = true)
      (p.withFile { file with extents := file.extents ++ [extent] }) := by
  let embed : Extent → IndexParser := fun extent =>
    { p with curExtent := some extent, path := "extent" :: p.path }
  have fields : ∀ leaf ∈ extentLeaves extent, leaf.1 ∈ fieldTags := by simp [extentLeaves, fieldTags]
  have body := reads_steps crates embed (extentStep p.header.incremental) (by simp [extentLeaves]) fields
    (fun part tag text field => endElement_extent field text rfl) (extent_steps p.header.incremental extent)
    ⟨ready.tree, ready.text, ready.encoded⟩
  have closed : closeExtent { p with curExtent := some extent } =
      p.withFile { file with extents := file.extents ++ [extent] } := by
    simp only [closeExtent, stack, withFile, tail_cons, idle]
  rw [writeExtent_eq]
  exact .element (s := { p with curExtent := some extent }) ready (by simp [Allowed, knownElements]) rfl body
    (fun fits => Nat.lt_of_succ_lt fits.1) ⟨ready.tree, ready.text, ready.encoded⟩ inside
    fun text => closed ▸ endElement_closeExtent _ text

theorem reads_extents (crates : Crates) {p : IndexParser} {file : FileNode} {outer : List FileNode} (ready : p.Ready)
    (idle : p.curExtent = none) (inside : p.path.headD "" = "extentinfo") (stack : p.fileStack = file :: outer)
    (bare : file.extents = []) (extents : List Extent) : Reads crates p (extents.flatMap writeExtent)
      ((extents ≠ [] → p.path.length + 1 < nestingLimit) ∧ ∀ extent ∈ extents, extent.partition.isAlpha = true)
      (p.withFile { file with extents }) := by
  have start : p.withFile { file with extents := [] } = p := by
    rw [withFile, ← bare, stack, tail_cons, ← stack]
  have each : ∀ before extent after, extents = before ++ extent :: after →
      Reads crates (p.withFile { file with extents := before }) (writeExtent extent)
        (p.path.length + 1 < nestingLimit ∧ extent.partition.isAlpha = true)
        (p.withFile { file with extents := before ++ [extent] }) := fun before extent _ _ =>
    reads_extent (p := p.withFile { file with extents := before }) ⟨ready.tree, ready.text, ready.encoded⟩ idle inside
      rfl extent
  have read := Reads.each (fun extents => p.withFile { file with extents }) each
  rw [start] at read
  refine read.congr ?_
  rw [forall₂_and]
  exact and_congr_left' (forall_mem_const extents)

end Extents

section Xattrs

def valueEvents (xattr : Xattr) : List Event :=
  let attributes := if xattr.base64 then [("type", "base64")] else []
  if xattr.value.isEmpty then [.empty "value" attributes]
  else [.start "value" attributes, .text xattr.value, .close "value"]

theorem writeXattr_eq (xattr : Xattr) : writeXattr xattr =
    .start "xattr" [] :: ((writeText "key" xattr.key ++ valueEvents xattr) ++ [.close "xattr"]) := by
  simp [writeXattr, valueEvents]

theorem reads_value (crates : Crates) {p : IndexParser} {part : Xattr} (ready : p.Ready)
    (inside : p.path.headD "" = "xattr") (current : p.curXattr = some part) (xattr : Xattr) :
    Reads crates p (valueEvents xattr) (p.path.length < nestingLimit)
      { p with curXattr := some { xattr with key := part.key } } := by
  intro width rest q
  have allowed : p.Allowed "value" := by simp [Allowed, knownElements]
  let attributes := if xattr.base64 then [("type", "base64")] else []
  let opened := { p with curXattr := some { part with base64 := xattr.base64 } }
  have started : (p.markEncoded "value" attributes).startElement "value" attributes = .ok opened := by
    have marked : p.markEncoded "value" attributes = p := by simp [markEncoded, encodedTags]
    have flag : attributes.any (fun a => a.1 = "type" && a.2 = "base64") = xattr.base64 := by
      cases set : xattr.base64 <;> simp [attributes, set]
    rw [marked]
    simp only [startElement, String.reduceEq, decide_false, Bool.or_self, Bool.false_eq_true, if_false, if_true,
      current, Option.map_some, flag, opened]
  have readyOpened : opened.Ready := ⟨ready.tree, ready.text, ready.encoded⟩
  have ended : ∀ text, onEnd crates { opened with path := "value" :: p.path, text } =
      .ok { p with curXattr := some { part with base64 := xattr.base64, value := text } } := by
    intro text
    have closing := onEnd_eq crates readyOpened "value" text
    rw [show opened.path.headD "" = "xattr" from inside, endElement_xattr opened (.inr rfl)] at closing
    exact closing
  unfold valueEvents
  dsimp only
  split
  · rename_i bare
    have blank : xattr.value = "" := by simpa using bare
    have cleared : ({ opened with path := "value" :: opened.path } : IndexParser) =
        { opened with path := "value" :: p.path, text := "" } := by
      rw [← readyOpened.text]
    rw [cons_append, nil_append, feed_empty_started crates ready allowed started, cleared, ended]
    simp [blank]
  · rw [cons_append, cons_append, cons_append, nil_append,
      feed_leaf_started crates ready allowed started]
    rw [show ({ opened with path := "value" :: opened.path, text := xattr.value } : IndexParser) =
      { opened with path := "value" :: p.path, text := xattr.value } from rfl, ended]
    simp

/-- Inside the attribute set of a node whose attributes so far are the argument. -/
structure Collects (owner : List Xattr → IndexParser) (path : List String) : Prop where
  ready : ∀ xattrs, (owner xattrs).Ready
  inside : ∀ xattrs, (owner xattrs).path = "extendedattributes" :: path
  attach : ∀ xattrs xattr, closeXattr { owner xattrs with curXattr := some xattr } = owner (xattrs ++ [xattr])

theorem endElement_closeXattr {crates : Crates} (p : IndexParser) (text : String) :
    endElement crates p "xattr" "extendedattributes" text = .ok p.closeXattr :=
  endElement_structural (by decide) (checkElement_plain (by decide) (by decide) _)

theorem reads_xattr {crates : Crates} {owner : List Xattr → IndexParser} {path : List String}
    (collects : Collects owner path) (xattrs : List Xattr) (xattr : Xattr) :
    Reads crates (owner xattrs) (writeXattr xattr) (path.length + 2 < nestingLimit) (owner (xattrs ++ [xattr])) := by
  have ready := collects.ready xattrs
  have inside := collects.inside xattrs
  have attach := collects.attach xattrs xattr
  generalize owner xattrs = p at ready inside attach
  let opened : Xattr → IndexParser := fun xattr => { p with curXattr := some xattr, path := "xattr" :: p.path }
  have readyInside : ∀ xattr, (opened xattr).Ready := fun _ => ⟨ready.tree, ready.text, ready.encoded⟩
  have depth : (opened xattr).path.length = path.length + 2 := by simp [opened, inside]
  have keyed : Reads crates (opened { key := "", value := "", base64 := false }) (writeText "key" xattr.key) _
      (opened { key := xattr.key, value := "", base64 := false }) :=
    reads_text crates (readyInside _) rfl (by decide) (endElement_xattr _ (.inl rfl) xattr.key)
  have valued := reads_value crates (readyInside { key := xattr.key, value := "", base64 := false }) rfl rfl xattr
  have once : (opened xattr).path.length < nestingLimit ∧ (opened xattr).path.length < nestingLimit ↔
      path.length + 2 < nestingLimit := by
    rw [and_self_iff, depth]
  have body := (keyed.append fun _ => valued).congr once
  rw [writeXattr_eq]
  exact .element (s := { p with curXattr := some xattr }) ready (by simp [Allowed, knownElements]) rfl body
    (fun fits => by rw [inside]; exact Nat.lt_of_succ_lt fits) ⟨ready.tree, ready.text, ready.encoded⟩
    (by show p.path.headD "" = _; rw [inside]; rfl) fun text => attach ▸ endElement_closeXattr _ text

theorem reads_xattrs (crates : Crates) {owner : List Xattr → IndexParser} {path : List String}
    (collects : Collects owner path) (xattrs : List Xattr) : Reads crates (owner []) (xattrs.flatMap writeXattr)
      (xattrs ≠ [] → path.length + 2 < nestingLimit) (owner xattrs) :=
  (Reads.each owner fun before xattr _ _ => reads_xattr collects before xattr).congr (forall_mem_const xattrs)

end Xattrs

section Meta

variable {tag : String}

def boolText (value : Bool) : String := if value then "true" else "false"

def metaLeaves (m : NodeMeta) : List (String × String) :=
  [("readonly", boolText m.readonly), ("creationtime", m.creationTime), ("changetime", m.changeTime),
    ("modifytime", m.modifyTime), ("accesstime", m.accessTime), ("backuptime", m.backupTime),
    ("fileuid", Text.decimal m.fileUid)]

theorem writeMeta_full (m : NodeMeta) : writeMeta m none = writeLeaves (metaLeaves m) := by
  simp [writeMeta, writeLeaves, metaLeaves, has, writeBool, writeU64, boolText]

def metaNames (names : Finset String) : Finset String :=
  insert "fileuid" (insert "backuptime" (insert "accesstime" (insert "modifytime" (insert "changetime"
    (insert "creationtime" (insert "readonly" names))))))

def TrimmedTimes (m : NodeMeta) : Prop :=
  Text.Trimmed m.creationTime ∧ Text.Trimmed m.changeTime ∧ Text.Trimmed m.modifyTime ∧ Text.Trimmed m.accessTime ∧
    Text.Trimmed m.backupTime

instance (m : NodeMeta) : Decidable (TrimmedTimes m) :=
  inferInstanceAs (Decidable (_ ∧ _ ∧ _ ∧ _ ∧ _))

def metaStep (incremental : Bool) (state : Fields × NodeMeta) (leaf : String × String) : Result (Fields × NodeMeta) := do
  let fields ← fieldStep incremental state.1 leaf.1 (Text.trim leaf.2)
  let nodeMeta ← applyMeta state.2 leaf.1 (Text.trim leaf.2)
  .ok (fields, nodeMeta)

theorem trim_boolText (value : Bool) : trim (boolText value) = boolText value := by
  cases value <;> decide

theorem fine_bool (switch : tag = "readonly" ∨ tag = "openforwrite") (value : Bool) : Fine tag (boolText value) := by
  rcases switch with rfl | rfl <;> cases value <;> simp [Fine, numericTags, boolText]

theorem metaStep_ok {incremental : Bool} {names : Finset String} {m after : NodeMeta} {text : String}
    (fresh : tag ∉ names) (fine : Fine tag (trim text)) (set : applyMeta m tag (trim text) = .ok after) :
    metaStep incremental (recorded incremental names, m) (tag, text) =
      .ok (recorded incremental (insert tag names), after) := by
  simp only [metaStep, fieldStep_recorded fine incremental fresh, set, ok_bind]

theorem meta_steps (incremental : Bool) {names : Finset String} (fresh : ∀ leaf ∈ metaLeaves {}, leaf.1 ∉ names)
    (before : NodeMeta) {m : NodeMeta} (trimmed : TrimmedTimes m) :
    (metaLeaves m).foldlM (metaStep incremental) (recorded incremental names, before) =
      .ok (recorded incremental (metaNames names), m) := by
  obtain ⟨creation, change, modify, access, backup⟩ := trimmed
  simp only [metaLeaves, forall_mem_cons, not_mem_nil, false_implies, implies_true, and_true] at fresh
  obtain ⟨f1, f2, f3, f4, f5, f6, f7⟩ := fresh
  have flag : ∀ value : Bool, (boolText value = "true" || boolText value = "1" || boolText value = "yes") = value := by
    intro value
    cases value <;> decide
  rw [metaLeaves, foldlM_cons, metaStep_ok f1 (by rw [trim_boolText]; exact fine_bool (.inl rfl) _)
    (by rw [trim_boolText]; rfl), ok_bind]
  rw [foldlM_cons, metaStep_ok (by simp [f2]) (fine_text (by decide) _) (by rw [creation]; rfl), ok_bind]
  rw [foldlM_cons, metaStep_ok (by simp [f3]) (fine_text (by decide) _) (by rw [change]; rfl), ok_bind]
  rw [foldlM_cons, metaStep_ok (by simp [f4]) (fine_text (by decide) _) (by rw [modify]; rfl), ok_bind]
  rw [foldlM_cons, metaStep_ok (by simp [f5]) (fine_text (by decide) _) (by rw [access]; rfl), ok_bind]
  rw [foldlM_cons, metaStep_ok (by simp [f6]) (fine_text (by decide) _) (by rw [backup]; rfl), ok_bind]
  have uid : ∀ m' : NodeMeta, applyMeta m' "fileuid" (trim (decimal m.fileUid)) =
      .ok { m' with fileUid := m.fileUid } := by
    intro m'
    simp only [applyMeta, String.reduceEq, if_false, if_true, parse_number, ok_bind]
  rw [foldlM_cons, metaStep_ok (by simp [f7]) (fine_number (by decide) _) (uid _), ok_bind]
  simp only [foldlM_nil, Pure.pure, Except.pure, flag]
  rfl

end Meta

section Heads

def metaTags : List String :=
  ["readonly", "creationtime", "changetime", "modifytime", "accesstime", "backuptime", "fileuid"]

theorem metaLeaves_tags (m : NodeMeta) : ∀ leaf ∈ metaLeaves m, leaf.1 ∈ metaTags := by
  simp [metaLeaves, metaTags]

theorem fileStep_meta {tag : String} (member : tag ∈ metaTags) (incremental : Bool) (file : FileNode)
    (state : Fields × NodeMeta) (text : String) :
    fileStep incremental { file with deltaFields := state.1, nodeMeta := state.2 } (tag, text) =
      (fun state => { file with deltaFields := state.1, nodeMeta := state.2 }) <$>
        metaStep incremental state (tag, text) := by
  have other : tag ≠ "name" ∧ tag ≠ "length" ∧ tag ≠ "symlink" ∧ tag ≠ "openforwrite" :=
    (show ∀ tag ∈ metaTags, tag ≠ "name" ∧ tag ≠ "length" ∧ tag ≠ "symlink" ∧ tag ≠ "openforwrite" by decide) tag member
  unfold fileStep metaStep
  cases fieldStep incremental state.1 tag (trim text) with
  | error error => rfl
  | ok fields =>
    simp only [ok_bind, setFileField, other, if_false]
    cases applyMeta state.2 tag (trim text) <;> rfl

theorem dirStep_meta {tag : String} (member : tag ∈ metaTags) (incremental : Bool) (dir : DirectoryNode)
    (state : Fields × NodeMeta) (text : String) :
    dirStep incremental { dir with deltaFields := state.1, nodeMeta := state.2 } (tag, text) =
      (fun state => { dir with deltaFields := state.1, nodeMeta := state.2 }) <$>
        metaStep incremental state (tag, text) := by
  have other : tag ≠ "name" := (show ∀ tag ∈ metaTags, tag ≠ "name" by decide) tag member
  unfold dirStep metaStep
  cases fieldStep incremental state.1 tag (trim text) with
  | error error => rfl
  | ok fields =>
    simp only [ok_bind, setDirectoryField, other, if_false]
    cases applyMeta state.2 tag (trim text) <;> rfl

def fileLeaves (file : FileNode) : List (String × String) :=
  ("name", file.name) :: ("length", Text.decimal file.length) :: metaLeaves file.nodeMeta

def dirLeaves (dir : DirectoryNode) : List (String × String) :=
  ("name", dir.name) :: metaLeaves dir.nodeMeta

def fileNames : Finset String := metaNames (insert "length" (insert "name" ∅))

def dirNames : Finset String := metaNames (insert "name" ∅)

theorem file_steps (incremental : Bool) {file : FileNode} (trimmed : TrimmedTimes file.nodeMeta) :
    (fileLeaves file).foldlM (fileStep incremental) { deltaFields := recorded incremental ∅ } =
      .ok { deltaFields := recorded incremental fileNames, name := file.name, length := file.length
            nodeMeta := file.nodeMeta } := by
  have named : fileStep incremental { deltaFields := recorded incremental ∅ } ("name", file.name) =
      .ok { deltaFields := recorded incremental (insert "name" ∅), name := file.name } := by
    simp only [fileStep, fieldStep_recorded (fine_text (show "name" ∉ _ by decide) _) incremental
      (Finset.notMem_empty "name"), ok_bind]
    rfl
  have sized : fileStep incremental { deltaFields := recorded incremental (insert "name" ∅), name := file.name }
      ("length", decimal file.length) =
        .ok { deltaFields := recorded incremental (insert "length" (insert "name" ∅)), name := file.name
              length := file.length } := by
    simp only [fileStep, fieldStep_recorded (fine_number (show "length" ∉ _ by decide) file.length) incremental
      (show "length" ∉ (insert "name" ∅ : Finset String) by decide), ok_bind, setFileField, String.reduceEq,
      if_false, if_true, parse_number]
  let embed : Fields × NodeMeta → FileNode := fun state =>
    { name := file.name, length := file.length, deltaFields := state.1, nodeMeta := state.2 }
  have described : (metaLeaves file.nodeMeta).foldlM (fileStep incremental)
      (embed (recorded incremental (insert "length" (insert "name" ∅)), {})) =
        embed <$> (metaLeaves file.nodeMeta).foldlM (metaStep incremental)
          (recorded incremental (insert "length" (insert "name" ∅)), {}) := by
    apply foldlM_embed fun leaf member state => ?_
    exact fileStep_meta (metaLeaves_tags _ leaf member) incremental { name := file.name, length := file.length } state leaf.2
  rw [meta_steps incremental (by decide) {} trimmed] at described
  rw [fileLeaves, foldlM_cons, named, ok_bind, foldlM_cons, sized, ok_bind]
  exact described

theorem dir_steps (incremental : Bool) {dir : DirectoryNode} (trimmed : TrimmedTimes dir.nodeMeta) :
    (dirLeaves dir).foldlM (dirStep incremental) { deltaFields := recorded incremental ∅ } =
      .ok { deltaFields := recorded incremental dirNames, name := dir.name, nodeMeta := dir.nodeMeta } := by
  have named : dirStep incremental { deltaFields := recorded incremental ∅ } ("name", dir.name) =
      .ok { deltaFields := recorded incremental (insert "name" ∅), name := dir.name } := by
    simp only [dirStep, fieldStep_recorded (fine_text (show "name" ∉ _ by decide) _) incremental
      (Finset.notMem_empty "name"), ok_bind]
    rfl
  let embed : Fields × NodeMeta → DirectoryNode := fun state =>
    { name := dir.name, deltaFields := state.1, nodeMeta := state.2 }
  have described : (metaLeaves dir.nodeMeta).foldlM (dirStep incremental)
      (embed (recorded incremental (insert "name" ∅), {})) =
        embed <$> (metaLeaves dir.nodeMeta).foldlM (metaStep incremental) (recorded incremental (insert "name" ∅), {}) := by
    apply foldlM_embed fun leaf member state => ?_
    exact dirStep_meta (metaLeaves_tags _ leaf member) incremental { name := dir.name } state leaf.2
  rw [meta_steps incremental (by decide) {} trimmed] at described
  rw [dirLeaves, foldlM_cons, named, ok_bind]
  exact described

end Heads

section NodeXattrs

/-- A node whose attributes so far are the argument, before and after its attribute set is recorded. -/
structure Attributed (crates : Crates) (incremental : Bool) (node done : List Xattr → IndexParser) (tag : String)
    (path : List String) : Prop where
  ready : ∀ xattrs, (node xattrs).Ready
  inside : ∀ xattrs, (node xattrs).path = tag :: path
  attach : ∀ xattrs xattr, closeXattr { node xattrs with curXattr := some xattr } = node (xattrs ++ [xattr])
  ended : ∀ xattrs text, endElement crates (node xattrs) "extendedattributes" tag text = .ok (done xattrs)
  unrecorded : incremental = false → done [] = node []

theorem closeXattr_path (p : IndexParser) (path : List String) :
    closeXattr { p with path } = { closeXattr p with path } := by
  unfold closeXattr
  dsimp only
  split <;> rfl

theorem reads_nodeXattrs {crates : Crates} {incremental : Bool} {node done : List Xattr → IndexParser} {tag : String}
    {path : List String} (attributed : Attributed crates incremental node done tag path) (xattrs : List Xattr)
    (fits : path.length + 1 < nestingLimit) : Reads crates (node []) (writeNodeXattrs xattrs none incremental)
      (xattrs ≠ [] → path.length + 3 < nestingLimit) (done xattrs) := by
  have depth : (node []).path.length < nestingLimit := by
    rw [attributed.inside]
    exact fits
  have parent : ∀ xattrs, (node xattrs).path.headD "" = tag := by
    intro xattrs
    rw [attributed.inside]
    rfl
  have allowed : (node []).Allowed "extendedattributes" := by simp [Allowed, knownElements]
  have plain : "extendedattributes" ∈ plainTags := by decide
  cases xattrs with
  | nil =>
    cases incremental with
    | false =>
      rw [← attributed.unrecorded rfl]
      exact Reads.nil.congr (by simp)
    | true =>
      have bare := reads_bare crates (attributed.ready []) (parent []) plain allowed (attributed.ended [] "")
      exact bare.congr (by simp [depth])
  | cons xattr later =>
    have written : writeNodeXattrs (xattr :: later) none incremental = .start "extendedattributes" [] ::
        ((xattr :: later).flatMap writeXattr ++ [.close "extendedattributes"]) := by
      simp [writeNodeXattrs, writeXattrs, has]
    let owner : List Xattr → IndexParser := fun xattrs => { node xattrs with path := "extendedattributes" :: (node xattrs).path }
    have collects : Collects owner (tag :: path) := by
      constructor
      · intro xattrs
        have ready := attributed.ready xattrs
        exact ⟨ready.tree, ready.text, ready.encoded⟩
      · intro xattrs
        exact congrArg _ (attributed.inside xattrs)
      · intro xattrs xattr
        have moved := closeXattr_path { node xattrs with curXattr := some xattr } (owner xattrs).path
        rw [attributed.attach] at moved
        refine moved.trans ?_
        show { node (xattrs ++ [xattr]) with path := "extendedattributes" :: (node xattrs).path } = owner (xattrs ++ [xattr])
        rw [attributed.inside, ← attributed.inside (xattrs ++ [xattr])]
    rw [written]
    exact .element (attributed.ready []) allowed (startElement_plain plain []) (reads_xattrs crates collects (xattr :: later))
      (fun _ => depth) (attributed.ready _) (parent _) (attributed.ended _)

end NodeXattrs

section Files

variable {p q : IndexParser} {file : FileNode} {crates : Crates} {names : Finset String} {dir : DirectoryNode}
  {outer : List DirectoryNode}

/-- Between two nodes of the tree: no part of a node is open. -/
structure Settled (p : IndexParser) : Prop extends Ready p where
  noExtent : p.curExtent = none
  noXattr : p.curXattr = none
  noFile : p.fileStack = []

def inFile (p : IndexParser) (file : FileNode) : IndexParser :=
  { p with fileStack := file :: p.fileStack, path := "file" :: p.path }

def openNames (file : FileNode) (names : Finset String) : Finset String :=
  if file.openForWrite.isSome then insert "openforwrite" names else names

def payloadNames (file : FileNode) (names : Finset String) : Finset String :=
  if file.symlink.isSome then insert "symlink" names else insert "extentinfo" names

def fileElements (file : FileNode) : Finset String :=
  payloadNames file (openNames file (insert "extendedattributes" fileNames))

def storedFile (incremental : Bool) (file : FileNode) : FileNode :=
  { file with deltaFields := recorded incremental (fileElements file) }

theorem Settled.inFile (settled : p.Settled) (file : FileNode) : (p.inFile file).Ready :=
  ⟨settled.tree, settled.text, settled.encoded⟩

theorem endElement_inFile (p : IndexParser) (file : FileNode) {tag : String} (field : tag ∉ structuralTags)
    (text : String) :
    endElement crates (p.inFile file) tag "file" text = p.inFile <$> fileStep p.header.incremental file (tag, text) :=
  endElement_file field text rfl

theorem reads_fileLeaves (crates : Crates) (settled : p.Settled) {after : FileNode} {leaves : List (String × String)}
    (some : leaves ≠ []) (fields : ∀ leaf ∈ leaves, leaf.1 ∈ fieldTags)
    (folded : leaves.foldlM (fileStep p.header.incremental) file = .ok after) :
    Reads crates (p.inFile file) (writeLeaves leaves) (p.path.length + 1 < nestingLimit) (p.inFile after) :=
  reads_folded crates p.inFile (fileStep p.header.incremental) some fields
    (fun part _ text field => endElement_inFile p part field text) folded (settled.inFile file)

theorem fileStep_container {tag : String} (container : tag = "extendedattributes" ∨ tag = "extentinfo")
    (incremental : Bool) (file : FileNode) (fields : file.deltaFields = recorded incremental names)
    (fresh : tag ∉ names) (text : String) :
    fileStep incremental file (tag, text) =
      .ok { file with deltaFields := recorded incremental (insert tag names) } := by
  have fine : Fine tag (trim text) := by
    rcases container with rfl | rfl <;> exact fine_text (by decide) _
  unfold fileStep
  rw [fields, fieldStep_recorded fine incremental fresh, ok_bind]
  rcases container with rfl | rfl <;> rfl

def FileFits (depth : Nat) (file : FileNode) : Prop :=
  depth + 1 < nestingLimit ∧ (file.xattrs ≠ [] ∨ file.extents ≠ [] → depth + 3 < nestingLimit) ∧
    ∀ extent ∈ file.extents, extent.partition.isAlpha = true

instance (depth : Nat) (file : FileNode) : Decidable (FileFits depth file) :=
  inferInstanceAs (Decidable (_ ∧ (_ → _) ∧ ∀ extent ∈ file.extents, _))

def payloadEvents (file : FileNode) : List Event :=
  match file.symlink with
  | some target => writeText "symlink" target
  | none => .start "extentinfo" [] :: (file.extents.flatMap writeExtent ++ [.close "extentinfo"])

def openLeaves (file : FileNode) : List (String × String) :=
  file.openForWrite.toList.map fun value => ("openforwrite", boolText value)

theorem writeFile_full (full : file.deltaFields = none) (incremental : Bool) :
    writeFile file incremental = .start "file" [] :: ((writeLeaves (fileLeaves file) ++
      (writeNodeXattrs file.xattrs none incremental ++ (writeLeaves (openLeaves file) ++ payloadEvents file))) ++
        [.close "file"]) := by
  have payload : writePayload file = payloadEvents file := by
    unfold writePayload payloadEvents
    cases file.symlink <;> simp [full, has]
  have head : writeLeaves (fileLeaves file) =
      writeText "name" file.name ++ (writeU64 "length" file.length ++ writeLeaves (metaLeaves file.nodeMeta)) := by
    simp [writeLeaves, fileLeaves, writeU64]
  simp only [writeFile, full, payload, head, writeMeta_full, deleted, Bool.false_eq_true, if_false]
  cases set : file.openForWrite <;> simp [openLeaves, writeLeaves, has, set, writeBool, boolText]

theorem endElement_closeFile (tree : p.stream.streaming = false) (stack : p.dirStack = dir :: outer) (file : FileNode)
    (text : String) : endElement crates { p with fileStack := file :: p.fileStack } "file" "contents" text =
      .ok (p.withDir { dir with files := dir.files ++ [file] }) := by
  refine (endElement_structural (by decide) (checkElement_plain (by decide) (by decide) _)).trans ?_
  simp [closeFile, stack, tree, withDir, locationTags]

theorem openStep {incremental : Bool} (fields : file.deltaFields = recorded incremental names)
    (fresh : "openforwrite" ∉ names) (value : Bool) :
    fileStep incremental file ("openforwrite", boolText value) =
      .ok { file with
        openForWrite := some value, deltaFields := recorded incremental (insert "openforwrite" names) } := by
  have flag : (boolText value = "true" || boolText value = "1") = value := by cases value <;> decide
  unfold fileStep
  rw [fields, trim_boolText, fieldStep_recorded (fine_bool (.inr rfl) value) incremental fresh, ok_bind]
  simp only [setFileField, String.reduceEq, if_false, if_true, flag]

theorem linkStep {incremental : Bool} (fields : file.deltaFields = recorded incremental names)
    (fresh : "symlink" ∉ names) (target : String) :
    fileStep incremental file ("symlink", target) =
      .ok { file with symlink := some target, deltaFields := recorded incremental (insert "symlink" names) } := by
  unfold fileStep
  rw [fields, fieldStep_recorded (fine_text (by decide) _) incremental fresh, ok_bind]
  simp only [setFileField, String.reduceEq, if_false, if_true]

def fileDeletion (name : String) : FileNode := { name, deltaFields := Fields.deletion }

theorem fileStep_deleted (name : String) :
    fileStep true { deltaFields := recorded true (insert "name" ∅), name } ("deleted", "") = .ok (fileDeletion name) := by
  have fine : Fine "deleted" (trim "") := by simp [Fine, numericTags]; decide
  unfold fileStep
  rw [fieldStep_recorded fine true (by decide), ok_bind]
  have names : (insert "deleted" (insert "name" ∅) : Finset String) = {"name", "deleted"} := by decide
  rw [names]
  rfl

/-- What a document may hold as an entry for a file: the file itself, or in an increment its removal. -/
def FileEntry (incremental : Bool) (file : FileNode) : Prop :=
  (file.deltaFields = none ∧ (file.symlink.isSome → file.extents = []) ∧ TrimmedTimes file.nodeMeta) ∨
    (incremental = true ∧ file = fileDeletion file.name)

def storedEntry (incremental : Bool) (file : FileNode) : FileNode :=
  if file.deltaFields.deleted then file else storedFile incremental file

section Parts

variable (settled : p.Settled) (fields : file.deltaFields = recorded p.header.incremental names)
  (fits : p.path.length + 1 < nestingLimit)
include settled fields fits

theorem reads_fileXattrs (fresh : "extendedattributes" ∉ names) (bare : file.xattrs = []) (xattrs : List Xattr) :
    Reads crates (p.inFile file) (writeNodeXattrs xattrs none p.header.incremental)
      (xattrs ≠ [] → p.path.length + 3 < nestingLimit) (p.inFile { file with
        xattrs, deltaFields := recorded p.header.incremental (insert "extendedattributes" names) }) := by
  have attributed : Attributed crates p.header.incremental (fun xattrs => p.inFile { file with xattrs })
      (fun xattrs => p.inFile { file with
        xattrs, deltaFields := recorded p.header.incremental (insert "extendedattributes" names) }) "file" p.path := by
    constructor
    · exact fun _ => settled.inFile _
    · exact fun _ => rfl
    · intro xattrs xattr
      simp only [closeXattr, inFile, settled.noXattr]
    · intro xattrs text
      rw [endElement_inFile p _ (by decide),
        fileStep_container (.inl rfl) p.header.incremental { file with xattrs } fields fresh text]
      rfl
    · intro full
      simp only [full, fields, recorded, Bool.false_eq_true, if_false]
  have start : p.inFile file = p.inFile { file with xattrs := [] } := by rw [← bare]
  rw [start]
  exact reads_nodeXattrs attributed xattrs fits

variable (crates) in
theorem reads_extentinfo (fresh : "extentinfo" ∉ names) (bare : file.extents = []) (extents : List Extent) :
    Reads crates (p.inFile file) (.start "extentinfo" [] :: (extents.flatMap writeExtent ++ [.close "extentinfo"]))
      ((extents ≠ [] → p.path.length + 3 < nestingLimit) ∧ ∀ extent ∈ extents, extent.partition.isAlpha = true)
      (p.inFile { file with
        extents, deltaFields := recorded p.header.incremental (insert "extentinfo" names) }) := by
  have body := reads_extents crates (p := { p.inFile file with path := "extentinfo" :: "file" :: p.path })
    ⟨settled.tree, settled.text, settled.encoded⟩ settled.noExtent rfl rfl bare extents
  exact .element (s := p.inFile { file with extents }) (settled.inFile file) (by simp [Allowed, knownElements])
    (startElement_plain (show "extentinfo" ∈ plainTags by decide) []) body (fun _ => fits) (settled.inFile _) rfl
    fun text => (endElement_inFile p _ (by decide) text).trans (congrArg _
      (fileStep_container (.inr rfl) p.header.incremental { file with extents } fields fresh text))

theorem reads_openForWrite (fresh : "openforwrite" ∉ names) (unset : file.openForWrite = none) (source : FileNode) :
    Reads crates (p.inFile file) (writeLeaves (openLeaves source)) True (p.inFile { file with
      openForWrite := source.openForWrite
      deltaFields := recorded p.header.incremental (openNames source names) }) := by
  cases set : source.openForWrite with
  | none =>
    have same : { file with openForWrite := none, deltaFields := recorded p.header.incremental names } = file := by
      rw [← unset, ← fields]
    simp only [openLeaves, openNames, set, Option.isSome_none, Bool.false_eq_true, if_false, same]
    exact Reads.nil
  | some value =>
    have listed : openLeaves source = [("openforwrite", boolText value)] := by simp [openLeaves, set]
    have folded : (openLeaves source).foldlM (fileStep p.header.incremental) file =
        .ok { file with
          openForWrite := some value, deltaFields := recorded p.header.incremental (openNames source names) } := by
      rw [listed, foldlM_cons, openStep fields fresh, ok_bind, openNames, set]
      rfl
    exact (reads_fileLeaves crates settled (by simp [listed]) (by simp [listed, fieldTags]) folded).congr (iff_true_intro fits)

theorem reads_payload (freshLink : "symlink" ∉ names) (freshExtents : "extentinfo" ∉ names)
    (noLink : file.symlink = none) (noExtents : file.extents = []) {source : FileNode}
    (bare : source.symlink.isSome → source.extents = []) : Reads crates (p.inFile file) (payloadEvents source)
      ((source.extents ≠ [] → p.path.length + 3 < nestingLimit) ∧
        ∀ extent ∈ source.extents, extent.partition.isAlpha = true)
      (p.inFile { file with
        symlink := source.symlink, extents := source.extents
        deltaFields := recorded p.header.incremental (payloadNames source names) }) := by
  unfold payloadEvents payloadNames
  cases set : source.symlink with
  | some target =>
    have empty : source.extents = [] := bare (by simp [set])
    have folded : [("symlink", target)].foldlM (fileStep p.header.incremental) file =
        .ok { file with
          symlink := some target, extents := []
          deltaFields := recorded p.header.incremental (insert "symlink" names) } := by
      rw [foldlM_cons, linkStep fields freshLink, ok_bind, ← noExtents]
      rfl
    have listed : writeText "symlink" target = writeLeaves [("symlink", target)] := by simp [writeLeaves]
    dsimp only
    rw [listed, empty]
    exact (reads_fileLeaves crates settled (by simp) (by simp [fieldTags]) folded).congr (by simp [fits])
  | none =>
    have listed := reads_extentinfo crates settled fields fits freshExtents noExtents source.extents
    rw [noLink] at listed
    exact listed

end Parts

variable (settled : p.Settled) (inside : p.path.headD "" = "contents") (stack : p.dirStack = dir :: outer)
include settled inside stack

theorem reads_fileElement {events : List Event} {fits : Prop}
    (body : Reads crates (p.inFile { deltaFields := recorded p.header.incremental ∅ }) events fits (p.inFile file))
    (deep : fits → p.path.length + 1 < nestingLimit) : Reads crates p (.start "file" [] :: (events ++ [.close "file"]))
      fits (p.withDir { dir with files := dir.files ++ [file] }) := by
  have started : p.startElement "file" [] =
      .ok { p with fileStack := { deltaFields := recorded p.header.incremental ∅ } :: p.fileStack } := by
    simp only [startElement, String.reduceEq, decide_false, Bool.or_self, Bool.false_eq_true, if_false, if_true]
    rfl
  exact .element (s := { p with fileStack := file :: p.fileStack }) settled.toReady (by simp [Allowed, knownElements])
    started body (fun read => Nat.lt_of_succ_lt (deep read)) ⟨settled.tree, settled.text, settled.encoded⟩ inside
    (endElement_closeFile settled.tree stack _)

theorem reads_file (full : file.deltaFields = none) (bare : file.symlink.isSome → file.extents = [])
    (trimmed : TrimmedTimes file.nodeMeta) :
    Reads crates p (writeFile file p.header.incremental) (FileFits p.path.length file)
      (p.withDir { dir with files := dir.files ++ [storedFile p.header.incremental file] }) := by
  have fields : ∀ leaf ∈ fileLeaves file, leaf.1 ∈ fieldTags := by
    simp [fileLeaves, metaLeaves, fieldTags]
  have freshLink : "symlink" ∉ openNames file (insert "extendedattributes" fileNames) := by
    unfold openNames
    split <;> decide
  have freshExtents : "extentinfo" ∉ openNames file (insert "extendedattributes" fileNames) := by
    unfold openNames
    split <;> decide
  have head := reads_fileLeaves crates settled (by simp [fileLeaves]) fields (file_steps p.header.incremental trimmed)
  have body := head.append fun fits =>
    (reads_fileXattrs settled rfl fits (by decide) rfl file.xattrs).append fun _ =>
      (reads_openForWrite settled rfl fits (by decide) rfl file).append fun _ =>
        reads_payload settled rfl fits freshLink freshExtents rfl rfl bare
  rw [writeFile_full full]
  exact reads_fileElement settled inside stack (body.congr (by rw [FileFits, or_imp, true_and, and_assoc])) And.left

variable (crates) in
theorem reads_fileDeletion (incremental : p.header.incremental = true) (name : String) :
    Reads crates p (writeFile (fileDeletion name) p.header.incremental) (FileFits p.path.length (fileDeletion name))
      (p.withDir { dir with files := dir.files ++ [fileDeletion name] }) := by
  have written : writeFile (fileDeletion name) true = .start "file" [] ::
      ((writeLeaves [("name", name)] ++ [.empty "deleted" []]) ++ [.close "file"]) := by
    simp [writeFile, fileDeletion, deletion, deleted, writeLeaves]
  have named : [("name", name)].foldlM (fileStep p.header.incremental) { deltaFields := recorded true ∅ } =
      .ok { deltaFields := recorded true (insert "name" ∅), name } := by
    rw [incremental, foldlM_cons, fileStep,
      fieldStep_recorded (fine_text (by decide) _) true (Finset.notMem_empty "name")]
    rfl
  have head := reads_fileLeaves crates settled (by simp) (by simp [fieldTags]) named
  have ended : endElement crates (p.inFile { deltaFields := recorded true (insert "name" ∅), name }) "deleted" "file" "" =
      .ok (p.inFile (fileDeletion name)) := by
    rw [endElement_inFile p _ (by decide), incremental, fileStep_deleted]
    rfl
  have removed : Reads crates (p.inFile _) [.empty "deleted" []] _ (p.inFile (fileDeletion name)) :=
    reads_bare crates (settled.inFile _) rfl (by decide) ⟨by decide, fun _ => incremental, by simp⟩ ended
  rw [incremental, written]
  refine reads_fileElement settled inside stack ?_ And.left
  rw [incremental]
  exact (head.append fun _ => removed).congr (by simp [FileFits, fileDeletion, inFile])

variable (crates) in
theorem reads_files (noFiles : dir.files = []) {files : List FileNode}
    (entries : ∀ file ∈ files, FileEntry p.header.incremental file) :
    Reads crates p (files.flatMap (writeFile · p.header.incremental)) (∀ file ∈ files, FileFits p.path.length file)
      (p.withDir { dir with files := files.map (storedEntry p.header.incremental) }) := by
  let owner : List FileNode → IndexParser := fun files =>
    p.withDir { dir with files := files.map (storedEntry p.header.incremental) }
  have start : owner [] = p := by
    cases dir
    simp only [owner, map_nil, withDir]
    rw [← noFiles, stack, tail_cons, ← stack]
  have each : ∀ before file after, files = before ++ file :: after → Reads crates (owner before)
      (writeFile file p.header.incremental) (FileFits p.path.length file) (owner (before ++ [file])) := by
    intro before file after split
    have settledHere : (owner before).Settled :=
      ⟨⟨settled.tree, settled.text, settled.encoded⟩, settled.noExtent, settled.noXattr, settled.noFile⟩
    have grown : owner (before ++ [file]) = (owner before).withDir { dir with
        files := before.map (storedEntry p.header.incremental) ++ [storedEntry p.header.incremental file] } := by
      simp [owner, withDir]
    rw [grown]
    rcases entries file (by simp [split]) with ⟨full, bare, trimmed⟩ | ⟨incremental, removed⟩
    · have live : storedEntry p.header.incremental file = storedFile p.header.incremental file := by
        simp [storedEntry, full, deleted]
      rw [live]
      exact reads_file settledHere inside rfl full bare trimmed
    · have gone : storedEntry p.header.incremental file = file := by
        rw [storedEntry, removed]
        rfl
      have read := reads_fileDeletion crates (p := owner before) settledHere inside rfl incremental file.name
      rw [← removed] at read
      rw [gone]
      exact read
  have read := Reads.each owner each
  rw [start] at read
  exact read

end Files

end TapeRs.Ltfs.IndexParser

import TapeRs.Ltfs.DirectoryRoundTrip

namespace TapeRs.Ltfs.IndexParser

open Xml IndexWriter ScanMode Result Text List

section Header

/-- An element of the header of an index. -/
inductive HeaderItem where
  | text (tag content : String)
  | location (tag : String) (location : IndexLocation)

namespace HeaderItem

def tag : HeaderItem → String
  | text tag _ => tag
  | location tag _ => tag

def events : HeaderItem → List Event
  | text tag content => writeText tag content
  | location tag place => writeLocation tag place

end HeaderItem

def headerItems (crates : Crates) (index : LtfsIndex) : List HeaderItem :=
  [HeaderItem.text "creator" index.creator] ++ index.comment.toList.map (HeaderItem.text "comment") ++
    [HeaderItem.text "volumeuuid" (crates.uuidToString index.volumeUuid),
      HeaderItem.text "generationnumber" (Text.decimal index.generation),
      HeaderItem.text "updatetime" index.updateTime, HeaderItem.location "location" index.selfLocation] ++
    index.previousLocation.toList.map (HeaderItem.location "previousgenerationlocation") ++
    index.previousIncrementalLocation.toList.map (HeaderItem.location "previousincrementallocation") ++
    (if index.incremental then [] else [HeaderItem.text "allowpolicyupdate" (boolText index.allowPolicyUpdate)]) ++
    index.volumeLockState.toList.map (HeaderItem.text "volumelockstate") ++
    [HeaderItem.text "highestfileuid" (Text.decimal index.highestFileUid)]

theorem writeOptional_eq {α : Type} (value : Option α) (write : α → List Event) :
    writeOptional value write = value.toList.flatMap write := by
  cases value <;> simp [writeOptional]

theorem writeHeader_eq (crates : Crates) (index : LtfsIndex) :
    writeHeader crates index = (headerItems crates index).flatMap HeaderItem.events := by
  simp only [writeHeader, headerItems, writeOptional_eq, flatMap_append, flatMap_cons, flatMap_nil,
    append_nil, flatMap_map, HeaderItem.events, append_assoc, writeU64]
  cases index.incremental <;> simp [writeBool, boolText, HeaderItem.events]

def noteName (h : HeaderState) (tag : String) : HeaderState :=
  if h.incremental then { h with headerFields := insert tag h.headerFields } else h

def setLocation (h : HeaderState) (tag : String) (location : IndexLocation) : HeaderState :=
  if tag = "location" then { h with selfLocation := some location }
  else if tag = "previousincrementallocation" then { h with previousIncrementalLocation := some location }
  else { h with previousLocation := some location }

def setItem (crates : Crates) (h : HeaderState) : HeaderItem → HeaderState
  | .text tag content =>
    match setHeaderField crates h tag content (Text.trim content) with
    | .ok after => after
    | .error _ => h
  | .location tag place => setLocation h tag place

def readItem (crates : Crates) (h : HeaderState) (item : HeaderItem) : HeaderState :=
  setItem crates (noteName h item.tag) item

def Readable (crates : Crates) (incremental : Bool) : HeaderItem → Prop
  | .text tag content =>
    tag ∈ plainTags ∧ tag ≠ "deleted" ∧ (tag = "allowpolicyupdate" → incremental = false) ∧
      Fine tag (Text.trim content) ∧ ∀ h, ∃ after, setHeaderField crates h tag content (Text.trim content) = .ok after
  | .location tag _ => tag ∈ locationTags

theorem noteName_incremental (h : HeaderState) (tag : String) : (noteName h tag).incremental = h.incremental := by
  unfold noteName
  split <;> rfl

theorem headerNote_fresh {h : HeaderState} {tag : String} (fresh : tag ∉ h.headerFields) :
    headerNote h tag = .ok (noteName h tag) := by
  unfold headerNote noteName
  rw [if_neg fresh]
  split <;> rfl

theorem setItem_incremental (crates : Crates) (h : HeaderState) (item : HeaderItem) :
    (setItem crates h item).incremental = h.incremental := by
  cases item with
  | text tag content =>
    rw [setItem]
    split
    · rename_i set
      exact setHeaderField_incremental set
    · rfl
  | location tag place =>
    rw [setItem, setLocation]
    repeat' split
    all_goals rfl

theorem readItem_incremental (crates : Crates) (h : HeaderState) (item : HeaderItem) :
    (readItem crates h item).incremental = h.incremental :=
  (setItem_incremental crates _ item).trans (noteName_incremental h item.tag)

variable {crates : Crates} {p q : IndexParser}

/-- Directly inside the root element. -/
structure AtRoot (p : IndexParser) : Prop extends Settled p where
  inside : p.path = [rootName p.header.incremental]
  noLocation : p.curLocation = none
  noLocationTag : p.curLocationTag = none

theorem AtRoot.parent (root : p.AtRoot) : p.path.headD "" = rootName p.header.incremental := by
  rw [root.inside]
  rfl

theorem AtRoot.fits (root : p.AtRoot) : p.path.length < nestingLimit := by
  rw [root.inside]
  show 1 < nestingLimit
  decide

theorem reads_textItem (root : p.AtRoot) {tag content : String}
    (readable : Readable crates p.header.incremental (.text tag content)) (fresh : tag ∉ p.header.headerFields) :
    Reads crates p (writeText tag content) True { p with header := readItem crates p.header (.text tag content) } := by
  intro width rest q
  obtain ⟨plain, notDeleted, policy, fine, sets⟩ := readable
  have facts : ∀ tag ∈ plainTags, tag ∉ structuralTags ∧ tag ∈ knownElements := by decide
  obtain ⟨field, known⟩ := facts tag plain
  obtain ⟨after, set⟩ := sets (noteName p.header tag)
  have ended : endElement crates p tag (rootName p.header.incremental) content =
      .ok { p with header := readItem crates p.header (.text tag content) } := by
    rw [endElement_header field content rfl, headerStep, headerNote_fresh fresh, ok_bind, fieldStep_plain fine,
      ok_bind]
    simp only [IndexParser.readItem, setItem, HeaderItem.tag, set]
    rfl
  rw [feed_text crates root.toReady plain ⟨known, fun same => absurd same notDeleted, policy⟩, root.parent, ended]
  simp [root.fits]

def locationLeaves (place : IndexLocation) : List (String × String) :=
  [("partition", String.ofList [place.partition]), ("startblock", Text.decimal place.startBlock)]

theorem location_steps (incremental : Bool) (place after : IndexLocation) :
    (locationLeaves place).foldlM (locationStep incremental) freshLocation = .ok after ↔
      place.partition.isAlpha = true ∧ place = after := by
  refine partition_steps incremental (fun partition => { freshLocation with partition })
    (by simp only [locationStep, if_true]) ?_
  simp only [foldlM_cons, foldlM_nil, locationStep, number_step (show "startblock" ∉ _ by decide),
    parse_number, String.reduceEq, if_false, if_true, ok_bind]
  rfl

theorem writeLocation_eq (tag : String) (place : IndexLocation) :
    writeLocation tag place = .start tag [] :: (writeLeaves (locationLeaves place) ++ [.close tag]) := by
  simp [writeLocation, writeLeaves, locationLeaves, writeU64]

theorem checkElement_root {tag : String} (fresh : tag ∉ p.header.headerFields)
    (other : tag ∉ ["readonly", "openforwrite", "partition", "deleted"] ++ numericTags) (trimmed : String) :
    p.checkElement tag (rootName p.header.incremental) trimmed = .ok { p with header := noteName p.header tag } := by
  rw [checkElement_header rfl, headerNote_fresh fresh, ok_bind, fieldStep_plain (fine_text other trimmed)]
  rfl

theorem endElement_closeLocation (root : p.AtRoot) {tag : String} (listed : tag ∈ locationTags)
    (fresh : tag ∉ p.header.headerFields) (place : IndexLocation) (text : String) :
    endElement crates { p with curLocation := some place, curLocationTag := some tag } tag
        (rootName p.header.incremental) text =
      .ok { p with header := readItem crates p.header (.location tag place) } := by
  have facts : ∀ tag ∈ locationTags, tag ∉ valueTags ∧
      tag ∉ ["readonly", "openforwrite", "partition", "deleted"] ++ numericTags := by decide
  obtain ⟨structural, other⟩ := facts tag listed
  refine (endElement_structural structural (checkElement_root
    (p := { p with curLocation := some place, curLocationTag := some tag }) fresh other _)).trans ?_
  rw [if_pos listed]
  have cleared : p.curLocation = none ∧ p.curLocationTag = none := ⟨root.noLocation, root.noLocationTag⟩
  simp only [closeLocation, IndexParser.readItem, setItem, HeaderItem.tag, setLocation]
  split
  · simp only [cleared]
  · split <;> simp only [cleared]

theorem reads_locationItem (root : p.AtRoot) {tag : String} (listed : tag ∈ locationTags)
    (fresh : tag ∉ p.header.headerFields) (place : IndexLocation) :
    Reads crates p (writeLocation tag place) (place.partition.isAlpha = true)
      { p with header := readItem crates p.header (.location tag place) } := by
  let embed : IndexLocation → IndexParser := fun place =>
    { p with curLocation := some place, curLocationTag := some tag, path := tag :: p.path }
  have facts : ∀ tag ∈ locationTags, tag ∈ knownElements ∧ tag ≠ "deleted" ∧ tag ≠ "allowpolicyupdate" := by decide
  obtain ⟨known, notDeleted, notPolicy⟩ := facts tag listed
  have started : p.startElement tag [] =
      .ok { p with curLocation := some freshLocation, curLocationTag := some tag } := by
    simp only [locationTags, mem_cons, not_mem_nil, or_false] at listed
    rcases listed with rfl | rfl | rfl <;> rfl
  have fields : ∀ leaf ∈ locationLeaves place, leaf.1 ∈ fieldTags := by simp [locationLeaves, fieldTags]
  have depth : (embed freshLocation).path.length < nestingLimit := by
    show (tag :: p.path).length < nestingLimit
    rw [root.inside]
    show 2 < nestingLimit
    decide
  have body := reads_steps crates embed (locationStep p.header.incremental) (by simp [locationLeaves]) fields
    (fun part _ text field => endElement_location field text rfl listed) (location_steps p.header.incremental place)
    ⟨root.tree, root.text, root.encoded⟩
  rw [writeLocation_eq]
  exact .element (s := { p with curLocation := some place, curLocationTag := some tag }) root.toReady
    ⟨known, fun same => absurd same notDeleted, fun same => absurd same notPolicy⟩ started
    (body.congr (and_iff_right depth)) (fun _ => root.fits) ⟨root.tree, root.text, root.encoded⟩ root.parent
    (endElement_closeLocation root listed fresh place)

theorem setHeaderField_headerFields {h k : HeaderState} {name text trimmed : String}
    (ran : setHeaderField crates h name text trimmed = .ok k) : k.headerFields = h.headerFields := by
  unfold setHeaderField at ran
  repeat' split at ran
  all_goals first
    | cases ran; rfl
    | obtain ⟨_, -, ran⟩ := bind_ok.mp ran
      cases ran; rfl

theorem noteName_headerFields (h : HeaderState) (tag : String) :
    (noteName h tag).headerFields = if h.incremental then insert tag h.headerFields else h.headerFields := by
  unfold noteName
  split <;> rfl

theorem readItem_headerFields {h : HeaderState} {incremental : Bool} {item : HeaderItem}
    (readable : Readable crates incremental item) :
    (readItem crates h item).headerFields = if h.incremental then insert item.tag h.headerFields else h.headerFields := by
  rw [← noteName_headerFields]
  cases item with
  | text tag content =>
    obtain ⟨after, set⟩ := readable.2.2.2.2 (noteName h tag)
    rw [readItem, HeaderItem.tag, setItem, set]
    exact setHeaderField_headerFields set
  | location tag place =>
    rw [readItem, setItem, setLocation]
    repeat' split
    all_goals rfl

def HeaderItem.Lettered : HeaderItem → Prop
  | .text _ _ => True
  | .location _ place => place.partition.isAlpha = true

theorem readItems_incremental (crates : Crates) (h : HeaderState) (items : List HeaderItem) :
    (items.foldl (readItem crates) h).incremental = h.incremental := by
  induction items generalizing h with
  | nil => rfl
  | cons item later ih => exact (ih _).trans (readItem_incremental crates h item)

theorem mem_readItems_headerFields {h : HeaderState} {incremental : Bool} {items : List HeaderItem} {tag : String}
    (readable : ∀ item ∈ items, Readable crates incremental item) :
    tag ∈ (items.foldl (readItem crates) h).headerFields ↔
      tag ∈ h.headerFields ∨ h.incremental = true ∧ tag ∈ items.map (·.tag) := by
  induction items generalizing h with
  | nil => simp
  | cons item later ih =>
    rw [foldl_cons, ih fun other member => readable other (mem_cons_of_mem _ member),
      readItem_headerFields (readable item (by simp)), readItem_incremental]
    cases h.incremental
    · simp
    · simp [or_assoc, or_left_comm]

theorem reads_items {items : List HeaderItem} (root : p.AtRoot)
    (readable : ∀ item ∈ items, Readable crates p.header.incremental item) (distinct : (items.map (·.tag)).Nodup)
    (fresh : ∀ item ∈ items, item.tag ∉ p.header.headerFields) :
    Reads crates p (items.flatMap HeaderItem.events) (∀ item ∈ items, item.Lettered)
      { p with header := items.foldl (readItem crates) p.header } := by
  refine Reads.each (fun items => { p with header := items.foldl (readItem crates) p.header }) ?_
  intro before item after split
  have here := readable item (by simp [split])
  have kind := readItems_incremental crates p.header before
  have rootHere : AtRoot { p with header := before.foldl (readItem crates) p.header } := by
    refine ⟨⟨⟨root.tree, root.text, root.encoded⟩, root.noExtent, root.noXattr, root.noFile⟩, ?_, root.noLocation,
      root.noLocationTag⟩
    show p.path = [rootName (before.foldl (readItem crates) p.header).incremental]
    rw [kind, root.inside]
  have freshHere : item.tag ∉ (before.foldl (readItem crates) p.header).headerFields := by
    rw [mem_readItems_headerFields fun other member => readable other (by simp [split, member])]
    rintro (old | ⟨-, seen⟩)
    · exact fresh item (by simp [split]) old
    · rw [split, map_append, map_cons] at distinct
      exact (nodup_middle.mp distinct).notMem (mem_append_left _ seen)
  rw [← kind] at here
  rw [foldl_append]
  cases item with
  | text tag content => exact reads_textItem rootHere here freshHere
  | location tag place => exact reads_locationItem rootHere here freshHere place

def openedHeader (index : LtfsIndex) : HeaderState :=
  { incremental := index.incremental, version := escape index.version }

def storedHeader (crates : Crates) (index : LtfsIndex) : HeaderState :=
  (headerItems crates index).foldl (readItem crates) (openedHeader index)

def forgetNames (h : HeaderState) : HeaderState := { h with headerFields := ∅ }

theorem setHeaderField_forget (crates : Crates) (h : HeaderState) (tag text trimmed : String) :
    setHeaderField crates (forgetNames h) tag text trimmed = forgetNames <$> setHeaderField crates h tag text trimmed := by
  unfold setHeaderField
  repeat' split
  all_goals first
    | rfl
    | (cases parseIndexU64 tag trimmed <;> rfl)

theorem setItem_forget (crates : Crates) (h : HeaderState) (item : HeaderItem) :
    forgetNames (setItem crates h item) = setItem crates (forgetNames h) item := by
  cases item with
  | text tag content =>
    rw [setItem, setItem, setHeaderField_forget]
    cases setHeaderField crates h tag content (trim content) <;> rfl
  | location tag place =>
    rw [setItem, setItem, setLocation, setLocation]
    split
    · rfl
    · split <;> rfl

theorem eq_of_forgetNames {h k : HeaderState} (same : forgetNames h = k) :
    h = { k with headerFields := h.headerFields } := by
  subst same
  rfl

theorem noteName_forget (h : HeaderState) (tag : String) : forgetNames (noteName h tag) = forgetNames h := by
  unfold noteName
  split <;> rfl

theorem readItems_forget (crates : Crates) (items : List HeaderItem) (h : HeaderState) :
    forgetNames (items.foldl (readItem crates) h) = items.foldl (setItem crates) (forgetNames h) := by
  induction items generalizing h with
  | nil => rfl
  | cons item later ih =>
    rw [foldl_cons, foldl_cons, ih, readItem, setItem_forget, noteName_forget]

theorem storedHeader_eq (crates : Crates) (index : LtfsIndex) :
    forgetNames (storedHeader crates index) =
      { incremental := index.incremental
        version := escape index.version
        creator := trim index.creator
        comment := index.comment
        volumeUuid := crates.uuidParse (trim (crates.uuidToString index.volumeUuid))
        generation := index.generation
        updateTime := trim index.updateTime
        selfLocation := some index.selfLocation
        previousLocation := index.previousLocation
        previousIncrementalLocation := index.previousIncrementalLocation
        allowPolicyUpdate := if index.incremental then true else index.allowPolicyUpdate
        highestFileUid := index.highestFileUid
        volumeLockState := index.volumeLockState.map trim } := by
  have creator : ∀ h text, setItem crates h (.text "creator" text) = { h with creator := trim text } :=
    fun _ _ => rfl
  have comment : ∀ (h : HeaderState) (value : Option String),
      (value.toList.map (.text "comment")).foldl (setItem crates) h = { h with comment := value.or h.comment } := by
    intro h value
    cases value <;> rfl
  have uuid : ∀ h text, setItem crates h (.text "volumeuuid" text) =
      { h with volumeUuid := crates.uuidParse (trim text) } := fun _ _ => rfl
  have generation : ∀ h value, setItem crates h (.text "generationnumber" (decimal value)) =
      { h with generation := value } := by
    intro h value
    simp only [setItem, setHeaderField, String.reduceEq, if_false, if_true, parse_number, ok_bind]
  have update : ∀ h text, setItem crates h (.text "updatetime" text) = { h with updateTime := trim text } :=
    fun _ _ => rfl
  have self : ∀ h place, setItem crates h (.location "location" place) = { h with selfLocation := some place } :=
    fun _ _ => rfl
  have previous : ∀ (h : HeaderState) (value : Option IndexLocation),
      (value.toList.map (.location "previousgenerationlocation")).foldl (setItem crates) h =
        { h with previousLocation := value.or h.previousLocation } := by
    intro h value
    cases value <;> rfl
  have increment : ∀ (h : HeaderState) (value : Option IndexLocation),
      (value.toList.map (.location "previousincrementallocation")).foldl (setItem crates) h =
        { h with previousIncrementalLocation := value.or h.previousIncrementalLocation } := by
    intro h value
    cases value <;> rfl
  have policy : ∀ (h : HeaderState) (value : Bool),
      (if index.incremental then [] else [.text "allowpolicyupdate" (boolText value)]).foldl (setItem crates) h =
        { h with allowPolicyUpdate := if index.incremental then h.allowPolicyUpdate else value } := by
    intro h value
    have flag : (boolText value = "true" || boolText value = "1" || boolText value = "yes") = value := by
      cases value <;> decide
    cases index.incremental with
    | true => rfl
    | false => simp only [Bool.false_eq_true, if_false, foldl_cons, foldl_nil, setItem, setHeaderField,
        String.reduceEq, if_true, trim_boolText, flag]
  have lock : ∀ (h : HeaderState) (value : Option String),
      (value.toList.map (.text "volumelockstate")).foldl (setItem crates) h =
        { h with volumeLockState := (value.map trim).or h.volumeLockState } := by
    intro h value
    cases value <;> rfl
  have highest : ∀ h value, setItem crates h (.text "highestfileuid" (decimal value)) =
      { h with highestFileUid := value } := by
    intro h value
    simp only [setItem, setHeaderField, String.reduceEq, if_false, if_true, parse_number, ok_bind]
  rw [storedHeader, readItems_forget, headerItems]
  simp only [foldl_append, foldl_cons, foldl_nil, creator, comment, uuid, generation, update, self,
    previous, increment, policy, lock, highest, openedHeader, forgetNames, Option.or_none]

end Header

section Document

variable {crates : Crates} {p q : IndexParser}

def openedRoot (index : LtfsIndex) : IndexParser :=
  { ScanMode.tree.initial with header := openedHeader index, path := [rootName index.incremental] }

def readState (crates : Crates) (index : LtfsIndex) : IndexParser :=
  { ScanMode.tree.initial with
    header := noteName (storedHeader crates index) "directory"
    dirStack := [storedDir index.incremental index.root] }

theorem openedRoot_atRoot (index : LtfsIndex) : (openedRoot index).AtRoot :=
  ⟨⟨⟨rfl, rfl, rfl⟩, rfl, rfl, rfl⟩, rfl, rfl, rfl⟩

theorem run_document (crates : Crates) (index : LtfsIndex) :
    tree.initial.runEvents crates (visible (layout 0 false (document crates index))) = .ok q ↔
      (openedRoot index).feed crates 2 ((headerItems crates index).flatMap HeaderItem.events ++
        (writeDirectory index.root index.incremental ++ [.close (rootName index.incremental)])) = .ok q := by
  have allowed : tree.initial.Allowed (rootName index.incremental) := by
    cases index.incremental <;> decide
  have ready : tree.initial.Ready := ⟨rfl, rfl, rfl⟩
  have started : (tree.initial.markEncoded (rootName index.incremental)
      [("version", escape index.version)]).startElement (rootName index.incremental)
        [("version", escape index.version)] =
      .ok { tree.initial with header := openedHeader index } := by
    unfold openedHeader
    cases index.incremental <;> rfl
  have first : tree.initial.runEvents crates (visible (layout 0 false (document crates index))) =
      tree.initial.feed crates 0 (.start (rootName index.incremental) [("version", escape index.version)] ::
        (writeHeader crates index ++ writeDirectory index.root index.incremental ++
          [.close (rootName index.incremental)])) := rfl
  rw [first, feed_opened crates ready allowed started, writeHeader_eq, append_assoc]
  have fits : tree.initial.path.length < nestingLimit := by decide
  simp only [fits, true_and]
  rfl

theorem endElement_rootDirectory (root : p.AtRoot) (fresh : "directory" ∉ p.header.headerFields)
    (empty : p.dirStack = []) (dir : DirectoryNode) (text : String) :
    endElement crates { p with dirStack := dir :: p.dirStack } "directory" (rootName p.header.incremental) text =
      .ok { p with dirStack := [dir], header := noteName p.header "directory" } := by
  have outside : rootName p.header.incremental ≠ "xattr" := by
    rcases rootName_cases p.header.incremental with same | same <;> rw [same] <;> decide
  refine (endElement_structural (by decide) (checkElement_root (p := { p with dirStack := dir :: p.dirStack }) fresh
    (by decide) _)).trans ?_
  simp [closeDirectory, attachDirectory, empty, root.tree, outside, locationTags]

theorem endElement_root (p : IndexParser) (incremental : Bool) (text : String) :
    endElement crates p (rootName incremental) "" text = .ok p := by
  cases incremental <;> exact endElement_structural (by decide) (checkElement_plain (by decide) (by decide) _)

def headerOrder : List String :=
  ["creator", "comment", "volumeuuid", "generationnumber", "updatetime", "location", "previousgenerationlocation",
    "previousincrementallocation", "allowpolicyupdate", "volumelockstate", "highestfileuid"]

theorem headerItems_tags (crates : Crates) (index : LtfsIndex) :
    ((headerItems crates index).map (·.tag)).Sublist headerOrder := by
  have single : ∀ {α : Type} (value : Option α) (make : α → HeaderItem) (tag : String),
      (∀ content, (make content).tag = tag) → ((value.toList.map make).map (·.tag)).Sublist [tag] := by
    intro α value make tag tagged
    cases value with
    | none => simp
    | some content => simp [tagged]
  have policy : ((if index.incremental then [] else
      [HeaderItem.text "allowpolicyupdate" (boolText index.allowPolicyUpdate)]).map (·.tag)).Sublist
        ["allowpolicyupdate"] := by
    cases index.incremental
    · exact .refl _
    · exact nil_sublist _
  rw [headerItems]
  simp only [map_append]
  have order : headerOrder = ["creator"] ++ ["comment"] ++ ["volumeuuid", "generationnumber", "updatetime", "location"] ++
      ["previousgenerationlocation"] ++ ["previousincrementallocation"] ++ ["allowpolicyupdate"] ++
      ["volumelockstate"] ++ ["highestfileuid"] := rfl
  rw [order]
  have comment := single index.comment (.text "comment") "comment" fun _ => rfl
  have previous := single index.previousLocation (.location "previousgenerationlocation") _ fun _ => rfl
  have increment := single index.previousIncrementalLocation (.location "previousincrementallocation") _ fun _ => rfl
  have lock := single index.volumeLockState (.text "volumelockstate") _ fun _ => rfl
  exact (((((((List.Sublist.refl ["creator"]).append comment).append (.refl _)).append previous).append
    increment).append policy).append lock).append (.refl _)

theorem headerItems_readable (crates : Crates) (index : LtfsIndex) :
    ∀ item ∈ headerItems crates index, Readable crates index.incremental item := by
  have text : ∀ tag ∈ ["creator", "comment", "volumeuuid", "updatetime", "volumelockstate"], ∀ content,
      Readable crates index.incremental (.text tag content) := by
    intro tag member content
    have facts : ∀ tag ∈ ["creator", "comment", "volumeuuid", "updatetime", "volumelockstate"],
        tag ∈ plainTags ∧ tag ≠ "deleted" ∧ tag ≠ "allowpolicyupdate" ∧
          tag ∉ ["readonly", "openforwrite", "partition", "deleted"] ++ numericTags := by decide
    obtain ⟨plain, notDeleted, notPolicy, other⟩ := facts tag member
    refine ⟨plain, notDeleted, fun same => absurd same notPolicy, fine_text other _, fun h => ?_⟩
    simp only [mem_cons, not_mem_nil, or_false] at member
    rcases member with rfl | rfl | rfl | rfl | rfl <;> exact ⟨_, rfl⟩
  have number : ∀ tag ∈ ["generationnumber", "highestfileuid"], ∀ value,
      Readable crates index.incremental (.text tag (decimal value)) := by
    intro tag member value
    have facts : ∀ tag ∈ ["generationnumber", "highestfileuid"], tag ∈ plainTags ∧ tag ≠ "deleted" ∧
        tag ≠ "allowpolicyupdate" ∧ tag ∉ ["readonly", "openforwrite", "partition", "deleted"] := by decide
    obtain ⟨plain, notDeleted, notPolicy, other⟩ := facts tag member
    refine ⟨plain, notDeleted, fun same => absurd same notPolicy, fine_number other _, fun h => ?_⟩
    simp only [mem_cons, not_mem_nil, or_false] at member
    rcases member with rfl | rfl
    all_goals
      simp only [setHeaderField, String.reduceEq, if_false, if_true, parse_number, ok_bind]
      exact ⟨_, rfl⟩
  have policy : index.incremental = false → ∀ value : Bool,
      Readable crates index.incremental (.text "allowpolicyupdate" (boolText value)) := by
    intro full value
    exact ⟨by decide, by decide, fun _ => full, fine_text (by decide) _, fun h => ⟨_, rfl⟩⟩
  intro item member
  simp only [headerItems, mem_append, mem_cons, not_mem_nil, or_false, mem_map] at member
  rcases member with ((((((rfl | ⟨_, _, rfl⟩) | rfl | rfl | rfl | rfl) | ⟨_, _, rfl⟩) | ⟨_, _, rfl⟩) | member) |
    ⟨_, _, rfl⟩) | rfl
  · exact text _ (by decide) _
  · exact text _ (by decide) _
  · exact text _ (by decide) _
  · exact number _ (by decide) _
  · exact text _ (by decide) _
  · show "location" ∈ locationTags
    decide
  · show "previousgenerationlocation" ∈ locationTags
    decide
  · show "previousincrementallocation" ∈ locationTags
    decide
  · split at member
    · cases member
    · rename_i full
      rw [mem_singleton.mp member]
      exact policy (by simpa using full) _
  · exact text _ (by decide) _
  · exact number _ (by decide) _

theorem storedHeader_names (crates : Crates) (index : LtfsIndex) (tag : String) :
    tag ∈ (storedHeader crates index).headerFields ↔
      index.incremental = true ∧ tag ∈ (headerItems crates index).map (·.tag) := by
  rw [storedHeader, mem_readItems_headerFields (headerItems_readable crates index)]
  simp [openedHeader]

theorem storedHeader_incremental (crates : Crates) (index : LtfsIndex) :
    (storedHeader crates index).incremental = index.incremental :=
  congrArg HeaderState.incremental (storedHeader_eq crates index)

theorem runEvents_document {index : LtfsIndex} (entries : TreeEntry index.incremental index.root) :
    tree.initial.runEvents crates (visible (layout 0 false (document crates index))) = .ok q ↔
      (∀ item ∈ headerItems crates index, item.Lettered) ∧ dirFits 1 index.root = true ∧
        readState crates index = q := by
  let headed : IndexParser := { openedRoot index with header := storedHeader crates index }
  have distinct : ((headerItems crates index).map (·.tag)).Nodup :=
    List.Nodup.sublist (headerItems_tags crates index) (by decide)
  have kind : headed.header.incremental = index.incremental := storedHeader_incremental crates index
  have rooted : headed.AtRoot := by
    refine ⟨⟨⟨rfl, rfl, rfl⟩, rfl, rfl, rfl⟩, ?_, rfl, rfl⟩
    rw [kind]
    rfl
  have fresh : "directory" ∉ headed.header.headerFields := by
    show "directory" ∉ (storedHeader crates index).headerFields
    rw [storedHeader_names]
    intro named
    have listed := (headerItems_tags crates index).subset named.2
    exact absurd listed (by decide)
  have items := reads_items (openedRoot_atRoot index) (headerItems_readable crates index) distinct
    (by simp [openedRoot, openedHeader])
  have tree := readsBack crates entries headed q
    (fun dir => { headed with dirStack := [dir], header := noteName headed.header "directory" })
    (rootName headed.header.incremental) 2 [.close (rootName index.incremental)] rooted.toSettled kind rooted.parent
    (endElement_rootDirectory rooted fresh rfl)
  have readyClosed : (readState crates index).Ready := ⟨rfl, rfl, rfl⟩
  have closing := feed_end crates (q := q) readyClosed rfl (endElement_root _ index.incremental) 0 []
  have finished : (readState crates index).feed crates 0 [] = .ok q ↔ readState crates index = q := by
    show Except.ok (readState crates index) = .ok q ↔ _
    rw [Except.ok.injEq]
  rw [run_document, items]
  apply and_congr_right
  intro _
  exact tree.trans (and_congr_right fun _ => closing.trans finished)

def storedIndex (index : LtfsIndex) : LtfsIndex :=
  { incremental := index.incremental
    materialized := false
    previousIncrementalLocation := index.previousIncrementalLocation
    comment := index.comment
    version := if (escape index.version).isEmpty then ltfsVersion else escape index.version
    creator := Text.trim index.creator
    volumeUuid := index.volumeUuid
    generation := index.generation
    updateTime := Text.trim index.updateTime
    selfLocation := index.selfLocation
    previousLocation := index.previousLocation
    allowPolicyUpdate := if index.incremental then true else index.allowPolicyUpdate
    highestFileUid := index.highestFileUid
    volumeLockState := index.volumeLockState.map Text.trim
    unknownElements := []
    root := storedDir index.incremental index.root }

theorem missingHeader_none (crates : Crates) (index : LtfsIndex) :
    missingHeader (readState crates index).header = none ↔
      (index.incremental = true → index.previousLocation.isSome = true) := by
  have kind : (readState crates index).header.incremental = index.incremental :=
    (noteName_incremental _ _).trans (storedHeader_incremental crates index)
  have names : ∀ tag, index.incremental = true →
      (tag ∈ (readState crates index).header.headerFields ↔
        tag = "directory" ∨ tag ∈ (headerItems crates index).map (·.tag)) := by
    intro tag incremental
    show tag ∈ (noteName (storedHeader crates index) "directory").headerFields ↔ _
    rw [noteName_headerFields, storedHeader_incremental, if_pos incremental, Finset.mem_insert, storedHeader_names]
    simp [incremental]
  unfold missingHeader
  rw [kind]
  cases incremental : index.incremental with
  | false => simp
  | true =>
    simp only [if_true, find?_eq_none, decide_eq_true_eq, not_not, forall_const]
    constructor
    · intro all
      have required := (names _ incremental).mp (all "previousgenerationlocation" (by decide))
      cases found : index.previousLocation with
      | some place => rfl
      | none =>
        exfalso
        rcases required with same | listed
        · exact absurd same (by decide)
        · simp [headerItems, HeaderItem.tag, found, incremental] at listed
    · intro previous tag required
      rw [names tag incremental]
      obtain ⟨place, found⟩ := Option.isSome_iff_exists.mp previous
      simp only [requiredHeader, mem_cons, not_mem_nil, or_false] at required
      rcases required with rfl | rfl | rfl | rfl | rfl | rfl | rfl | rfl <;>
        simp [headerItems, HeaderItem.tag, found]

theorem finish_readState {index parsed : LtfsIndex} (uuid : crates.UuidText) :
    (readState crates index).finish = .ok parsed ↔
      (index.incremental = true → index.previousLocation.isSome = true) ∧ storedIndex index = parsed := by
  have parsedUuid : crates.uuidParse (trim (crates.uuidToString index.volumeUuid)) = some index.volumeUuid := by
    rw [uuid.trimmed]
    exact uuid.parses _
  have header := eq_of_forgetNames ((noteName_forget (storedHeader crates index) "directory").trans
    (storedHeader_eq crates index))
  rw [parsedUuid] at header
  have named : (readState crates index).header = noteName (storedHeader crates index) "directory" := rfl
  rw [← named] at header
  dsimp only at header
  generalize (readState crates index).header.headerFields = names at header
  have self : (readState crates index).header.selfLocation = some index.selfLocation := by rw [header]
  have volume : (readState crates index).header.volumeUuid = some index.volumeUuid := by rw [header]
  have opened : ¬ (!(readState crates index).path.isEmpty || ((readState crates index).header.incremental &&
      (readState crates index).header.selfLocation.isNone)) = true := by
    have emptied : (readState crates index).path = [] := rfl
    rw [self, emptied]
    simp
  have missing := missingHeader_none crates index
  unfold finish
  rw [if_neg opened]
  cases lacking : missingHeader (readState crates index).header with
  | some key =>
    rw [lacking] at missing
    have lacks : ¬ (index.incremental = true → index.previousLocation.isSome = true) :=
      fun holds => by simpa using missing.mpr holds
    simp [lacks]
  | none =>
    have holds := missing.mp lacking
    simp only [volume, show (readState crates index).dirStack = [storedDir index.incremental index.root] from rfl]
    rw [header]
    simp only [Except.ok.injEq, Option.getD_some]
    exact ⟨fun same => ⟨holds, same⟩, fun both => both.2⟩

theorem parse_document {index parsed : LtfsIndex} (rereads : crates.Rereads (document crates index))
    (uuid : crates.UuidText) (entries : TreeEntry index.incremental index.root) :
    LtfsIndex.parse crates (crates.xmlWrite (document crates index)) = .ok parsed ↔
      (∀ item ∈ headerItems crates index, item.Lettered) ∧ dirFits 1 index.root = true ∧
      (index.incremental = true → index.previousLocation.isSome = true) ∧
      (storedIndex index).validateIncremental = .ok () ∧ storedIndex index = parsed := by
  have scanned := scan_tree crates (p := tree.initial) rfl rfl []
    (crates.xmlRead (crates.xmlWrite (document crates index))).events
  rw [rereads.events] at scanned
  have plain : tree.streaming = false := rfl
  unfold LtfsIndex.parse parseWith
  simp only [scanned, rereads.complete, plain, Bool.false_and, Bool.false_eq_true, if_false]
  simp only [map_ok, bind_ok, Except.ok.injEq]
  constructor
  · rintro ⟨_, ⟨_, ⟨q, ran, rfl⟩, index', finished, _, valid, rfl⟩, rfl⟩
    obtain ⟨letters, fits, rfl⟩ := (runEvents_document entries).mp ran
    obtain ⟨previous, rfl⟩ := (finish_readState uuid).mp finished
    exact ⟨letters, fits, previous, valid, rfl⟩
  · rintro ⟨letters, fits, previous, valid, rfl⟩
    have ran := (runEvents_document entries).mpr ⟨letters, fits, rfl⟩
    have finished := (finish_readState uuid).mpr ⟨previous, rfl⟩
    exact ⟨_, ⟨_, ⟨_, ran, rfl⟩, _, finished, _, valid, rfl⟩, rfl⟩

end Document

end TapeRs.Ltfs.IndexParser

import TapeRs.Ltfs.StreamParser

namespace TapeRs.Ltfs

open Xml IndexParser ScanMode DirectoryNode Outline Result MetadataBudget Limits List

def held : List DirectoryNode → List IndexEntry
  | [] => []
  | dir :: outer => dir.entriesBelow (stackNames (dir :: outer)) ++ held outer

def handedOut (ended : Bool) (stack : List DirectoryNode) : List IndexEntry :=
  held stack ++ if ended then stack.map (·.rootEntry) else []

def Blind {β : Type} (view : IndexEntry → β) : Prop :=
  ∀ a b : IndexEntry, a.content = b.content → view a = view b

section Held

variable {β : Type} {view : IndexEntry → β} {dir : DirectoryNode} {outer : List DirectoryNode}

theorem entriesBelow_childless {dirs : List String} (childless : dir.Childless) : dir.entriesBelow dirs = [] := by
  rw [entriesBelow_eq, childless.1, childless.2]
  rfl

theorem held_childless (childless : dir.Childless) : held (dir :: outer) = held outer := by
  rw [held, entriesBelow_childless childless, nil_append]

theorem held_file (file : FileNode) : (held ({ dir with files := dir.files ++ [file] } :: outer)).Perm
    (.file (nodePath (stackNames (dir :: outer)) file.name) file :: held (dir :: outer)) := by
  have names : stackNames ({ dir with files := dir.files ++ [file] } :: outer) = stackNames (dir :: outer) := by
    cases outer with
    | nil => rfl
    | cons parent rest => rw [stackNames_cons, stackNames_cons]
  rw [held, held, names, entriesBelow_eq, entriesBelow_eq, map_append, append_assoc,
    append_assoc, append_assoc]
  exact perm_middle

theorem held_directory (done : DirectoryNode) :
    (held ({ dir with subdirs := dir.subdirs ++ [done] } :: outer)).Perm
      (.directory (nodePath (stackNames (dir :: outer)) done.name) done.bare :: held (done :: dir :: outer)) := by
  have names : stackNames ({ dir with subdirs := dir.subdirs ++ [done] } :: outer) = stackNames (dir :: outer) := by
    cases outer with
    | nil => rfl
    | cons parent rest => rw [stackNames_cons, stackNames_cons]
  rw [held, held, held, names, stackNames_cons, entriesBelow_eq (stackNames (dir :: outer)),
    entriesBelow_eq (stackNames (dir :: outer)), flatMap_append, flatMap_singleton, ← append_assoc]
  refine (perm_append_comm.append_right (held outer)).trans (.of_eq ?_)
  rw [entries, append_assoc]
  rfl

theorem entriesBelow_blind (blind : Blind view) (dirs others : List String) :
    (dir.entriesBelow dirs).map view = (dir.entriesBelow others).map view := by
  induction dir using inductionOn generalizing dirs others with
  | node dir ih =>
    have below : (dir.subdirs.flatMap (entries dirs)).map view =
        (dir.subdirs.flatMap (entries others)).map view := by
      rw [map_flatMap, map_flatMap]
      refine flatMap_congr fun child member => ?_
      rw [entries, entries, map_cons, map_cons, ih child member _ (others ++ [child.name])]
      exact congrArg (· :: _) (blind _ _ rfl)
    rw [entriesBelow_eq, entriesBelow_eq, map_append, map_append, below, map_map,
      map_map]
    refine congrArg (· ++ _) (map_congr_left fun file _ => ?_)
    exact blind _ _ rfl

end Held

/-- Where the reading as a tree stands, by the structure of the document. -/
structure Tracks (outline : Outline) (p : IndexParser) : Prop where
  tree : p.stream.streaming = false
  full : p.header.incremental = false
  known : p.unknownElements = []
  path : outline.path = p.path
  encoded : ∀ depth ∈ p.percentEncoded, ∃ tag ∈ encodedTags, p.path.reverse[depth]? = some tag
  files : p.fileStack.length = p.path.count "file"
  filled : List.Forall₂ (fun full dir => full = false → DirectoryNode.Childless dir) outline.filled p.dirStack
  dirs : p.dirStack.length = p.path.count "directory" + outline.ended.toNat
  single : outline.ended = true → "directory" ∉ p.path
  apart : p.path.IsChain fun inner outer => inner = "file" ∨ inner = "directory" → outer ≠ "xattr"

/-- A streaming scan that has handed out all but `entry`. -/
structure Live (stream : StreamState) (ended : Bool) (entry : Option IndexEntry) : Prop where
  streaming : stream.streaming = true
  mode : stream.incrementalStream = some false
  seen : stream.rootSeen = ended
  pending : stream.pendingEntry = entry

theorem Live.charged {stream : StreamState} {ended : Bool} {entry : Option IndexEntry} (live : Live stream ended entry)
    (p : IndexParser) (text : String) {charge : MetadataBudget → Result MetadataBudget}
    (bounded : MetadataBudget.Bounded charge) : (p.streamed stream text).whenStreaming charge = .error exceeded ∨
      ∃ later, (p.streamed stream text).whenStreaming charge = .ok (p.streamed later text) ∧ Live later ended entry := by
  rcases whenStreaming_streamed p text live.streaming bounded with failed | ⟨resources, charged⟩
  · exact .inl failed
  · exact .inr ⟨{ stream with resources }, charged, live.streaming, live.mode, live.seen, live.pending⟩

section Opening

variable {outline : Outline} {p q : IndexParser} {tag : String} {attributes : Attributes}

theorem markEncoded_encoded {depth : Nat} (member : depth ∈ (p.markEncoded tag attributes).percentEncoded) :
    depth ∈ p.percentEncoded ∨ depth = p.path.length ∧ tag ∈ encodedTags := by
  unfold markEncoded at member
  split at member
  · rename_i marked
    rcases Finset.mem_insert.mp member with same | old
    · exact .inr ⟨same, by simpa using (Bool.and_eq_true_iff.mp marked).1⟩
    · exact .inl old
  · exact .inl member

theorem markEncoded_same (p : IndexParser) (tag : String) (attributes : Attributes) :
    ∃ percentEncoded, p.markEncoded tag attributes = { p with percentEncoded } := by
  unfold markEncoded
  split
  · exact ⟨_, rfl⟩
  · exact ⟨p.percentEncoded, rfl⟩

theorem noteUnknown_known (familiar : tag ∈ knownElements) : p.noteUnknown tag = .ok p := by
  unfold noteUnknown
  rw [if_neg]
  exact fun strange => strange.1 familiar

theorem onStart_ok (tracks : Tracks outline p) (familiar : tag ∈ knownElements)
    (ran : p.onStart tag attributes 0 = .ok q) : p.path.length < nestingLimit ∧ tag ≠ "deleted" ∧ ∃ r,
      (markEncoded { p with text := "" } tag attributes).startElement tag attributes = .ok r ∧
      q = { r with path := tag :: r.path } := by
  unfold onStart at ran
  rw [whenStreaming_tree tracks.tree, ok_bind] at ran
  split at ran
  · cases ran
  rename_i shallow
  obtain ⟨percentEncoded, marked⟩ := markEncoded_same { p with text := "" } tag attributes
  rw [noteUnknown_known familiar, ok_bind] at ran
  split at ran
  · cases ran
  rename_i kept
  split at ran
  · cases ran
  obtain ⟨r, started, ran⟩ := bind_ok.mp ran
  cases ran
  refine ⟨Nat.lt_of_not_le shallow, fun deleted => ?_, r, started, rfl⟩
  rw [marked] at kept
  simp [deleted, tracks.full] at kept

/-- What an opening tag of a document without unknown elements does. -/
structure Opened (tag : String) (p q : IndexParser) : Prop where
  stream : q.stream = p.stream
  text : q.text = ""
  full : tag ≠ "ltfsincrementalindex" → q.header.incremental = false
  path : q.path = tag :: p.path
  encoded : ∀ depth ∈ q.percentEncoded, depth ∈ p.percentEncoded ∨ depth = p.path.length ∧ tag ∈ encodedTags
  files : q.fileStack.length = p.fileStack.length + if tag = "file" then 1 else 0
  dirs : q.dirStack = if tag = "directory" then {} :: p.dirStack else p.dirStack
  unknown : q.unknownElements = p.unknownElements

theorem onStart_opened (tracks : Tracks outline p) (familiar : tag ∈ knownElements)
    (ran : p.onStart tag attributes 0 = .ok q) : Opened tag p q := by
  have alike := onStart_alike tracks.tree ran
  obtain ⟨-, -, r, started, rfl⟩ := onStart_ok tracks familiar ran
  have starts := startElement_starts started
  have encoded := @markEncoded_encoded { p with text := "" } tag attributes
  obtain ⟨percentEncoded, marked⟩ := markEncoded_same { p with text := "" } tag attributes
  rw [marked] at starts encoded
  have fields : emptyFields { p with text := "", percentEncoded } = none := by
    unfold emptyFields
    rw [if_neg]
    simp [tracks.full]
  have dirs := starts.dirs
  rw [fields] at dirs
  exact ⟨alike.1, alike.2, fun plain => starts.full plain tracks.full, congrArg (tag :: ·) starts.path,
    fun depth member => encoded (starts.encoded ▸ member), starts.files, dirs, starts.unknown⟩

theorem tracks_opens (tracks : Tracks outline p) (single : outline.SingleRoot (.opens tag))
    (placed : outline.Placed (.opens tag)) (opened : Opened tag p q) :
    Tracks (outline.step (.opens tag)) q := by
  refine ⟨opened.stream ▸ tracks.tree, opened.full placed.1, opened.unknown.trans tracks.known, ?_, ?_, ?_, ?_, ?_, ?_, ?_⟩
  · rw [opened.path, ← tracks.path]
    rfl
  · intro depth member
    rw [opened.path, reverse_cons]
    rcases opened.encoded depth member with old | ⟨rfl, encodes⟩
    · obtain ⟨other, encodes, found⟩ := tracks.encoded depth old
      exact ⟨other, encodes, List.getElem?_append_left (List.getElem?_eq_some_iff.mp found).1 ▸ found⟩
    · exact ⟨tag, encodes, by simp⟩
  · rw [opened.files, opened.path, count_cons, tracks.files]
    simp
  · show List.Forall₂ _ (if tag = "directory" then false :: outline.filled else outline.filled) q.dirStack
    rw [opened.dirs]
    split
    · exact .cons (fun _ => ⟨rfl, rfl⟩) tracks.filled
    · exact tracks.filled
  · have count := tracks.dirs
    rw [opened.dirs, opened.path, count_cons]
    show _ = _ + outline.ended.toNat
    by_cases directory : tag = "directory"
    · simp [directory]
      omega
    · simp [directory]
      omega
  · intro ended
    rw [opened.path, mem_cons, not_or]
    refine ⟨fun same => ?_, tracks.single ended⟩
    exact Bool.false_ne_true ((single same.symm).symm.trans ended)
  · rw [opened.path]
    have apart := tracks.apart
    have outside := placed.2
    rw [tracks.path] at outside
    generalize p.path = path at apart outside ⊢
    cases path with
    | nil => exact .singleton _
    | cons outer rest => exact .cons_cons (fun node same => outside node (congrArg some same)) apart

theorem handedOut_opens (single : outline.SingleRoot (.opens tag)) (opened : Opened tag p q) :
    handedOut (outline.step (.opens tag)).ended q.dirStack = handedOut outline.ended p.dirStack := by
  show handedOut outline.ended q.dirStack = _
  rw [opened.dirs]
  split
  · rename_i directory
    rw [single directory, handedOut, handedOut, held_childless ⟨rfl, rfl⟩]
    rfl
  · rfl

theorem onStart_streamed {stream : StreamState} {text : String} (tracks : Tracks outline p)
    (live : Live stream outline.ended none) (single : outline.SingleRoot (.opens tag))
    (placed : outline.Placed (.opens tag)) (familiar : tag ∈ knownElements) (ran : p.onStart tag attributes 0 = .ok q)
    (size : Nat) : (p.streamed stream text).onStart tag attributes size = .error exceeded ∨
      ∃ later, (p.streamed stream text).onStart tag attributes size = .ok (q.streamed later q.text) ∧
        Live later outline.ended none := by
  have text' := (onStart_alike tracks.tree ran).2
  obtain ⟨shallow, kept, r, started, rfl⟩ := onStart_ok tracks familiar ran
  unfold onStart
  rcases live.charged p text (start_bounded (tag = "directory" || tag = "file") size) with
    failed | ⟨later, charged, still⟩
  · rw [failed]
    exact .inl rfl
  · refine .inr ⟨later, ?_, still⟩
    have cleared : { p.streamed later text with text := "" } = streamed { p with text := "" } later "" := rfl
    have within : ¬ nestingLimit ≤ (p.streamed later text).path.length := Nat.not_le_of_lt shallow
    rw [charged, ok_bind, if_neg within, cleared, markEncoded_streamed, noteUnknown_known familiar,
      ok_bind]
    have plain : ∃ m, markEncoded { p with text := "" } tag attributes = m ∧ m.stream.streaming = false ∧
        m.header.incremental = false := by
      obtain ⟨percentEncoded, marked⟩ := markEncoded_same { p with text := "" } tag attributes
      exact ⟨_, marked, tracks.tree, tracks.full⟩
    obtain ⟨m, marked, tree, full⟩ := plain
    rw [marked] at started ⊢
    rw [if_neg (by simp [kept]), if_neg (by simp [streamed, full]),
      startElement_streamed tree still.mode placed.1 fun directory => still.seen.trans (single directory), started]
    exact congrArg (fun text => Except.ok (streamed { r with path := tag :: r.path } later text)) text'.symm

end Opening

namespace IndexParser

def popped (p : IndexParser) : IndexParser :=
  { p with path := p.path.tail, text := "", percentEncoded := p.percentEncoded.erase p.path.tail.length }

end IndexParser

section Closing

variable {crates : Crates} {outline : Outline} {p q : IndexParser} {β : Type} {view : IndexEntry → β}
  {path : List String} {tag content : String}

theorem onEnd_tree (tree : p.stream.streaming = false) : p.onEnd crates =
    (p.takeText p.path.tail.length >>= endElement crates p.popped (p.path.headD "") (p.path.tail.headD "")) := by
  unfold onEnd
  dsimp only
  rw [whenStreaming_tree tree, ok_bind]
  rfl

/-- Between tags of a container a streaming scan may have skipped white space. -/
def Collected (p : IndexParser) (text : String) : Prop :=
  text = p.text ∨ ∀ tag, p.path.head? = some tag → tag ∈ containerTags

theorem apart_tail {R : String → String → Prop} (apart : path.IsChain R) : path.tail.IsChain R := by
  cases apart with
  | nil | singleton => exact .nil
  | cons_cons _ rest => exact rest

theorem count_tail (other : path.head? ≠ some tag) : path.tail.count tag = path.count tag := by
  cases path with
  | nil => rfl
  | cons head tail =>
    have different : head ≠ tag := fun same => other (congrArg some same)
    rw [tail_cons, count_cons_of_ne different]

theorem count_head (head : path.head? = some tag) : path.count tag = path.tail.count tag + 1 := by
  cases path with
  | nil => cases head
  | cons first rest =>
    cases head
    rw [tail_cons, count_cons_self]

theorem headD_ne (other : path.head? ≠ some tag) (named : tag ≠ "") : path.headD "" ≠ tag := by
  cases path with
  | nil => exact named.symm
  | cons head tail => exact fun same => other (congrArg some same)

theorem head_of_headD (first : path.headD "" = tag) (named : tag ≠ "") : path.head? = some tag := by
  cases path with
  | nil => exact absurd first.symm named
  | cons head tail => exact congrArg some first

theorem retouched_filled {name parent : String} {filled : List Bool} {stack : List DirectoryNode}
    (retouched : Retouched name parent p stack)
    (before : List.Forall₂ (fun full dir => full = false → DirectoryNode.Childless dir) filled p.dirStack) :
    List.Forall₂ (fun full dir => full = false → DirectoryNode.Childless dir) filled stack := by
  cases retouched with
  | same => exact before
  | tagged xattrs top =>
    rw [top] at before
    cases before with
    | cons here rest => exact .cons here rest
  | field after top inside files subdirs =>
    rw [top] at before
    cases before with
    | cons here rest =>
      refine .cons (fun empty => ?_) rest
      exact ⟨files.trans (here empty).1, subdirs.trans (here empty).2⟩

theorem held_top {dir after : DirectoryNode} {outer : List DirectoryNode} (files : after.files = dir.files)
    (subdirs : after.subdirs = dir.subdirs) (kept : Blind view ∨ dir.Childless ∨ outer = [] ∨ after.name = dir.name) :
    (held (after :: outer)).map view = (held (dir :: outer)).map view := by
  have below : ∀ dirs, after.entriesBelow dirs = dir.entriesBelow dirs := by
    intro dirs
    rw [entriesBelow_eq, entriesBelow_eq, files, subdirs]
  rw [held, held, below, map_append, map_append]
  refine congrArg (· ++ _) ?_
  rcases kept with blind | childless | rfl | named
  · exact entriesBelow_blind blind _ _
  · rw [entriesBelow_childless childless, entriesBelow_childless childless]
  · rfl
  · cases outer with
    | nil => rfl
    | cons parent rest => rw [stackNames_cons, stackNames_cons, named]

theorem headD_eq (head : path.head? = some tag) : path.headD "" = tag := by
  rw [headD_eq_head?_getD, head]
  rfl

variable (tracks : Tracks outline p)
include tracks

theorem encoded_popped :
    ∀ depth ∈ p.popped.percentEncoded, ∃ tag ∈ encodedTags, p.path.tail.reverse[depth]? = some tag := by
  intro depth member
  obtain ⟨other, old⟩ := Finset.mem_erase.mp member
  obtain ⟨tag, encodes, found⟩ := tracks.encoded depth old
  refine ⟨tag, encodes, ?_⟩
  cases split : p.path with
  | nil => simp [split] at found
  | cons head tail =>
    rw [split, reverse_cons] at found
    have bound := (List.getElem?_eq_some_iff.mp found).1
    rw [split] at other
    rw [getElem?_append_left] at found
    · exact found
    · simp only [length_append, length_reverse, length_singleton, tail_cons] at bound other ⊢
      omega

theorem not_encoded (container : ∀ tag, p.path.head? = some tag → tag ∈ containerTags) :
    p.path.tail.length ∉ p.percentEncoded := by
  intro member
  obtain ⟨tag, encodes, found⟩ := tracks.encoded _ member
  cases split : p.path with
  | nil => simp [split] at found
  | cons head tail =>
    have same : head = tag := by simpa [split] using found
    have apart : ∀ tag ∈ encodedTags, tag ∉ containerTags := by decide
    exact apart tag encodes (container tag (by rw [split, same]; rfl))

theorem onEnd_streamed {stream : StreamState} {text : String}
    (live : Live stream outline.ended none) (collected : Collected p text) (ran : p.onEnd crates = .ok q) :
    (p.streamed stream text).onEnd crates = .error exceeded ∨ ∃ later content, Live later outline.ended none ∧
      endElement crates p.popped (p.path.headD "") (p.path.tail.headD "") content = .ok q ∧
      (p.streamed stream text).onEnd crates =
        endElement crates (p.popped.streamed later "") (p.path.headD "") (p.path.tail.headD "") content := by
  rw [onEnd_tree tracks.tree] at ran
  obtain ⟨content, taken, ran⟩ := bind_ok.mp ran
  rcases live.charged p text (endNode_bounded (p.path.headD "" = "file" || p.path.headD "" = "directory"))
    with failed | ⟨later, charged, still⟩
  · left
    unfold onEnd
    have same : (p.streamed stream text).path = p.path := rfl
    rw [same]
    dsimp only
    rw [failed]
    rfl
  · right
    refine ⟨later, content, still, ran, ?_⟩
    have unfolded : (p.streamed stream text).onEnd crates = ((p.streamed later text).takeText p.path.tail.length >>=
        endElement crates (p.popped.streamed later "") (p.path.headD "") (p.path.tail.headD "")) := by
      unfold onEnd
      have same : (p.streamed stream text).path = p.path := rfl
      rw [same]
      dsimp only
      rw [charged]
      rfl
    rw [unfolded]
    rcases collected with rfl | container
    · have same : (p.streamed later p.text).takeText p.path.tail.length = p.takeText p.path.tail.length := rfl
      rw [same, taken]
      rfl
    have free := not_encoded tracks container
    have bare : (p.streamed later text).takeText p.path.tail.length = .ok text := if_neg free
    have structural : p.path.headD "" ∉ valueTags := by
      cases split : p.path with
      | nil => decide
      | cons head tail => exact container_structural (container head (by rw [split]; rfl))
    have full : (p.popped.streamed later "").header.incremental = false := tracks.full
    rw [bare, ok_bind, endElement_structural structural (checkElement_full full),
      endElement_structural structural (checkElement_full full)]

theorem parent_ne (head : p.path.head? = some tag) (node : tag = "file" ∨ tag = "directory") :
    p.path.tail.headD "" ≠ "xattr" := by
  have apart := tracks.apart
  generalize p.path = path at apart head ⊢
  cases path with
  | nil => cases head
  | cons first rest =>
    cases head
    cases apart with
    | singleton =>
      show "" ≠ "xattr"
      decide
    | cons_cons outside _ => exact outside node

theorem file_stacks (head : p.path.head? = some "file") (placed : outline.Placed .closes) :
    ∃ file files dir outer, p.fileStack = file :: files ∧ p.dirStack = dir :: outer := by
  have opened : 0 < p.fileStack.length := by
    rw [tracks.files]
    exact count_pos_iff.mpr (mem_of_mem_head? head)
  have rooted : 0 < p.dirStack.length := by
    rw [← tracks.filled.length_eq]
    exact length_pos_iff.mpr (placed (tracks.path ▸ head))
  obtain ⟨file, files, fileStack⟩ := exists_cons_of_length_pos opened
  obtain ⟨dir, outer, dirStack⟩ := exists_cons_of_length_pos rooted
  exact ⟨file, files, dir, outer, fileStack, dirStack⟩

/-- The end of the element hands out one more entry. -/
def HandsOut (crates : Crates) (outline : Outline) (p q : IndexParser) (later : StreamState) (content : String) : Prop :=
  ∃ entry last, endElement crates (p.popped.streamed later "") (p.path.headD "") (p.path.tail.headD "") content =
      .ok (q.streamed last "") ∧ Live last (outline.step .closes).ended (some entry) ∧ Tracks (outline.step .closes) q ∧
    (handedOut (outline.step .closes).ended q.dirStack).Perm (entry :: handedOut outline.ended p.dirStack)

variable (ended : endElement crates p.popped (p.path.headD "") (p.path.tail.headD "") content = .ok q)
include ended

theorem closes_other (noFile : p.path.head? ≠ some "file")
    (noDirectory : p.path.head? ≠ some "directory") :
    Tracks (outline.step .closes) q := by
  obtain ⟨unknown, files, dirs⟩ := endElement_retouches (p := p.popped) tracks.full (headD_ne noFile (by decide))
    (headD_ne noDirectory (by decide)) ended
  have frame := endElement_frame (p := p.popped) tracks.tree ended
  have stream : q.stream = p.stream := congrArg (·.1) frame
  have path : q.path = p.path.tail := congrArg (·.2.1) frame
  have encoded : q.percentEncoded = p.popped.percentEncoded := congrArg (·.2.2.2.1) frame
  have full : q.header.incremental = p.header.incremental := congrArg (·.2.2.2.2) frame
  have step : outline.step .closes = { outline with path := outline.path.tail } := by
    rw [← tracks.path] at noFile noDirectory
    unfold step
    rw [if_neg noFile, if_neg noDirectory]
  have filled := retouched_filled dirs tracks.filled
  rw [step]
  refine ⟨stream ▸ tracks.tree, full.trans tracks.full, unknown.trans tracks.known, ?_, ?_, ?_, filled, ?_, ?_, ?_⟩
  · rw [path, ← tracks.path]
  · rw [path, encoded]
    exact encoded_popped tracks
  · rw [path, count_tail noFile]
    exact files.trans tracks.files
  · rw [path, count_tail noDirectory, ← tracks.dirs, ← filled.length_eq, tracks.filled.length_eq]
  · intro over'
    rw [path]
    exact fun member => tracks.single over' (mem_of_mem_tail member)
  · rw [path]
    exact apart_tail tracks.apart

theorem handedOut_other (noFile : p.path.head? ≠ some "file")
    (noDirectory : p.path.head? ≠ some "directory")
    (attributed : outline.Attributed .closes) (named : Blind view ∨ outline.NamedFirst .closes) :
    (handedOut outline.ended q.dirStack).map view = (handedOut outline.ended p.dirStack).map view := by
  obtain ⟨-, -, dirs⟩ := endElement_retouches (p := p.popped) tracks.full (headD_ne noFile (by decide))
    (headD_ne noDirectory (by decide)) ended
  generalize q.dirStack = stack at dirs ⊢
  cases dirs with
  | same => rfl
  | tagged xattrs top attribute' noFiles =>
    have running : outline.ended = false := by
      by_contra over'
      have inFile : "file" ∈ p.path :=
        tracks.path ▸ attributed (tracks.path ▸ head_of_headD attribute' (by decide)) (Bool.not_eq_false _ ▸ over')
      have open' : 0 < p.path.count "file" := count_pos_iff.mpr inFile
      rw [← tracks.files] at open'
      exact Nat.lt_irrefl 0 (noFiles ▸ open')
    have stack : p.dirStack = _ := top
    rw [running, stack, handedOut, handedOut, map_append, map_append]
    exact congrArg (· ++ _) (held_top rfl rfl (.inr (.inr (.inr rfl))))
  | field after top inside files subdirs unnamed =>
    have within : "directory" ∈ p.path := mem_of_mem_tail (mem_of_mem_head? (head_of_headD inside (by decide)))
    have running : outline.ended = false := by
      by_contra over'
      exact tracks.single (Bool.not_eq_false _ ▸ over') within
    have stack : p.dirStack = _ := top
    rw [running, stack, handedOut, handedOut, map_append, map_append]
    refine congrArg (· ++ _) (held_top files subdirs ?_)
    by_cases isName : p.path.headD "" = "name"
    · rcases named with blind | first
      · exact .inl blind
      have filled := tracks.filled
      rw [stack] at filled
      unfold Outline.NamedFirst at first
      rw [tracks.path] at first
      have early := first (head_of_headD isName (by decide)) (head_of_headD inside (by decide))
      generalize outline.filled = flags at filled early
      cases filled with
      | cons here rest =>
        rename_i full others
        cases full with
        | false => exact .inr (.inl (here rfl))
        | true =>
          have alone : others = [] := by simpa using early rfl
          rw [alone] at rest
          cases rest
          exact .inr (.inr (.inl rfl))
    · exact .inr (.inr (.inr (unnamed isName)))

theorem closes_file {later : StreamState} (live : Live later outline.ended none)
    (head : p.path.head? = some "file") (placed : outline.Placed .closes) : HandsOut crates outline p q later content := by
  obtain ⟨file, files, dir, outer, fileStack, dirStack⟩ := file_stacks tracks head placed
  have outside := parent_ne tracks head (.inl rfl)
  rw [headD_eq head, (endElement_node (p := p.popped) tracks.full outside _).1] at ended
  rw [HandsOut, headD_eq head, (endElement_node (p := p.popped.streamed later "") tracks.full outside _).1]
  rw [closeFile_tree (p := p.popped) tracks.tree fileStack dirStack] at ended
  rw [closeFile_streamed (p := p.popped) live.streaming fileStack dirStack]
  cases ended
  have step : outline.step .closes =
      { outline with path := outline.path.tail, filled := outline.filled.modifyHead fun _ => true } := by
    unfold step
    rw [if_pos (tracks.path ▸ head)]
  rw [step]
  refine ⟨.file (nodePath (stackNames (dir :: outer)) file.name) file, _, rfl,
    ⟨live.streaming, live.mode, live.seen, rfl⟩, ?_, ?_⟩
  · have filled := tracks.filled
    have counted : p.path.count "file" = p.path.tail.count "file" + 1 := count_head head
    have fileCount := tracks.files
    have dirCount := tracks.dirs
    rw [dirStack] at filled dirCount
    rw [fileStack, length_cons] at fileCount
    refine ⟨tracks.tree, tracks.full, tracks.known, congrArg tail tracks.path, encoded_popped tracks, ?_, ?_, ?_, ?_,
      apart_tail tracks.apart⟩
    · show files.length = p.path.tail.count "file"
      omega
    · show List.Forall₂ _ (outline.filled.modifyHead fun _ => true) _
      generalize outline.filled = flags at filled
      cases filled with
      | cons here rest => exact .cons nofun rest
    · show outer.length + 1 = p.path.tail.count "directory" + outline.ended.toNat
      rw [count_tail (by rw [head]; decide)]
      exact dirCount
    · exact fun over' member => tracks.single over' (mem_of_mem_tail member)
  · rw [dirStack]
    exact (held_file file).append_right _

theorem closes_directory {later : StreamState} (live : Live later outline.ended none)
    (head : p.path.head? = some "directory") : HandsOut crates outline p q later content := by
  have within : "directory" ∈ p.path := mem_of_mem_head? head
  have running : outline.ended = false := by
    by_contra over'
    exact tracks.single (Bool.not_eq_false _ ▸ over') within
  have counted : p.path.count "directory" = p.path.tail.count "directory" + 1 := count_head head
  have fileCount := tracks.files
  have dirCount := tracks.dirs
  have filled := tracks.filled
  have outside := parent_ne tracks head (.inr rfl)
  have noFile : outline.path.head? ≠ some "file" := by
    rw [tracks.path, head]
    decide
  have isDirectory : outline.path.head? = some "directory" := tracks.path ▸ head
  rw [headD_eq head, (endElement_node (p := p.popped) tracks.full outside _).2] at ended
  rw [HandsOut, headD_eq head, (endElement_node (p := p.popped.streamed later "") tracks.full outside _).2]
  rw [running, counted] at dirCount
  cases stack : p.dirStack with
  | nil => simp [stack] at dirCount
  | cons done rest =>
    cases rest with
    | nil =>
      rw [closeDirectory_root (p := p.popped) tracks.tree stack] at ended
      rw [closeDirectory_streamed_root (p := p.popped) live.streaming stack]
      cases ended
      rw [stack] at filled dirCount
      have step : outline.step .closes = { outline with path := outline.path.tail, ended := true } := by
        unfold step
        rw [if_neg noFile, if_pos isDirectory]
        generalize outline.filled = flags at filled
        cases filled with
        | cons _ none => cases none; rfl
      rw [step]
      refine ⟨done.rootEntry, _, rfl, ⟨live.streaming, live.mode, rfl, rfl⟩, ?_, ?_⟩
      · refine ⟨tracks.tree, tracks.full, tracks.known, congrArg tail tracks.path, encoded_popped tracks, ?_,
          tracks.filled, ?_, ?_, apart_tail tracks.apart⟩
        · show p.fileStack.length = p.path.tail.count "file"
          rw [count_tail (by rw [head]; decide)]
          exact fileCount
        · show p.dirStack.length = p.path.tail.count "directory" + 1
          rw [stack]
          simpa using dirCount
        · intro _
          have none : p.path.tail.count "directory" = 0 := by simpa using dirCount
          exact count_eq_zero.mp none
      · show (handedOut true p.dirStack).Perm _
        rw [running, stack, handedOut, handedOut, if_pos rfl]
        simp
    | cons parent outer =>
      rw [closeDirectory_tree (p := p.popped) tracks.tree stack] at ended
      rw [closeDirectory_streamed (p := p.popped) live.streaming stack]
      cases ended
      rw [stack] at filled dirCount
      obtain ⟨flags, step, fits⟩ : ∃ flags, outline.step .closes =
          { outline with path := outline.path.tail, filled := true :: flags } ∧
          List.Forall₂ (fun full dir => full = false → DirectoryNode.Childless dir) flags outer := by
        unfold step
        rw [if_neg noFile, if_pos isDirectory]
        generalize outline.filled = flags at filled
        cases filled with
        | cons _ more =>
          cases more with
          | cons _ rest => exact ⟨_, rfl, rest⟩
      rw [step]
      refine ⟨.directory (nodePath (stackNames (parent :: outer)) done.name) done.bare, _, rfl,
        ⟨live.streaming, live.mode, live.seen, rfl⟩, ?_, ?_⟩
      · refine ⟨tracks.tree, tracks.full, tracks.known, congrArg tail tracks.path, encoded_popped tracks, ?_,
          .cons nofun fits, ?_, ?_, apart_tail tracks.apart⟩
        · show p.fileStack.length = p.path.tail.count "file"
          rw [count_tail (by rw [head]; decide)]
          exact fileCount
        · show outer.length + 1 = p.path.tail.count "directory" + outline.ended.toNat
          rw [running]
          simpa using dirCount
        · intro over'
          exact absurd (running.symm.trans over') Bool.false_ne_true
      · show (handedOut outline.ended _).Perm _
        rw [running, handedOut, handedOut]
        simpa using held_directory done

end Closing

def Regular {β : Type} (view : IndexEntry → β) (outline : Outline) (marks : List Mark) : Prop :=
  Run.Follows Outline.step Outline.Attributed outline marks ∧
    (Blind view ∨ Run.Follows Outline.step Outline.NamedFirst outline marks)

theorem Regular.append {β : Type} {view : IndexEntry → β} {outline : Outline} {first second : List Mark}
    (regular : Regular view outline (first ++ second)) :
    Regular view outline first ∧ Regular view (first.foldl step outline) second := by
  obtain ⟨attributed, named⟩ := regular
  obtain ⟨attributed, attributedLater⟩ := Run.follows_append.mp attributed
  rcases named with blind | named
  · exact ⟨⟨attributed, .inl blind⟩, attributedLater, .inl blind⟩
  · obtain ⟨named, namedLater⟩ := Run.follows_append.mp named
    exact ⟨⟨attributed, .inr named⟩, attributedLater, .inr namedLater⟩

/-- The streaming scan has followed the tree from `p` to `q` over some marks, with at most one entry to hand out. -/
structure Mirrored (outline : Outline) (marks : List Mark) (p q : IndexParser) (entry : Option IndexEntry)
    (stream : StreamState) (text : String) : Prop where
  tracks : Tracks (marks.foldl Outline.step outline) q
  live : Live stream (marks.foldl Outline.step outline).ended entry
  collected : Collected q text
  handed : ∀ {β : Type} (view : IndexEntry → β), Regular view outline marks →
    ((handedOut (marks.foldl Outline.step outline).ended q.dirStack).map view).Perm
      ((entry.toList ++ handedOut outline.ended p.dirStack).map view)

def Mirrors (outline : Outline) (marks : List Mark) (p q : IndexParser) (result : Result IndexParser) : Prop :=
  result = .error Limits.exceeded ∨ ∃ entry stream text, result = .ok (q.streamed stream text) ∧
    Mirrored outline marks p q entry stream text

section Steps

variable {crates : Crates} {outline : Outline} {p q : IndexParser} {stream : StreamState} {text : String}

theorem onStart_mirrors {tag : String} {attributes : Attributes} (text : String) (tracks : Tracks outline p)
    (live : Live stream outline.ended none) (familiar : tag ∈ knownElements) (single : outline.SingleRoot (.opens tag))
    (placed : outline.Placed (.opens tag)) (ran : p.onStart tag attributes 0 = .ok q) (size : Nat) :
    (p.streamed stream text).onStart tag attributes size = .error exceeded ∨
      ∃ later, (p.streamed stream text).onStart tag attributes size = .ok (q.streamed later q.text) ∧
        Mirrored outline [.opens tag] p q none later q.text := by
  have opened := onStart_opened tracks familiar ran
  rcases onStart_streamed tracks live single placed familiar ran size with failed | ⟨later, started, still⟩
  · exact .inl failed
  · refine .inr ⟨later, started, tracks_opens tracks single placed opened, still, .inl rfl, ?_⟩
    intro β view _
    exact .of_eq (congrArg (map view) (handedOut_opens single opened))

theorem onEnd_mirrors (tracks : Tracks outline p) (live : Live stream outline.ended none) (collected : Collected p text)
    (placed : outline.Placed .closes) (ran : p.onEnd crates = .ok q) :
    Mirrors outline [.closes] p q ((p.streamed stream text).onEnd crates) := by
  rcases onEnd_streamed tracks live collected ran with failed | ⟨later, content, still, ended, same⟩
  · exact .inl failed
  rw [same]
  have cleared : Collected q "" := .inl (congrArg (·.2.2.1) (endElement_frame (p := p.popped) tracks.tree ended)).symm
  by_cases isFile : p.path.head? = some "file"
  · obtain ⟨entry, last, closed, lives, tracked, handed⟩ := closes_file tracks ended still isFile placed
    exact .inr ⟨some entry, last, "", closed, tracked, lives, cleared, fun view _ => handed.map view⟩
  by_cases isDirectory : p.path.head? = some "directory"
  · obtain ⟨entry, last, closed, lives, tracked, handed⟩ := closes_directory tracks ended still isDirectory
    exact .inr ⟨some entry, last, "", closed, tracked, lives, cleared, fun view _ => handed.map view⟩
  have running : (outline.step .closes).ended = outline.ended := by
    rw [← tracks.path] at isFile isDirectory
    unfold step
    rw [if_neg isFile, if_neg isDirectory]
  have closed : endElement crates (p.popped.streamed later "") (p.path.headD "") (p.path.tail.headD "") content =
      .ok (q.streamed later "") := by
    rw [endElement_streamed (p := p.popped) tracks.full (headD_ne isFile (by decide))
      (headD_ne isDirectory (by decide)), ended]
    rfl
  refine .inr ⟨none, later, "", closed, closes_other tracks ended isFile isDirectory, ?_, cleared, ?_⟩
  · exact running.symm ▸ still
  · intro β view regular
    obtain ⟨⟨attributed, -⟩, named⟩ := regular
    have same := handedOut_other tracks ended isFile isDirectory attributed (named.imp_right (·.1))
    show ((handedOut (outline.step .closes).ended q.dirStack).map view).Perm _
    rw [running]
    exact .of_eq same

theorem onText_mirrors (tracks : Tracks outline p) (live : Live stream outline.ended none) (collected : Collected p text)
    (content : String) (size : Nat) : Mirrors outline [] p { p with text := p.text ++ content }
      (if (p.streamed stream text).ignoresLayoutText content then .ok (p.streamed stream text)
        else (p.streamed stream text).whenStreaming (·.charge size) >>= fun r => r.onText content) := by
  have tracks' : Tracks outline { p with text := p.text ++ content } :=
    ⟨tracks.tree, tracks.full, tracks.known, tracks.path, tracks.encoded, tracks.files, tracks.filled, tracks.dirs,
      tracks.single, tracks.apart⟩
  split
  · rename_i ignored
    refine .inr ⟨none, stream, text, rfl, tracks', live, .inr ?_, fun view _ => .refl _⟩
    intro tag head
    unfold ignoresLayoutText at ignored
    have path : (p.streamed stream text).path.head? = some tag := head
    rw [path] at ignored
    simpa using (Bool.and_eq_true_iff.mp ignored).2
  · rcases live.charged p text (charge_bounded size) with failed | ⟨later, charged, still⟩
    · rw [failed]
      exact .inl rfl
    rw [charged, ok_bind]
    have unfolded : (p.streamed later text).onText content = ((p.streamed later text).whenStreaming (fun budget =>
        budget.text text.utf8ByteSize content.utf8ByteSize >>= fun _ => .ok budget) >>=
          fun r => .ok { r with text := r.text ++ content }) := rfl
    rw [unfolded]
    rcases still.charged p text (text_bounded text.utf8ByteSize content.utf8ByteSize) with
      failed | ⟨last, read, lives⟩
    · rw [failed]
      exact .inl rfl
    · rw [read]
      refine .inr ⟨none, last, text ++ content, rfl, tracks', lives, ?_, fun view _ => .refl _⟩
      exact collected.imp_left fun same => congrArg (· ++ content) same

theorem handle_text_tree (tree : p.stream.streaming = false) (content : String) :
    p.handle crates (.text content) 0 = .ok { p with text := p.text ++ content } := by
  unfold handle ignoresLayoutText
  simp only [tree, Bool.false_and, Bool.false_eq_true, if_false, whenStreaming_tree tree, ok_bind, onText_tree tree]

theorem handle_cdata_tree (tree : p.stream.streaming = false) (content : String) :
    p.handle crates (.cdata content) 0 = .ok { p with text := p.text ++ content } := by
  show p.handle crates (.text content) 0 = _
  exact handle_text_tree tree content

theorem Mirrored.trans {first second : List Mark} {r : IndexParser} {entry : Option IndexEntry}
    {middle last : StreamState} {text' : String} (before : Mirrored outline first p r none middle text)
    (after : Mirrored (first.foldl step outline) second r q entry last text') :
    Mirrored outline (first ++ second) p q entry last text' := by
  have folded : (first ++ second).foldl step outline =
      second.foldl step (first.foldl step outline) := foldl_append
  refine ⟨folded ▸ after.tracks, folded ▸ after.live, after.collected, ?_⟩
  intro β view regular
  obtain ⟨early, late⟩ := regular.append
  rw [folded]
  refine (after.handed view late).trans ?_
  rw [map_append, map_append]
  exact (before.handed view early).append_left _

theorem handle_mirrors {event : Event} (tracks : Tracks outline p) (live : Live stream outline.ended none)
    (collected : Collected p text) (familiar : ∀ mark ∈ eventMarks event, mark.Known)
    (single : Run.Follows step Outline.SingleRoot outline (eventMarks event))
    (placed : Run.Follows step Outline.Placed outline (eventMarks event))
    (ran : p.handle crates event 0 = .ok q) (size : Nat) :
    Mirrors outline (eventMarks event) p q ((p.streamed stream text).handle crates event size) := by
  cases event with
  | start tag attributes =>
    rcases onStart_mirrors text tracks live (familiar (.opens tag) (by simp [eventMarks])) single.1 placed.1 ran size with
      failed | ⟨later, started, mirrored⟩
    · exact .inl failed
    · exact .inr ⟨none, later, q.text, started, mirrored⟩
  | empty tag attributes =>
    obtain ⟨r, began, ran⟩ := bind_ok.mp ran
    have streamed : (p.streamed stream text).handle crates (.empty tag attributes) size =
        ((p.streamed stream text).onStart tag attributes size >>= fun r => r.onEnd crates) := rfl
    rw [streamed]
    rcases onStart_mirrors text tracks live (familiar (.opens tag) (by simp [eventMarks])) single.1 placed.1 began size with
      failed | ⟨later, started, opened⟩
    · rw [failed]
      exact .inl rfl
    · rw [started, ok_bind]
      rcases onEnd_mirrors opened.tracks opened.live opened.collected placed.2.1 ran with
        failed | ⟨entry, last, text', ended, closed⟩
      · exact .inl failed
      · exact .inr ⟨entry, last, text', ended, opened.trans closed⟩
  | close tag =>
    have tree : p.handle crates (.close tag) 0 = p.onEnd crates := by
      unfold handle
      rw [whenStreaming_tree tracks.tree]
      rfl
    rw [tree] at ran
    have streamed : (p.streamed stream text).handle crates (.close tag) size =
        ((p.streamed stream text).whenStreaming (·.charge size) >>= fun r => r.onEnd crates) := rfl
    rw [streamed]
    rcases live.charged p text (charge_bounded size) with failed | ⟨later, charged, still⟩
    · rw [failed]
      exact .inl rfl
    · rw [charged]
      exact onEnd_mirrors tracks still collected placed.1 ran
  | text content =>
    rw [handle_text_tree tracks.tree] at ran
    cases ran
    exact onText_mirrors tracks live collected content size
  | cdata content =>
    rw [handle_cdata_tree tracks.tree] at ran
    cases ran
    exact onText_mirrors tracks live collected content size
  | misc content =>
    cases ran
    exact .inr ⟨none, stream, text, rfl, tracks, live, collected, fun view _ => .refl _⟩

theorem discover_full (p : IndexParser) (event : Event) : full.discover p event = p := by
  cases event <;> rfl

theorem emit_full (live : p.stream.incrementalStream = some false) (seen : List String) (entry : IndexEntry) :
    full.emit p seen entry = .ok seen := by
  unfold emit
  rw [if_neg (by simp [live])]

theorem Mirrored.hands {first second : List Mark} {entry : Option IndexEntry} {β : Type} {view : IndexEntry → β}
    {entries : List IndexEntry} {after : List β} (here : Mirrored outline first p q entry stream text)
    (regular : Regular view outline (first ++ second))
    (grown : Regular view (first.foldl step outline) second → after.Perm
      ((entries ++ handedOut (first.foldl step outline).ended q.dirStack).map view)) :
    after.Perm ((entry.toList ++ entries ++ handedOut outline.ended p.dirStack).map view) := by
  obtain ⟨early, late⟩ := regular.append
  refine (grown late).trans ?_
  rw [map_append, append_assoc, map_append, map_append]
  refine ((here.handed view early).append_left _).trans ?_
  rw [map_append, ← append_assoc, ← append_assoc]
  exact perm_append_comm.append_right _

theorem scan_mirrors {events : List ReadEvent} (tracks : Tracks outline p) (live : Live stream outline.ended none)
    (collected : Collected p text) (familiar : ∀ mark ∈ marks events, mark.Known)
    (single : Run.Follows step Outline.SingleRoot outline (marks events))
    (placed : Run.Follows step Outline.Placed outline (marks events))
    (ran : p.runEvents crates (events.map (·.event)) = .ok q) (seen : List String) :
    full.scan crates (p.streamed stream text) seen events = .error exceeded ∨ ∃ entries last text',
      full.scan crates (p.streamed stream text) seen events = .ok (q.streamed last text', entries) ∧
      Tracks ((marks events).foldl step outline) q ∧
      Live last ((marks events).foldl step outline).ended none ∧
      ∀ {β : Type} (view : IndexEntry → β), Regular view outline (marks events) →
        ((handedOut ((marks events).foldl step outline).ended q.dirStack).map view).Perm
          ((entries ++ handedOut outline.ended p.dirStack).map view) := by
  induction events generalizing p outline stream text with
  | nil =>
    cases ran
    exact .inr ⟨[], stream, text, rfl, tracks, live, fun view _ => .refl _⟩
  | cons read rest ih =>
    have split : marks (read :: rest) = eventMarks read.event ++ marks rest := flatMap_cons
    rw [split] at familiar single placed
    obtain ⟨singleHere, singleRest⟩ := Run.follows_append.mp single
    obtain ⟨placedHere, placedRest⟩ := Run.follows_append.mp placed
    rw [map_cons, runEvents_cons] at ran
    obtain ⟨r, handled, ran⟩ := bind_ok.mp ran
    rw [scan, discover_full]
    by_cases large : full.streaming && full.limits.event < read.consumed
    · exact .inl (if_pos large)
    rw [if_neg large]
    rcases handle_mirrors tracks live collected (fun mark member => familiar mark (mem_append_left _ member)) singleHere
      placedHere handled read.size with failed | ⟨entry, later, text', handled', here⟩
    · rw [failed]
      exact .inl rfl
    rw [handled', ok_bind, split]
    have folded : (eventMarks read.event ++ marks rest).foldl step outline =
        (marks rest).foldl step ((eventMarks read.event).foldl step outline) := foldl_append
    rw [folded]
    have pending : (r.streamed later text').stream.pendingEntry = entry := here.live.pending
    cases entry with
    | none =>
      rw [pending]
      rcases ih here.tracks here.live here.collected (fun mark member => familiar mark (mem_append_right _ member))
        singleRest placedRest ran with failed | ⟨entries, last, text'', scanned, tracked, lives, handed⟩
      · exact .inl failed
      · exact .inr ⟨entries, last, text'', scanned, tracked, lives, fun view regular => here.hands regular (handed view)⟩
    | some entry =>
      have idle : Live { later with pendingEntry := none } ((eventMarks read.event).foldl step outline).ended
          none := ⟨here.live.streaming, here.live.mode, here.live.seen, rfl⟩
      rw [pending]
      dsimp only
      rw [emit_full here.live.mode, ok_bind]
      rcases ih here.tracks idle here.collected (fun mark member => familiar mark (mem_append_right _ member))
        singleRest placedRest ran with failed | ⟨entries, last, text'', scanned, tracked, lives, handed⟩
      · left
        show (full.scan crates (r.streamed { later with pendingEntry := none } text') seen rest >>= _) = _
        rw [failed]
        rfl
      · refine .inr ⟨entry :: entries, last, text'', ?_, tracked, lives, fun view regular =>
          here.hands regular (handed view)⟩
        show (full.scan crates (r.streamed { later with pendingEntry := none } text') seen rest >>= _) = _
        rw [scanned]
        rfl

end Steps

theorem parse_ok {crates : Crates} {xml : List UInt8} {index : LtfsIndex} (parsed : LtfsIndex.parse crates xml = .ok index) :
    ∃ p, tree.initial.runEvents crates ((crates.xmlRead xml).events.map (·.event)) = .ok p ∧
      (crates.xmlRead xml).failure = none ∧ p.finish = .ok index := by
  unfold LtfsIndex.parse parseWith at parsed
  dsimp only at parsed
  obtain ⟨result, done, rfl⟩ := map_ok.mp parsed
  obtain ⟨scanned, scan, done⟩ := bind_ok.mp done
  rw [scan_tree crates rfl rfl] at scan
  obtain ⟨p, ran, rfl⟩ := map_ok.mp scan
  dsimp only at done
  cases read : (crates.xmlRead xml).failure with
  | some message =>
    rw [read] at done
    cases done
  | none =>
    rw [read] at done
    obtain ⟨index, finished, done⟩ := bind_ok.mp done
    refine ⟨p, ran, rfl, ?_⟩
    split at done
    · cases done
    obtain ⟨_, _, done⟩ := bind_ok.mp done
    split at done
    · cases done
    · cases done
      exact finished

theorem finish_streamed {outline : Outline} {p : IndexParser} {index : LtfsIndex} (tracks : Tracks outline p)
    (finished : p.finish = .ok index) (stream : StreamState) (text : String) :
    outline.ended = true ∧ p.dirStack = [index.root] ∧ index.incremental = false ∧ index.unknownElements = [] ∧
      (p.streamed stream text).finish = .ok { index with root := index.root.bare } := by
  have dirs := tracks.dirs
  unfold finish at finished
  split at finished
  · cases finished
  rename_i complete
  have path : p.path = [] := by
    by_contra left'
    simp [left'] at complete
  have lacking : missingHeader p.header = none := by
    unfold missingHeader
    rw [tracks.full]
    rfl
  rw [lacking] at finished
  rw [path] at dirs
  cases uuid : p.header.volumeUuid with
  | none =>
    rw [uuid] at finished
    cases finished
  | some volumeUuid =>
    cases stack : p.dirStack with
    | nil =>
      rw [uuid, stack] at finished
      cases finished
    | cons root outer =>
      rw [uuid, stack] at finished
      rw [stack] at dirs
      have over' : outline.ended = true := by
        by_contra running
        rw [Bool.not_eq_true] at running
        simp [running] at dirs
      have alone : outer = [] := by
        simpa [over'] using dirs
      cases finished
      refine ⟨over', by rw [alone], tracks.full, tracks.known, ?_⟩
      have complete' : ¬(!(p.streamed stream text).path.isEmpty || (p.streamed stream text).header.incremental &&
          (p.streamed stream text).header.selfLocation.isNone) = true := complete
      have lacking' : missingHeader (p.streamed stream text).header = none := lacking
      have uuid' : (p.streamed stream text).header.volumeUuid = some volumeUuid := uuid
      have stack' : (p.streamed stream text).dirStack = root.bare :: outer.map (·.bare) := by
        show p.dirStack.map (·.bare) = _
        rw [stack]
        rfl
      unfold finish
      rw [if_neg complete', lacking', uuid', stack']
      rfl

section Samples

def written : Event → String
  | .start tag _ => "<" ++ tag ++ ">"
  | .empty tag _ => "<" ++ tag ++ "/>"
  | .close tag => "</" ++ tag ++ ">"
  | .text content => content
  | .cdata content => "<![CDATA[" ++ content ++ "]]>"
  | .misc content => "<!--" ++ content ++ "-->"

def documentBytes (events : List Event) : List UInt8 :=
  (String.join (events.map written)).toUTF8.toList

def sized (event : Event) : ReadEvent :=
  match event with
  | .start tag _ | .empty tag _ | .close tag => ⟨event, tag.utf8ByteSize, (written event).utf8ByteSize⟩
  | .text content | .cdata content | .misc content => ⟨event, content.utf8ByteSize, (written event).utf8ByteSize⟩

def reading (events : List Event) : Crates where
  xmlWrite := documentBytes
  xmlRead _ := ⟨events.map sized, none⟩
  uuidToString _ := "00000000-0000-0000-0000-000000000001"
  uuidParse _ := some 1

def element (tag content : String) : List Event := [.start tag [], .text content, .close tag]

/-- A volume with the file `f` in the directory `d`, with elements before and behind the contents of `d`, and elements
    before the root directory. -/
def nestedDocument (outside before behind : List Event) : List Event :=
  .start "ltfsindex" [] :: element "volumeuuid" "00000000-0000-0000-0000-000000000001" ++ outside ++
    [.start "directory" [], .start "contents" [], .start "directory" []] ++ before ++
    [.start "contents" [], .start "file" []] ++ element "name" "f" ++ [.close "file", .close "contents"] ++ behind ++
    [.close "directory", .close "contents"] ++ element "name" "vol" ++ [.close "directory", .close "ltfsindex"]

def nestedIndex : LtfsIndex :=
  { version := ltfsVersion, creator := "", volumeUuid := 1, generation := 0, updateTime := "", highestFileUid := 0
    selfLocation := { partition := 'b', startBlock := 0 }
    root := { name := "vol", subdirs := [{ name := "d", files := [{ name := "f" }] }] } }

theorem scanFull_named : LtfsIndex.scanFull (reading (nestedDocument [] (element "name" "d") []))
    (documentBytes (nestedDocument [] (element "name" "d") [])) = .ok ({ nestedIndex with root := { name := "vol" } },
      [.file "d/f" { name := "f" }, .directory "d" { name := "d" }, .directory "" {}]) := rfl

end Samples

end TapeRs.Ltfs

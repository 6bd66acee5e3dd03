import TapeRs.Ltfs.IndexWriter
import TapeRs.Ltfs.ParserFrame

namespace TapeRs.Ltfs.IndexParser

open Xml Result IndexWriter List

variable {p q r : IndexParser} {crates : Crates} {tag : String} {attributes : Attributes} {events rest : List Event}
  {width : Nat}

/-- Between two elements of a document read as a tree. -/
structure Ready (p : IndexParser) : Prop where
  tree : p.stream.streaming = false
  text : p.text = ""
  encoded : p.percentEncoded = ∅

def feed (crates : Crates) (p : IndexParser) (width : Nat) (events : List Event) : Result IndexParser :=
  p.runEvents crates (visible (layout width true events))

theorem visible_cons (event : Event) :
    visible (event :: rest) = if event = .text "" then visible rest else event :: visible rest := by
  unfold visible
  rw [filter_cons]
  by_cases empty : event = .text "" <;> simp [empty]

theorem handle_text (tree : p.stream.streaming = false) (content : String) :
    p.handle crates (.text content) 0 = .ok { p with text := p.text ++ content } := by
  have kept : p.ignoresLayoutText content = false := by simp [ignoresLayoutText, tree]
  simp only [handle, kept, Bool.false_eq_true, if_false, whenStreaming_tree tree, onText, ok_bind]

theorem onStart_text (p : IndexParser) (text tag : String) (attributes : Attributes) (size : Nat) :
    onStart { p with text } tag attributes size = p.onStart tag attributes size := by
  unfold onStart whenStreaming
  split
  · simp only [bind_assoc]
    rfl
  · rfl

theorem run_text (tree : p.stream.streaming = false) (content : String) :
    p.runEvents crates (visible (.text content :: rest)) =
      IndexParser.runEvents crates { p with text := p.text ++ content } (visible rest) := by
  rw [visible_cons]
  split
  · rename_i empty
    cases empty
    rw [String.append_empty]
  · rw [runEvents_cons, handle_text tree]
    rfl

theorem run_break (tree : p.stream.streaming = false) :
    p.runEvents crates (visible (lineBreak true width ++ rest)) =
      IndexParser.runEvents crates { p with text := p.text ++ indentation width } (visible rest) := by
  rw [lineBreak, if_pos rfl, singleton_append, run_text tree]

theorem run_start :
    p.runEvents crates (visible (.start tag attributes :: rest)) =
      (p.onStart tag attributes 0 >>= fun q => q.runEvents crates (visible rest)) := by
  rw [visible_cons, if_neg nofun, runEvents_cons]
  rfl

theorem run_close (tree : p.stream.streaming = false) :
    p.runEvents crates (visible (.close tag :: rest)) =
      (p.onEnd crates >>= fun q => q.runEvents crates (visible rest)) := by
  rw [visible_cons, if_neg nofun, runEvents_cons, handle, whenStreaming_tree tree, ok_bind]

theorem feed_start (ready : p.Ready) :
    p.feed crates width (.start tag attributes :: rest) =
      (p.onStart tag attributes 0 >>= fun q => q.feed crates (width + 2) rest) := by
  unfold feed
  rw [layout, run_break ready.tree, run_start, onStart_text]

theorem feed_empty (ready : p.Ready) :
    p.feed crates width (.empty tag attributes :: rest) =
      (p.onStart tag attributes 0 >>= fun q => q.onEnd crates >>= fun r => r.feed crates width rest) := by
  unfold feed
  rw [layout, run_break ready.tree, visible_cons, if_neg (by simp), runEvents_cons, handle, onStart_text, bind_assoc]

theorem feed_close (ready : p.Ready) :
    p.feed crates (width + 2) (.close tag :: rest) =
      (onEnd crates { p with text := indentation width } >>= fun q => q.feed crates width rest) := by
  unfold feed
  rw [layout, run_break ready.tree, run_close (by exact ready.tree), ready.text, String.empty_append]
  rfl

theorem feed_leaf (ready : p.Ready) (content : String) :
    p.feed crates width (.start tag attributes :: .text content :: .close tag :: rest) =
      (p.onStart tag attributes 0 >>= fun q =>
        onEnd crates { q with text := content } >>= fun r => r.feed crates width rest) := by
  rw [feed_start ready]
  cases started : p.onStart tag attributes 0 with
  | error error => rfl
  | ok q =>
    obtain ⟨stream, cleared⟩ := onStart_alike ready.tree started
    have tree : q.stream.streaming = false := stream ▸ ready.tree
    rw [ok_bind, ok_bind, feed, layout, run_text tree, cleared, String.empty_append, layout,
      lineBreak, if_neg Bool.false_ne_true, nil_append, run_close (by exact tree)]
    rfl

def fieldTags : List String :=
  ["comment", "openforwrite", "creator", "volumeuuid", "generationnumber", "updatetime", "volumelockstate",
    "highestfileuid", "name", "length", "readonly", "creationtime", "changetime", "modifytime", "accesstime",
    "backuptime", "fileuid", "key", "symlink", "partition", "startblock", "byteoffset", "bytecount", "fileoffset"]

def plainTags : List String :=
  fieldTags ++ ["deleted", "allowpolicyupdate", "contents", "extendedattributes", "extentinfo"]

def Allowed (p : IndexParser) (tag : String) : Prop :=
  tag ∈ knownElements ∧ (tag = "deleted" → p.header.incremental = true) ∧
    (tag = "allowpolicyupdate" → p.header.incremental = false)

instance (p : IndexParser) (tag : String) : Decidable (p.Allowed tag) :=
  inferInstanceAs (Decidable (_ ∧ (_ → _) ∧ (_ → _)))

theorem markEncoded_header (p : IndexParser) (tag : String) (attributes : Attributes) :
    (p.markEncoded tag attributes).header = p.header := by
  unfold markEncoded
  split <;> rfl

theorem onStart_ok (ready : p.Ready) (allowed : p.Allowed tag) (attributes : Attributes) :
    p.onStart tag attributes 0 = .ok q ↔ p.path.length < nestingLimit ∧
      ∃ r, (p.markEncoded tag attributes).startElement tag attributes = .ok r ∧ { r with path := tag :: r.path } = q := by
  have cleared : { p with text := "" } = p := by rw [← ready.text]
  obtain ⟨known, deletable, policy⟩ := allowed
  have noted : (p.markEncoded tag attributes).noteUnknown tag = .ok (p.markEncoded tag attributes) := by
    simp [noteUnknown, known]
  have deletedFits : ¬ (tag = "deleted" && !p.header.incremental) = true := by
    simp only [Bool.and_eq_true, decide_eq_true_eq, Bool.not_eq_true', not_and, Bool.not_eq_false]
    exact deletable
  have policyFits : ¬ (p.header.incremental && (tag = "allowpolicyupdate" || tag = "dataplacementpolicy")) = true := by
    simp only [Bool.and_eq_true, Bool.or_eq_true, decide_eq_true_eq, not_and, not_or]
    intro incremental
    constructor
    · intro same
      rw [policy same] at incremental
      cases incremental
    · rintro rfl
      exact absurd known (by decide)
  unfold onStart
  rw [whenStreaming_tree ready.tree, ok_bind, cleared, noted, ← Nat.not_le]
  by_cases deep : nestingLimit ≤ p.path.length
  · simp [deep]
  · rw [if_neg deep, ok_bind, markEncoded_header, if_neg deletedFits, if_neg policyFits, bind_ok]
    simp only [deep, not_false_eq_true, true_and, Except.ok.injEq]

theorem startElement_plain (plain : tag ∈ plainTags) (attributes : Attributes) :
    p.startElement tag attributes = .ok p := by
  simp only [plainTags, fieldTags, cons_append, nil_append, mem_cons, not_mem_nil, or_false] at plain
  rcases plain with rfl | rfl | rfl | rfl | rfl | rfl | rfl | rfl | rfl | rfl | rfl | rfl | rfl | rfl | rfl | rfl |
    rfl | rfl | rfl | rfl | rfl | rfl | rfl | rfl | rfl | rfl | rfl | rfl | rfl <;> rfl

theorem allowed_field (field : tag ∈ fieldTags) (p : IndexParser) : tag ∈ plainTags ∧ p.Allowed tag := by
  have facts : ∀ tag ∈ fieldTags, tag ∈ knownElements ∧ tag ≠ "deleted" ∧ tag ≠ "allowpolicyupdate" := by decide
  obtain ⟨known, notDeleted, notPolicy⟩ := facts tag field
  exact ⟨mem_append_left _ field, known, fun same => absurd same notDeleted, fun same => absurd same notPolicy⟩

theorem Ready.restored (ready : p.Ready) : { p with text := "", percentEncoded := ∅ } = p := by
  obtain ⟨-, text, encoded⟩ := ready
  rw [← text, ← encoded]

theorem onEnd_eq (crates : Crates) (ready : p.Ready) (tag text : String) :
    onEnd crates { p with path := tag :: p.path, text } = endElement crates p tag (p.path.headD "") text := by
  simp only [onEnd, whenStreaming, ready.tree, Bool.false_eq_true, ok_bind, headD_cons, tail_cons, takeText, ready.encoded, Finset.notMem_empty, if_false,
    Finset.erase_empty, ready.restored]

theorem onEnd_encoded (crates : Crates) (ready : p.Ready) (tag text : String) :
    onEnd crates { p with
      path := tag :: p.path, text := Text.percentEncode text
      percentEncoded := insert p.path.length p.percentEncoded } =
      endElement crates p tag (p.path.headD "") text := by
  have emptied : (insert p.path.length (∅ : Finset Nat)).erase p.path.length = ∅ := by simp
  simp only [onEnd, whenStreaming, ready.tree, Bool.false_eq_true, ok_bind, headD_cons, tail_cons, takeText, ready.encoded, Finset.mem_insert_self, if_true, if_false,
    decodeName, Text.percentDecode_percentEncode, emptied, ready.restored]

/-- Some events take the parser from `p` to `r` exactly under a condition, whatever follows them. -/
def Reads (crates : Crates) (p : IndexParser) (events : List Event) (fits : Prop) (r : IndexParser) : Prop :=
  ∀ (width : Nat) (rest : List Event) (q : IndexParser),
    p.feed crates width (events ++ rest) = .ok q ↔ fits ∧ r.feed crates width rest = .ok q

theorem markEncoded_none (p : IndexParser) (tag : String) : p.markEncoded tag [] = p := by
  simp [markEncoded]

section Started

variable (crates : Crates) (ready : p.Ready)
include ready

section Marked

variable (allowed : p.Allowed tag) (started : (p.markEncoded tag attributes).startElement tag attributes = .ok r)
include allowed started

theorem feed_opened :
    p.feed crates width (.start tag attributes :: rest) = .ok q ↔ p.path.length < nestingLimit ∧
      IndexParser.feed crates { r with path := tag :: r.path } (width + 2) rest = .ok q := by
  rw [feed_start ready, bind_ok]
  simp only [onStart_ok ready allowed, started, Except.ok.injEq, exists_eq_left', and_assoc, exists_and_left]

theorem feed_leaf_started (content : String) :
    p.feed crates width (.start tag attributes :: .text content :: .close tag :: rest) = .ok q ↔
      p.path.length < nestingLimit ∧
        ∃ t, onEnd crates { r with path := tag :: r.path, text := content } = .ok t ∧ t.feed crates width rest = .ok q := by
  rw [feed_leaf ready, bind_ok]
  simp only [onStart_ok ready allowed, started, Except.ok.injEq, exists_eq_left', and_assoc, exists_and_left,
    bind_ok]

theorem feed_empty_started :
    p.feed crates width (.empty tag attributes :: rest) = .ok q ↔ p.path.length < nestingLimit ∧
      ∃ t, onEnd crates { r with path := tag :: r.path } = .ok t ∧ t.feed crates width rest = .ok q := by
  rw [feed_empty ready, bind_ok]
  simp only [onStart_ok ready allowed, started, Except.ok.injEq, exists_eq_left', and_assoc, exists_and_left,
    bind_ok]

end Marked

theorem feed_open (allowed : p.Allowed tag) (started : p.startElement tag [] = .ok r) :
    p.feed crates width (.start tag [] :: rest) = .ok q ↔ p.path.length < nestingLimit ∧
      IndexParser.feed crates { r with path := tag :: r.path } (width + 2) rest = .ok q := by
  rw [← markEncoded_none p tag] at started
  exact feed_opened crates ready allowed started

theorem feed_text (plain : tag ∈ plainTags) (allowed : p.Allowed tag) (text : String) :
    p.feed crates width (writeText tag text ++ rest) = .ok q ↔ p.path.length < nestingLimit ∧
      ∃ r, endElement crates p tag (p.path.headD "") text = .ok r ∧ r.feed crates width rest = .ok q := by
  unfold writeText
  split
  · rename_i encoded
    have marked : p.markEncoded tag [("percentencoded", "true")] =
        { p with percentEncoded := insert p.path.length p.percentEncoded } := by
      have named : tag ∈ encodedTags := by
        simp only [Bool.and_eq_true, Bool.or_eq_true, decide_eq_true_eq] at encoded
        simpa [encodedTags, or_assoc] using encoded.1
      simp [markEncoded, named]
    have started := startElement_plain (p := p.markEncoded tag [("percentencoded", "true")]) plain
      [("percentencoded", "true")]
    rw [cons_append, cons_append, cons_append, nil_append,
      feed_leaf_started crates ready allowed started, marked, onEnd_encoded crates ready]
  · rw [cons_append, cons_append, cons_append, nil_append,
      feed_leaf_started crates ready allowed (startElement_plain plain _), markEncoded_none, onEnd_eq crates ready]

variable {parent : String} (inside : p.path.headD "" = parent)
include inside

theorem reads_text (field : tag ∈ fieldTags) {text : String} (ended : endElement crates p tag parent text = .ok r) :
    Reads crates p (writeText tag text) (p.path.length < nestingLimit) r := by
  intro width rest q
  obtain ⟨plain, allowed⟩ := allowed_field field p
  rw [feed_text crates ready plain allowed, inside, ended]
  simp

theorem reads_bare (plain : tag ∈ plainTags) (allowed : p.Allowed tag)
    (ended : endElement crates p tag parent "" = .ok r) :
    Reads crates p [.empty tag []] (p.path.length < nestingLimit) r := by
  intro width rest q
  have opened : { p with path := tag :: p.path } = { p with path := tag :: p.path, text := "" } := by rw [← ready.text]
  rw [singleton_append, feed_empty_started crates ready allowed (startElement_plain plain _), markEncoded_none,
    opened, onEnd_eq crates ready, inside, ended]
  simp

theorem feed_end (ended : ∀ text, endElement crates p tag parent text = .ok r) (width : Nat) (rest : List Event) :
    IndexParser.feed crates { p with path := tag :: p.path } (width + 2) (.close tag :: rest) = .ok q ↔
      r.feed crates width rest = .ok q := by
  have readyInside : Ready { p with path := tag :: p.path } := ⟨ready.tree, ready.text, ready.encoded⟩
  rw [feed_close readyInside, onEnd_eq crates ready, inside, ended, ok_bind]

end Started

def endLeaves (crates : Crates) (p : IndexParser) (leaves : List (String × String)) : Result IndexParser :=
  leaves.foldlM (fun p leaf => endElement crates p leaf.1 (p.path.headD "") leaf.2) p

def writeLeaves (leaves : List (String × String)) : List Event :=
  leaves.flatMap fun leaf => IndexWriter.writeText leaf.1 leaf.2

theorem Ready.of_frame (ready : p.Ready) (same : q.frame = p.frame) : q.Ready := by
  simp only [frame, Prod.mk.injEq] at same
  obtain ⟨stream, -, text, encoded, -⟩ := same
  exact ⟨stream ▸ ready.tree, text.trans ready.text, encoded.trans ready.encoded⟩

theorem feed_leaves (ready : p.Ready) {leaves : List (String × String)} (fields : ∀ leaf ∈ leaves, leaf.1 ∈ fieldTags) :
    p.feed crates width (writeLeaves leaves ++ rest) = .ok q ↔ (leaves ≠ [] → p.path.length < nestingLimit) ∧
      ∃ r, p.endLeaves crates leaves = .ok r ∧ r.feed crates width rest = .ok q := by
  induction leaves generalizing p with
  | nil => simp [writeLeaves, endLeaves, Pure.pure, Except.pure]
  | cons leaf later ih =>
    obtain ⟨plainHere, allowedHere⟩ := allowed_field (fields leaf (by simp)) p
    have split : writeLeaves (leaf :: later) ++ rest =
        writeText leaf.1 leaf.2 ++ (writeLeaves later ++ rest) := by
      simp [writeLeaves]
    have unfolded : p.endLeaves crates (leaf :: later) =
        (endElement crates p leaf.1 (p.path.headD "") leaf.2 >>= fun r => r.endLeaves crates later) := rfl
    rw [split, feed_text crates ready plainHere allowedHere, unfolded]
    simp only [bind_ok, ne_eq, reduceCtorEq, not_false_eq_true, forall_const]
    apply and_congr_right
    intro fits
    have continued : ∀ r, endElement crates p leaf.1 (p.path.headD "") leaf.2 = .ok r →
        (r.feed crates width (writeLeaves later ++ rest) = .ok q ↔
          ∃ t, r.endLeaves crates later = .ok t ∧ t.feed crates width rest = .ok q) := by
      intro r ended
      have same := endElement_frame ready.tree ended
      have readyAfter := ready.of_frame same
      simp only [frame, Prod.mk.injEq] at same
      rw [ih readyAfter (fun other member => fields other (mem_cons_of_mem _ member)), same.2.1]
      simp [fits]
    constructor
    · rintro ⟨r, ended, fed⟩
      obtain ⟨t, endedLater, fed⟩ := (continued r ended).mp fed
      exact ⟨t, ⟨r, ended, endedLater⟩, fed⟩
    · rintro ⟨t, ⟨r, ended, endedLater⟩, fed⟩
      exact ⟨r, ended, (continued r ended).mpr ⟨t, endedLater, fed⟩⟩

section Reads

variable {s t : IndexParser} {later : List Event} {fits fitsLater : Prop}

theorem Reads.nil : Reads crates p [] True p := by
  intro width rest q
  rw [nil_append, true_and]

theorem Reads.congr (reads : Reads crates p events fits r) (same : fits ↔ fitsLater) :
    Reads crates p events fitsLater r :=
  propext same ▸ reads

theorem Reads.append (first : Reads crates p events fits r) (second : fits → Reads crates r later fitsLater t) :
    Reads crates p (events ++ later) (fits ∧ fitsLater) t := by
  intro width rest q
  rw [append_assoc, first, and_assoc]
  exact and_congr_right fun here => second here width rest q

theorem Reads.element (ready : p.Ready) (allowed : p.Allowed tag) (started : p.startElement tag [] = .ok r)
    (body : Reads crates { r with path := tag :: r.path } events fits { s with path := tag :: s.path })
    (deep : fits → p.path.length < nestingLimit) (closing : s.Ready) {parent : String}
    (inside : s.path.headD "" = parent) (ended : ∀ text, endElement crates s tag parent text = .ok t) :
    Reads crates p (.start tag [] :: (events ++ [.close tag])) fits t := by
  intro width rest q
  rw [cons_append, append_assoc, singleton_append, feed_open crates ready allowed started, body,
    feed_end crates closing inside ended]
  exact ⟨And.right, fun read => ⟨deep read.1, read⟩⟩

theorem forall_mem_const {α : Type} (items : List α) : (∀ item ∈ items, fits) ↔ (items ≠ [] → fits) := by
  cases items with
  | nil => simp
  | cons item later => exact ⟨fun all _ => all item (by simp), fun holds _ _ => holds (by simp)⟩

/-- A list of elements is read one by one, from a state that depends on those before. -/
theorem Reads.each {α : Type} (owner : List α → IndexParser) {write : α → List Event} {Fits : α → Prop} {items : List α}
    (step : ∀ before item after, items = before ++ item :: after →
      Reads crates (owner before) (write item) (Fits item) (owner (before ++ [item]))) :
    Reads crates (owner []) (items.flatMap write) (∀ item ∈ items, Fits item) (owner items) := by
  have rest : ∀ after before, items = before ++ after →
      Reads crates (owner before) (after.flatMap write) (∀ item ∈ after, Fits item) (owner items) := by
    intro after
    induction after with
    | nil =>
      intro before split
      rw [append_nil] at split
      exact split ▸ Reads.nil.congr (by simp)
    | cons item after ih =>
      intro before split
      have tail := ih (before ++ [item]) (by rw [split, append_assoc, singleton_append])
      rw [flatMap_cons, forall_mem_cons]
      exact (step before item after split).append fun _ => tail
  exact rest items [] rfl

end Reads

end TapeRs.Ltfs.IndexParser

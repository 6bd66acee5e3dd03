import TapeRs.Data.Xml

namespace TapeRs.Xml

open List

section Writing

def attributesText (attributes : Attributes) : List Char :=
  attributes.flatMap fun (key, value) => ' ' :: (key.toList ++ '=' :: '"' :: (value.toList ++ ['"']))

def cdataText (content : String) : List Char := ("![CDATA[" ++ content ++ "]]").toList

def tagText : Event → List Char
  | .start tag attributes => tag.toList ++ attributesText attributes
  | .close tag => '/' :: tag.toList
  | .empty tag attributes => tag.toList ++ attributesText attributes ++ ['/']
  | .misc content => '?' :: (content.toList ++ ['?'])
  | .cdata content => cdataText content
  | .text _ => []

def eventText : Event → List Char
  | .text content => (escape content).toList
  | event => '<' :: (tagText event ++ ['>'])

def writeBytes (document : List Event) : List UInt8 :=
  (String.ofList ((layout 0 false document).flatMap eventText)).toByteArray.data.toList

end Writing

section Reading

/-- A run of text, the inside of a tag, or a tag that the input ends in. -/
inductive Piece where
  | text (content : List Char)
  | tag (content : List Char)
  | cut

def flush (pending : List Char) (rest : List Piece) : List Piece :=
  if pending = [] then rest else .text pending.reverse :: rest

/-- Splits the input at angle brackets; `pending` holds the current piece backwards. -/
def pieces : Bool → List Char → List Char → List Piece
  | false, pending, [] => flush pending []
  | true, _, [] => [.cut]
  | false, pending, c :: rest =>
    if c = '<' then flush pending (pieces true [] rest) else pieces false (c :: pending) rest
  | true, pending, c :: rest =>
    if c = '>' then .tag pending.reverse :: pieces false [] rest else pieces true (c :: pending) rest

def entityChar (name : List Char) : Option Char :=
  if name = "lt".toList then some '<'
  else if name = "gt".toList then some '>'
  else if name = "amp".toList then some '&'
  else if name = "apos".toList then some '\''
  else if name = "quot".toList then some '"'
  else none

/-- Replaces the five named entities; inside one, its name so far is held backwards. -/
def unescapeFrom : Option (List Char) → List Char → Option (List Char)
  | none, [] => some []
  | some _, [] => none
  | none, c :: rest => if c = '&' then unescapeFrom (some []) rest else (unescapeFrom none rest).map (c :: ·)
  | some name, c :: rest =>
    if c = ';' then (entityChar name.reverse).bind fun d => (unescapeFrom none rest).map (d :: ·)
    else unescapeFrom (some (c :: name)) rest

def readAttributes : Option (List Char) → List Char → List Char → Option Attributes
  | none, pending, [] => if pending = [] then some [] else none
  | some _, _, [] => none
  | none, pending, c :: rest =>
    if c = '"' then readAttributes (some ((pending.drop 1).reverse.drop 1)) [] rest
    else readAttributes none (c :: pending) rest
  | some key, pending, c :: rest =>
    if c = '"' then
      (readAttributes none [] rest).map ((String.ofList key, String.ofList pending.reverse) :: ·)
    else readAttributes (some key) (c :: pending) rest

def readElement (build : String → Attributes → Event) (content : List Char) : Option Event :=
  (readAttributes none [] (content.dropWhile (· ≠ ' '))).map (build (String.ofList (content.takeWhile (· ≠ ' '))))

def readTag (content : List Char) : Option Event :=
  match content with
  | '/' :: name => some (.close (String.ofList name))
  | '?' :: rest => some (.misc (String.ofList rest.dropLast))
  | '!' :: rest => some (.misc (String.ofList rest))
  | content =>
    if content.getLast? = some '/' then readElement .empty content.dropLast else readElement .start content

def readPiece : Piece → Option ReadEvent
  | .text content =>
    (unescapeFrom none content).map fun text =>
      { event := .text (String.ofList text), size := (String.ofList content).utf8ByteSize
        consumed := (String.ofList content).utf8ByteSize }
  | .tag content =>
    (readTag content).map fun event =>
      { event, size := (String.ofList content).utf8ByteSize, consumed := (String.ofList content).utf8ByteSize + 2 }
  | .cut => none

def readPieces : List Piece → ReadResult
  | [] => { events := [], failure := none }
  | piece :: rest =>
    match readPiece piece with
    | some event => { readPieces rest with events := event :: (readPieces rest).events }
    | none => { events := [], failure := some "syntax error" }

def readBytes (bytes : List UInt8) : ReadResult :=
  match (ByteArray.mk bytes.toArray).utf8Decode? with
  | some chars => readPieces (pieces false [] chars.toList)
  | none => { events := [], failure := some "invalid UTF-8" }

end Reading

section Text

variable {text : String}

theorem unescapeFrom_escapeChar (c : Char) (rest : List Char) :
    unescapeFrom none (escapeChar c ++ rest) = (unescapeFrom none rest).map (c :: ·) := by
  unfold escapeChar
  split_ifs with lt gt amp apos quot
  · subst lt
    rfl
  · subst gt
    rfl
  · subst amp
    rfl
  · subst apos
    rfl
  · subst quot
    rfl
  · rw [List.singleton_append, unescapeFrom, if_neg amp]

theorem unescapeFrom_escape (chars : List Char) : unescapeFrom none (chars.flatMap escapeChar) = some chars := by
  induction chars with
  | nil => rfl
  | cons c rest ih => rw [List.flatMap_cons, unescapeFrom_escapeChar, ih, Option.map_some]

theorem quotable_iff : Quotable text ↔ ∀ c ∈ text.toList, c ≠ '<' ∧ c ≠ '>' ∧ c ≠ '"' := by
  simp only [Quotable, all_eq_true, Bool.and_eq_true, decide_eq_true_eq, and_assoc]

theorem escapeChar_plain (c : Char) :
    (escapeChar c).all (fun d => d ≠ '<' && d ≠ '>' && d ≠ '"') = true := by
  unfold escapeChar
  split_ifs with lt gt amp apos quot
  · rfl
  · rfl
  · rfl
  · rfl
  · rfl
  · simp [lt, gt, quot]

theorem escape_quotable (text : String) : Quotable (escape text) := by
  rw [Quotable, escape, String.toList_ofList, List.all_flatMap, List.all_eq_true]
  intro c _
  exact escapeChar_plain c

theorem escapeChar_ne_nil (c : Char) : escapeChar c ≠ [] := by
  unfold escapeChar
  split_ifs <;> simp

theorem escape_eq_nil (empty : (escape text).toList = []) : text = "" := by
  rw [escape, String.toList_ofList, List.flatMap_eq_nil_iff] at empty
  apply String.toList_inj.mp
  show text.toList = []
  rw [List.eq_nil_iff_forall_not_mem]
  intro c member
  exact escapeChar_ne_nil c (empty c member)

def special : List Char := ['<', '>', '&', '\'', '"']

theorem escapeChar_length (c : Char) : (escapeChar c).length = 1 ↔ c ∉ special := by
  unfold escapeChar special
  split_ifs <;> simp_all

theorem escape_eq_self : escape text = text ↔ ∀ c ∈ text.toList, c ∉ special := by
  have grows : ∀ chars : List Char, chars.length ≤ (chars.flatMap escapeChar).length := by
    intro chars
    induction chars with
    | nil => simp
    | cons c rest ih =>
      have one := length_pos_iff.mpr (escapeChar_ne_nil c)
      simp only [flatMap_cons, length_append, length_cons]
      omega
  have kept : ∀ chars : List Char, chars.flatMap escapeChar = chars ↔ ∀ c ∈ chars, c ∉ special := by
    intro chars
    induction chars with
    | nil => simp
    | cons c rest ih =>
      rw [flatMap_cons, forall_mem_cons, ← ih]
      constructor
      · intro same
        have lengths := congrArg length same
        have one := length_pos_iff.mpr (escapeChar_ne_nil c)
        have later := grows rest
        simp only [length_append, length_cons] at lengths
        have plain := (escapeChar_length c).mp (by omega)
        refine ⟨plain, ?_⟩
        have single := length_eq_one_iff.mp ((escapeChar_length c).mpr plain)
        obtain ⟨d, single⟩ := single
        rw [single] at same
        exact (cons.inj same).2
      · intro both
        have plain : escapeChar c = [c] := by
          have outside := both.1
          simp only [special, mem_cons, not_mem_nil, or_false, not_or] at outside
          simp [escapeChar, outside]
        rw [plain, both.2, singleton_append]
  rw [escape, ← kept text.toList]
  constructor
  · intro same
    have chars := congrArg String.toList same
    rwa [String.toList_ofList] at chars
  · intro same
    rw [same, String.ofList_toList]

end Text

section Tags

variable {attributes : Attributes} {tag : String}

theorem readAttributes_key {chars : List Char} (plain : ∀ c ∈ chars, c ≠ '"') (pending rest : List Char) :
    readAttributes none pending (chars ++ rest) = readAttributes none (chars.reverse ++ pending) rest := by
  induction chars generalizing pending with
  | nil => rfl
  | cons c later ih =>
    rw [List.cons_append, readAttributes, if_neg (plain c (by simp)), ih fun d member => plain d (by simp [member]),
      List.reverse_cons, List.append_assoc, List.singleton_append]

theorem readAttributes_value {chars : List Char} (plain : ∀ c ∈ chars, c ≠ '"') (key pending rest : List Char) :
    readAttributes (some key) pending (chars ++ rest) = readAttributes (some key) (chars.reverse ++ pending) rest := by
  induction chars generalizing pending with
  | nil => rfl
  | cons c later ih =>
    rw [cons_append, readAttributes, if_neg (plain c (by simp)), ih fun d member => plain d (by simp [member]),
      reverse_cons, append_assoc, singleton_append]

theorem Word.plain {text : String} (word : Word text) :
    ∀ c ∈ text.toList, c ∉ ['<', '>', '"', ' ', '/', '?', '!', '='] := by
  intro c member special
  have letter := List.all_eq_true.mp word.2 c member
  have specials : ['<', '>', '"', ' ', '/', '?', '!', '='].all (fun d => !d.isAlphanum) = true := by decide
  have other := all_eq_true.mp specials c special
  rw [letter] at other
  cases other

theorem readAttributes_attributesText (named : ∀ pair ∈ attributes, Word pair.1 ∧ Quotable pair.2) :
    readAttributes none [] (attributesText attributes) = some attributes := by
  induction attributes with
  | nil => rfl
  | cons pair later ih =>
    obtain ⟨key, value⟩ := pair
    obtain ⟨word, quotable⟩ := named (key, value) (by simp)
    have keyPlain : ∀ c ∈ ' ' :: (key.toList ++ ['=']), c ≠ '"' := by
      intro c member
      have letters := word.plain c
      aesop
    have written : attributesText ((key, value) :: later) =
        (' ' :: (key.toList ++ ['='])) ++ ('"' :: (value.toList ++ ('"' :: attributesText later))) := by
      simp [attributesText]
    have stripped : (((' ' :: (key.toList ++ ['='])).reverse ++ []).drop 1).reverse.drop 1 = key.toList := by simp
    rw [written, readAttributes_key keyPlain, readAttributes, if_pos rfl, stripped,
      readAttributes_value (fun c member => (quotable_iff.mp quotable c member).2.2), readAttributes, if_pos rfl,
      ih fun other member => named other (List.mem_cons_of_mem _ member), List.append_nil, List.reverse_reverse,
      String.ofList_toList, String.ofList_toList, Option.map_some]

theorem readElement_text (build : String → Attributes → Event) (named : Named tag attributes) :
    readElement build (tag.toList ++ attributesText attributes) = some (build tag attributes) := by
  have letters : ∀ c ∈ tag.toList, decide (c ≠ ' ') = true := by
    intro c member
    have plain := named.1.plain c member
    simp only [List.mem_cons, not_or] at plain
    simp [plain]
  have attributed : attributesText attributes = [] ∨ ∃ rest, attributesText attributes = ' ' :: rest := by
    cases attributes with
    | nil => exact .inl rfl
    | cons pair later => exact .inr ⟨_, rfl⟩
  have taken : (tag.toList ++ attributesText attributes).takeWhile (· ≠ ' ') = tag.toList := by
    rw [List.takeWhile_append_of_pos letters]
    rcases attributed with none | ⟨rest, starts⟩
    · rw [none]
      simp
    · rw [starts]
      simp
  have dropped : (tag.toList ++ attributesText attributes).dropWhile (· ≠ ' ') = attributesText attributes := by
    rw [List.dropWhile_append_of_pos letters]
    rcases attributed with none | ⟨rest, starts⟩
    · rw [none]
      simp
    · rw [starts]
      simp
  rw [readElement, taken, dropped, readAttributes_attributesText named.2, String.ofList_toList, Option.map_some]

theorem readTag_element (word : Word tag) (rest : List Char) :
    readTag (tag.toList ++ rest) =
      if (tag.toList ++ rest).getLast? = some '/' then readElement .empty (tag.toList ++ rest).dropLast
      else readElement .start (tag.toList ++ rest) := by
  cases chars : tag.toList with
  | nil => exact absurd chars word.1
  | cons c later =>
    have plain := word.plain c (by simp [chars])
    simp only [List.mem_cons, not_or] at plain
    rw [List.cons_append, readTag]
    · intro name equal
      simp_all
    · intro name equal
      simp_all
    · intro name equal
      simp_all

theorem last_attributesText (named : Named tag attributes) :
    (tag.toList ++ attributesText attributes).getLast? ≠ some '/' := by
  rcases List.eq_nil_or_concat attributes with rfl | ⟨before, pair, rfl⟩
  · intro last
    have member := List.mem_of_getLast? last
    simp only [attributesText, List.flatMap_nil, List.append_nil] at member
    exact absurd (by simp) (named.1.plain '/' member)
  · have ends : ∃ front, tag.toList ++ attributesText (before.concat pair) = front ++ ['"'] :=
      ⟨tag.toList ++ attributesText before ++ (' ' :: (pair.1.toList ++ '=' :: '"' :: pair.2.toList)), by
        simp [attributesText]⟩
    obtain ⟨front, ends⟩ := ends
    rw [ends, List.getLast?_concat]
    decide

def Plain : Event → Prop
  | .start tag attributes => Named tag attributes
  | .close tag => Word tag
  | .empty tag attributes => Named tag attributes
  | .misc content => '>' ∉ content.toList
  | .cdata _ => False
  | .text _ => True

def isText : Event → Bool
  | .text _ => true
  | _ => false

theorem readTag_tagText {event : Event} (plain : Plain event) (tag : isText event = false) :
    readTag (tagText event) = some event := by
  cases event with
  | start name attributes =>
    have named : Named name attributes := plain
    rw [tagText, readTag_element named.1, if_neg (last_attributesText named), readElement_text _ named]
  | empty name attributes =>
    have named : Named name attributes := plain
    rw [tagText, List.append_assoc, readTag_element named.1, ← List.append_assoc, if_pos (by simp), List.dropLast_concat,
      readElement_text _ named]
  | close | misc => simp [tagText, readTag]
  | cdata content => exact False.elim plain
  | text content => cases tag

theorem tagText_closed {event : Event} (plain : Plain event) : '>' ∉ tagText event := by
  have attributed : ∀ attributes : Attributes, (∀ pair ∈ attributes, Word pair.1 ∧ Quotable pair.2) →
      '>' ∉ attributesText attributes := by
    intro attributes named inside
    obtain ⟨pair, member, inside⟩ := List.mem_flatMap.mp inside
    obtain ⟨word, quotable⟩ := named pair member
    have key : '>' ∉ pair.1.toList := fun among => absurd (by simp) (word.plain '>' among)
    have value : '>' ∉ pair.2.toList := fun among => (quotable_iff.mp quotable '>' among).2.1 rfl
    simp [key, value] at inside
  have worded : ∀ {name : String}, Word name → '>' ∉ name.toList :=
    fun word among => absurd (by simp) (word.plain '>' among)
  cases event with
  | start name attributes | empty name attributes =>
    have named : Named name attributes := plain
    simp [tagText, worded named.1, attributed attributes named.2]
  | close name =>
    have word : Word name := plain
    simp [tagText, worded word]
  | misc content =>
    have inside : '>' ∉ content.toList := plain
    simp [tagText, inside]
  | cdata content => exact False.elim plain
  | text content => simp [tagText]

end Tags

section Document

variable {elements : List Event}

theorem pieces_text {chars : List Char} (plain : ∀ c ∈ chars, c ≠ '<') (pending rest : List Char) :
    pieces false pending (chars ++ rest) = pieces false (chars.reverse ++ pending) rest := by
  induction chars generalizing pending with
  | nil => rfl
  | cons c later ih =>
    rw [List.cons_append, pieces, if_neg (plain c (by simp)), ih fun d member => plain d (by simp [member]),
      List.reverse_cons, List.append_assoc, List.singleton_append]

theorem pieces_tag {chars : List Char} (closed : '>' ∉ chars) (pending rest : List Char) :
    pieces true pending (chars ++ '>' :: rest) = .tag (pending.reverse ++ chars) :: pieces false [] rest := by
  induction chars generalizing pending with
  | nil => rw [List.nil_append, pieces, if_pos rfl, List.append_nil]
  | cons c later ih =>
    rw [List.mem_cons, not_or] at closed
    rw [List.cons_append, pieces, if_neg (Ne.symm closed.1), ih closed.2, List.reverse_cons, List.append_assoc,
      List.singleton_append]

def Separated : Bool → List Event → Prop
  | _, [] => True
  | texted, event :: rest => (isText event = true → texted = false) ∧ Separated (isText event) rest

def piecesOf : List Event → List Piece
  | [] => []
  | .text content :: rest => flush (escape content).toList.reverse (piecesOf rest)
  | event :: rest => .tag (tagText event) :: piecesOf rest

theorem piecesOf_tag {event : Event} (tag : isText event = false) (rest : List Event) :
    piecesOf (event :: rest) = .tag (tagText event) :: piecesOf rest := by
  cases event with
  | text content => cases tag
  | _ => rfl

theorem eventText_tag {event : Event} (tag : isText event = false) :
    eventText event = '<' :: (tagText event ++ ['>']) := by
  cases event with
  | text content => cases tag
  | _ => rfl

theorem pieces_document {events : List Event} {texted : Bool} {pending : List Char} (plain : ∀ event ∈ events, Plain event)
    (separated : Separated texted events) (held : texted = false → pending = []) :
    pieces false pending (events.flatMap eventText) = flush pending (piecesOf events) := by
  induction events generalizing texted pending with
  | nil => rw [List.flatMap_nil, pieces, piecesOf]
  | cons event rest ih =>
    obtain ⟨apart, later⟩ := separated
    have plainLater : ∀ event ∈ rest, Plain event := fun other member => plain other (List.mem_cons_of_mem _ member)
    rw [List.flatMap_cons]
    cases kind : isText event with
    | true =>
      obtain ⟨content, rfl⟩ : ∃ content, event = .text content := by
        cases event with
        | text content => exact ⟨content, rfl⟩
        | _ => cases kind
      rw [kind] at later
      have free : ∀ c ∈ (escape content).toList, c ≠ '<' := fun c member => (quotable_iff.mp (escape_quotable content) c member).1
      obtain rfl := held (apart kind)
      rw [eventText, pieces_text free, List.append_nil, ih plainLater later (by simp), piecesOf, flush.eq_def [] _,
        if_pos rfl]
    | false =>
      rw [kind] at later
      rw [eventText_tag kind, List.cons_append, pieces, if_pos rfl, List.append_assoc, List.singleton_append,
        pieces_tag (tagText_closed (plain event (by simp))), ih plainLater later (fun _ => rfl), piecesOf_tag kind,
        flush.eq_def [] _, if_pos rfl]
      rfl

theorem readPieces_document {events : List Event} (plain : ∀ event ∈ events, Plain event) :
    (readPieces (piecesOf events)).events.map (·.event) = visible events ∧
      (readPieces (piecesOf events)).failure = none := by
  induction events with
  | nil => exact ⟨rfl, rfl⟩
  | cons event rest ih =>
    obtain ⟨events, complete⟩ := ih fun other member => plain other (List.mem_cons_of_mem _ member)
    cases kind : isText event with
    | true =>
      obtain ⟨content, rfl⟩ : ∃ content, event = .text content := by
        cases event with
        | text content => exact ⟨content, rfl⟩
        | _ => cases kind
      rw [piecesOf, flush]
      split
      · rename_i empty
        have none : content = "" := escape_eq_nil (List.reverse_eq_nil_iff.mp empty)
        subst none
        exact ⟨by rw [events]; simp [visible], complete⟩
      · rename_i some
        have shown : content ≠ "" := by
          rintro rfl
          exact some rfl
        have read : unescapeFrom none (escape content).toList = Option.some content.toList := by
          rw [escape, String.toList_ofList, unescapeFrom_escape]
        rw [List.reverse_reverse]
        simp only [readPieces, readPiece, read, Option.map_some, List.map_cons, String.ofList_toList, events, complete,
          and_true]
        simp [visible, shown]
    | false =>
      have read := readTag_tagText (plain event (by simp)) kind
      have shown : event ≠ .text "" := by
        rintro rfl
        cases kind
      rw [piecesOf_tag kind]
      simp only [readPieces, readPiece, read, Option.map_some, map_cons, events, complete, and_true]
      simp [visible, shown]

theorem layout_plain (nested : Elements elements) (width : Nat) :
    ∀ event ∈ layout width true elements, Plain event := by
  have breaks : ∀ width, ∀ event ∈ lineBreak true width, Plain event := by
    intro width event member
    rw [lineBreak, if_pos rfl, mem_singleton] at member
    subst member
    exact True.intro
  induction nested generalizing width with
  | nil => simp [layout]
  | leaf tag attributes content named _ ih =>
    simp only [layout, forall_mem_append, forall_mem_cons, Nat.add_sub_cancel]
    exact ⟨breaks _, named, True.intro, by simp [lineBreak], named.1, ih width⟩
  | empty tag attributes named _ ih =>
    simp only [layout, forall_mem_append, forall_mem_cons]
    exact ⟨breaks _, named, ih width⟩
  | node tag attributes named nested _ inside later =>
    simp only [layout, layout_append nested, forall_mem_append, forall_mem_cons, Nat.add_sub_cancel]
    exact ⟨breaks _, named, inside _, breaks _, named.1, later width⟩

theorem layout_separated (nested : Elements elements) (width : Nat) {rest : List Event} (apart : Separated false rest) :
    Separated false (layout width true elements ++ rest) := by
  induction nested generalizing width rest with
  | nil => exact apart
  | leaf tag attributes content _ _ ih =>
    have later := ih width apart
    simpa [layout, lineBreak, Separated, isText] using later
  | empty tag attributes _ _ ih =>
    have later := ih width apart
    simpa [layout, lineBreak, Separated, isText] using later
  | @node tag attributes body siblings _ nested _ inside later =>
    have closed : Separated false
        (Event.text (indentation width) :: .close tag :: (layout width true siblings ++ rest)) := by
      have continued := later width apart
      simpa [Separated, isText] using continued
    have opened := inside (width + 2) closed
    simpa [layout, layout_append nested, lineBreak, Separated, isText] using opened

theorem readBytes_writeBytes {content : String} (declared : '>' ∉ content.toList) (nested : Elements elements) :
    (readBytes (writeBytes (.misc content :: elements))).events.map (·.event) =
        visible (layout 0 false (.misc content :: elements)) ∧
      (readBytes (writeBytes (.misc content :: elements))).failure = none := by
  have lines : layout 0 false (.misc content :: elements) = .misc content :: layout 0 true elements := rfl
  have plain : ∀ event ∈ layout 0 false (.misc content :: elements), Plain event := by
    rw [lines, forall_mem_cons]
    exact ⟨declared, layout_plain nested 0⟩
  have separated : Separated false (layout 0 false (.misc content :: elements)) := by
    have body := layout_separated nested 0 (show Separated false [] from True.intro)
    rw [append_nil] at body
    rw [lines, Separated]
    exact ⟨nofun, body⟩
  have decoded : (ByteArray.mk (writeBytes (.misc content :: elements)).toArray).utf8Decode? =
      some ((layout 0 false (.misc content :: elements)).flatMap eventText).toArray := by
    rw [writeBytes, Array.toArray_toList, String.toByteArray_ofList]
    exact utf8Decode?_utf8Encode
  have split := pieces_document plain separated (fun _ => Eq.refl [])
  rw [flush, if_pos rfl] at split
  simp only [readBytes, decoded, split]
  exact readPieces_document plain

end Document

end TapeRs.Xml

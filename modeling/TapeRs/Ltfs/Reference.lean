import Mathlib.Algebra.Group.Nat.Defs
import TapeRs.Data.XmlText
import TapeRs.Ltfs.IndexWriter
import TapeRs.Ltfs.Tree

namespace TapeRs

open Ltfs Xml Elements List

section UuidText

def nibbles : Nat → Nat → List Nat
  | 0, _ => []
  | count + 1, value => nibbles count (value / 16) ++ [value % 16]

def hyphenate : List Nat → List Char → List Char
  | [], digits => digits
  | size :: sizes, digits => digits.take size ++ '-' :: hyphenate sizes (digits.drop size)

def hyphenated (uuid : Uuid) : String :=
  String.ofList (hyphenate [8, 4, 4, 4] ((nibbles 32 uuid.toNat).map Nat.digitChar))

def hexValue (c : Char) : Option Nat :=
  (List.range 16).find? fun value => value.digitChar = c

def parseHyphenated (text : String) : Option Uuid :=
  let digits := text.toList.filter (· ≠ '-')
  if digits.length = 32 then
    (digits.mapM hexValue).map fun values => BitVec.ofNat 128 (values.foldl (fun value digit => 16 * value + digit) 0)
  else none

theorem nibbles_length (count value : Nat) : (nibbles count value).length = count := by
  induction count generalizing value with
  | zero => rfl
  | succ count ih => rw [nibbles, length_append, ih, length_singleton]

theorem nibbles_lt (count value : Nat) : ∀ digit ∈ nibbles count value, digit < 16 := by
  induction count generalizing value with
  | zero => simp [nibbles]
  | succ count ih =>
    intro digit member
    rw [nibbles, mem_append, mem_singleton] at member
    rcases member with higher | rfl
    · exact ih _ digit higher
    · omega

theorem foldl_nibbles (count value : Nat) :
    (nibbles count value).foldl (fun value digit => 16 * value + digit) 0 = value % 16 ^ count := by
  induction count generalizing value with
  | zero => simp [nibbles, Nat.mod_one]
  | succ count ih =>
    rw [nibbles, foldl_append, ih, foldl_cons, foldl_nil, Nat.pow_succ, Nat.mul_comm (16 ^ count) 16,
      Nat.mod_mul]
    omega

theorem digitChar_facts : ∀ digit < 16, Nat.digitChar digit ≠ '-' ∧ hexValue (Nat.digitChar digit) = some digit ∧
    Text.isWhitespace (Nat.digitChar digit) = false := by
  decide

theorem mapM_hexValue {digits : List Nat} (small : ∀ digit ∈ digits, digit < 16) :
    (digits.map Nat.digitChar).mapM hexValue = some digits := by
  induction digits with
  | nil => rfl
  | cons digit rest ih =>
    rw [map_cons, mapM_cons, (digitChar_facts digit (small digit (by simp))).2.1,
      ih fun other member => small other (mem_cons_of_mem _ member)]
    rfl

theorem filter_hyphenate (sizes : List Nat) (digits : List Char) :
    (hyphenate sizes digits).filter (· ≠ '-') = digits.filter (· ≠ '-') := by
  induction sizes generalizing digits with
  | nil => rfl
  | cons size sizes ih =>
    rw [hyphenate, filter_append, filter_cons_of_neg (by simp), ih, ← filter_append,
      take_append_drop]

theorem hyphenated_digits (uuid : Uuid) :
    (hyphenated uuid).toList.filter (· ≠ '-') = (nibbles 32 uuid.toNat).map Nat.digitChar := by
  rw [hyphenated, String.toList_ofList, filter_hyphenate, filter_eq_self]
  intro c member
  obtain ⟨digit, inside, rfl⟩ := mem_map.mp member
  have solid := (digitChar_facts digit (nibbles_lt 32 _ digit inside)).1
  exact decide_eq_true solid

theorem trim_hyphenated (uuid : Uuid) : Text.Trimmed (hyphenated uuid) := by
  apply Text.trim_of_no_whitespace
  intro c member
  by_cases hyphen : c = '-'
  · subst hyphen
    decide
  have digit : c ∈ (hyphenated uuid).toList.filter (· ≠ '-') :=
    mem_filter.mpr ⟨member, decide_eq_true hyphen⟩
  rw [hyphenated_digits] at digit
  obtain ⟨value, inside, rfl⟩ := mem_map.mp digit
  exact (digitChar_facts value (nibbles_lt 32 _ value inside)).2.2

theorem parseHyphenated_hyphenated (uuid : Uuid) : parseHyphenated (hyphenated uuid) = some uuid := by
  have bound : uuid.toNat % 16 ^ 32 = uuid.toNat := Nat.mod_eq_of_lt uuid.isLt
  rw [parseHyphenated, hyphenated_digits, if_pos (by rw [length_map, nibbles_length]),
    mapM_hexValue (nibbles_lt 32 _), Option.map_some, foldl_nibbles, bound, BitVec.ofNat_toNat, BitVec.setWidth_eq]

end UuidText

namespace Ltfs.IndexWriter

section Nesting

variable {tag : String}

theorem elements_text (word : Word tag) (text : String) : Elements (writeText tag text) := by
  unfold writeText
  split
  · exact .leaf tag _ _ ⟨word, by decide⟩ .nil
  · exact .leaf tag [] text ⟨word, by simp⟩ .nil

theorem elements_around (word : Word tag) {body : List Event} (inside : Elements body) :
    Elements (.start tag [] :: (body ++ [.close tag])) :=
  .node tag [] ⟨word, by simp⟩ inside .nil

theorem elements_if {condition : Prop} [Decidable condition] {body : List Event} (inside : Elements body) :
    Elements (if condition then body else []) := by
  split
  · exact inside
  · exact .nil

theorem elements_location (word : Word tag) (place : IndexLocation) : Elements (writeLocation tag place) := by
  unfold writeLocation
  exact elements_around word ((elements_text (by decide) _).append (elements_text (by decide) _))

theorem elements_meta (nodeMeta : NodeMeta) (fields : Fields) : Elements (writeMeta nodeMeta fields) := by
  unfold writeMeta
  repeat' apply append
  all_goals exact elements_if (elements_text (by decide) _)

theorem elements_xattr (xattr : Xattr) : Elements (writeXattr xattr) := by
  have attributes : ∀ base64 : Bool, Named "value" (if base64 then [("type", "base64")] else []) := by decide
  unfold writeXattr
  apply elements_around (by decide)
  apply (elements_text (by decide) _).append
  split
  · exact .empty _ _ (attributes _) .nil
  · exact .leaf _ _ _ (attributes _) .nil

theorem elements_nodeXattrs (xattrs : List Xattr) (fields : Fields) (incremental : Bool) :
    Elements (writeNodeXattrs xattrs fields incremental) := by
  unfold writeNodeXattrs writeXattrs
  apply elements_if
  apply append
  · split
    · exact .nil
    · exact elements_around (by decide) (.flatMap elements_xattr xattrs)
  · exact elements_if (.empty _ _ (by decide) .nil)

theorem elements_extent (extent : Extent) : Elements (writeExtent extent) := by
  unfold writeExtent
  apply elements_around (by decide)
  repeat' apply append
  all_goals exact elements_text (by decide) _

theorem elements_payload (file : FileNode) : Elements (writePayload file) := by
  unfold writePayload
  split
  · exact elements_text (by decide) _
  · exact elements_if (elements_around (by decide) (.flatMap elements_extent _))

theorem elements_file (file : FileNode) (incremental : Bool) : Elements (writeFile file incremental) := by
  unfold writeFile
  apply elements_around (by decide)
  apply (elements_text (by decide) _).append
  split
  · exact .empty _ _ (by decide) .nil
  apply append _ (elements_payload file)
  apply append
  · apply append _ (elements_nodeXattrs _ _ _)
    exact (elements_if (elements_text (by decide) _)).append (elements_meta _ _)
  · split
    · exact elements_if (elements_text (by decide) _)
    · exact .nil

theorem elements_directory (dir : DirectoryNode) (incremental : Bool) : Elements (writeDirectory dir incremental) := by
  induction dir using DirectoryNode.inductionOn with
  | node dir ih =>
    have children : ∀ dirs : List DirectoryNode, (∀ child ∈ dirs, Elements (writeDirectory child incremental)) →
        Elements (writeDirectories dirs incremental) := by
      intro dirs each
      induction dirs with
      | nil => exact .nil
      | cons child rest tail =>
        rw [writeDirectories]
        exact (each child (by simp)).append (tail fun other member => each other (mem_cons_of_mem _ member))
    have below := children dir.subdirs ih
    cases dir with
    | mk deltaFields name nodeMeta files subdirs xattrs =>
      rw [writeDirectory]
      apply elements_around (by decide)
      apply (elements_text (by decide) _).append
      split
      · exact .empty _ _ (by decide) .nil
      · apply ((elements_meta _ _).append (elements_nodeXattrs _ _ _)).append
        exact elements_around (by decide) ((flatMap (elements_file · incremental) files).append below)

theorem elements_optional {α : Type} (value : Option α) {write : α → List Event} (each : ∀ x, Elements (write x)) :
    Elements (writeOptional value write) := by
  unfold writeOptional
  split
  · exact each _
  · exact .nil

theorem elements_header (crates : Crates) (index : LtfsIndex) : Elements (writeHeader crates index) := by
  have optional : ∀ {tag : String}, Word tag → ∀ value : Option String, Elements (writeOptional value (writeText tag)) :=
    fun word value => elements_optional value (elements_text word)
  have place : ∀ {tag : String}, Word tag → ∀ value, Elements (writeOptional value (writeLocation tag)) :=
    fun word value => elements_optional value (elements_location word)
  have policy : Elements (if index.incremental then [] else writeBool "allowpolicyupdate" index.allowPolicyUpdate) := by
    split
    · exact .nil
    · exact elements_text (by decide) _
  unfold writeHeader
  exact (((((((((elements_text (by decide) _ |>.append (optional (by decide) _)).append
    (elements_text (by decide) _)).append (elements_text (by decide) _)).append (elements_text (by decide) _)).append
    (elements_location (by decide) _)).append (place (by decide) _)).append (place (by decide) _)).append
    policy).append (optional (by decide) _)).append (elements_text (by decide) _)

theorem elements_document (crates : Crates) (index : LtfsIndex) :
    ∃ elements, Elements elements ∧ document crates index = declaration :: elements := by
  have root : Word (rootName index.incremental) := by
    unfold rootName
    split <;> decide
  have named : Named (rootName index.incremental) [("version", escape index.version)] := by
    refine ⟨root, fun pair member => ?_⟩
    rw [mem_singleton] at member
    subst member
    exact ⟨show Word "version" by decide, escape_quotable index.version⟩
  exact ⟨_, .node _ _ named ((elements_header crates index).append (elements_directory _ _)) .nil, rfl⟩

end Nesting

end Ltfs.IndexWriter

namespace Crates

/-- What the volume code relies on in its crates: indexes are read back as written, and identifiers as well. -/
structure Faithful (crates : Crates) : Prop where
  rereads : ∀ index, crates.Rereads (IndexWriter.document crates index)
  uuid : crates.UuidText

def reference : Crates :=
  { xmlWrite := writeBytes, xmlRead := readBytes, uuidToString := hyphenated, uuidParse := parseHyphenated }

theorem reference_faithful : reference.Faithful := by
  constructor
  · intro index
    obtain ⟨elements, nested, document⟩ := IndexWriter.elements_document reference index
    have closed : '>' ∉ "xml version=\"1.0\" encoding=\"UTF-8\"".toList := by decide
    obtain ⟨events, complete⟩ := readBytes_writeBytes closed nested
    rw [document]
    exact ⟨events, complete⟩
  · constructor
    · intro uuid
      show Text.Trimmed (hyphenated uuid)
      exact trim_hyphenated uuid
    · intro uuid
      simp only [reference]
      rw [parseHyphenated_hyphenated uuid]

end Crates

end TapeRs

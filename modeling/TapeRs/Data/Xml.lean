import Mathlib.Data.List.Basic

namespace TapeRs.Xml

abbrev Attributes := List (String × String)

/-- What a pull parser hands out; text is already unescaped. -/
inductive Event where
  | start (tag : String) (attributes : Attributes)
  | close (tag : String)
  | empty (tag : String) (attributes : Attributes)
  | text (content : String)
  | cdata (content : String)
  /-- Declarations, comments and processing instructions. -/
  | misc (content : String)
deriving DecidableEq, Repr

/-- An event as read: `size` bytes between its delimiters, `consumed` bytes altogether. -/
structure ReadEvent where
  event : Event
  size : Nat
  consumed : Nat
deriving DecidableEq, Repr

/-- The events up to the end of the input or to the first error. -/
structure ReadResult where
  events : List ReadEvent
  failure : Option String
deriving DecidableEq, Repr

def escapeChar (c : Char) : List Char :=
  if c = '<' then "&lt;".toList
  else if c = '>' then "&gt;".toList
  else if c = '&' then "&amp;".toList
  else if c = '\'' then "&apos;".toList
  else if c = '"' then "&quot;".toList
  else [c]

def escape (text : String) : String :=
  String.ofList (text.toList.flatMap escapeChar)

def indentation (width : Nat) : String :=
  String.ofList ('\n' :: List.replicate width ' ')

def lineBreak (breaks : Bool) (width : Nat) : List Event :=
  if breaks then [.text (indentation width)] else []

/-- What an indenting writer puts on the page: a line break before each tag that does not follow text. -/
def layout : Nat → Bool → List Event → List Event
  | _, _, [] => []
  | width, breaks, .start tag attributes :: rest =>
    lineBreak breaks width ++ .start tag attributes :: layout (width + 2) true rest
  | width, breaks, .close tag :: rest =>
    lineBreak breaks (width - 2) ++ .close tag :: layout (width - 2) true rest
  | width, breaks, .empty tag attributes :: rest =>
    lineBreak breaks width ++ .empty tag attributes :: layout width true rest
  | width, breaks, .misc content :: rest => lineBreak breaks width ++ .misc content :: layout width true rest
  | width, _, .text content :: rest => .text content :: layout width false rest
  | width, _, .cdata content :: rest => .cdata content :: layout width false rest

def visible (events : List Event) : List Event :=
  events.filter (· ≠ .text "")

def Word (text : String) : Prop := text.toList ≠ [] ∧ text.toList.all Char.isAlphanum = true

instance (text : String) : Decidable (Word text) := inferInstanceAs (Decidable (_ ∧ _))

def Quotable (text : String) : Prop := text.toList.all (fun c => c ≠ '<' && c ≠ '>' && c ≠ '"') = true

instance (text : String) : Decidable (Quotable text) := inferInstanceAs (Decidable (_ = _))

def Named (tag : String) (attributes : Attributes) : Prop :=
  Word tag ∧ ∀ pair ∈ attributes, Word pair.1 ∧ Quotable pair.2

instance (tag : String) (attributes : Attributes) : Decidable (Named tag attributes) :=
  inferInstanceAs (Decidable (_ ∧ ∀ pair ∈ attributes, _))

/-- Well-nested content: elements that hold text, nothing, or further elements. -/
inductive Elements : List Event → Prop
  | nil : Elements []
  | leaf (tag : String) (attributes : Attributes) (content : String) {rest : List Event} (named : Named tag attributes)
      (later : Elements rest) : Elements (.start tag attributes :: .text content :: .close tag :: rest)
  | empty (tag : String) (attributes : Attributes) {rest : List Event} (named : Named tag attributes)
      (later : Elements rest) : Elements (.empty tag attributes :: rest)
  | node (tag : String) (attributes : Attributes) {body rest : List Event} (named : Named tag attributes)
      (inside : Elements body) (later : Elements rest) :
      Elements (.start tag attributes :: (body ++ .close tag :: rest))

theorem Elements.append {left right : List Event} (first : Elements left) (second : Elements right) :
    Elements (left ++ right) := by
  induction first with
  | nil => exact second
  | leaf tag attributes content named _ ih => exact .leaf tag attributes content named ih
  | empty tag attributes named _ ih => exact .empty tag attributes named ih
  | node tag attributes named inside _ _ ih =>
    have assembled := Elements.node tag attributes named inside ih
    simpa [List.append_assoc] using assembled

theorem Elements.flatMap {α : Type} {f : α → List Event} (each : ∀ x, Elements (f x)) (xs : List α) :
    Elements (xs.flatMap f) := by
  induction xs with
  | nil => exact .nil
  | cons x rest ih =>
    rw [List.flatMap_cons]
    exact (each x).append ih

theorem layout_append {left : List Event} (elements : Elements left) (width : Nat) (right : List Event) :
    layout width true (left ++ right) = layout width true left ++ layout width true right := by
  induction elements generalizing width right with
  | nil => rfl
  | leaf tag attributes content _ _ ih =>
    simp only [List.cons_append, layout, lineBreak, Nat.add_sub_cancel, ih, List.append_assoc]
  | empty tag attributes _ _ ih => simp only [List.cons_append, layout, ih, List.append_assoc]
  | node tag attributes _ _ _ inside later =>
    simp only [List.cons_append, List.append_assoc, layout, inside, Nat.add_sub_cancel, later]

end TapeRs.Xml

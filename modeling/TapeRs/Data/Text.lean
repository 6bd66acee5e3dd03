import Mathlib.Data.List.Basic

namespace TapeRs.Text

open List

def isWhitespace (c : Char) : Bool :=
  (0x09 ≤ c.toNat && c.toNat ≤ 0x0D) || c.toNat = 0x20 || c.toNat = 0x85 || c.toNat = 0xA0 || c.toNat = 0x1680 ||
    (0x2000 ≤ c.toNat && c.toNat ≤ 0x200A) || c.toNat = 0x2028 || c.toNat = 0x2029 || c.toNat = 0x202F ||
    c.toNat = 0x205F || c.toNat = 0x3000

def trim (text : String) : String :=
  String.ofList ((text.toList.dropWhile isWhitespace).reverse.dropWhile isWhitespace).reverse

def Trimmed (text : String) : Prop := trim text = text

instance (text : String) : Decidable (Trimmed text) := inferInstanceAs (Decidable (_ = _))

def parseDigits (bound : Nat) (digits : List Char) : Option Nat :=
  if digits ≠ [] ∧ digits.all Char.isDigit ∧ Nat.ofDigitChars 10 digits 0 < bound then
    some (Nat.ofDigitChars 10 digits 0)
  else none

def parseU64 (text : String) : Option UInt64 :=
  match text.toList with
  | '+' :: digits => (parseDigits UInt64.size digits).map UInt64.ofNat
  | digits => (parseDigits UInt64.size digits).map UInt64.ofNat

def decimal (value : UInt64) : String :=
  String.ofList (Nat.toDigits 10 value.toNat)

def asciiLetter (text : String) : Option Char :=
  match text.toList with
  | [c] => if c.isAlpha then some c else none
  | _ => none

def isAsciiControl (c : Char) : Bool :=
  c.toNat < 0x20 || c.toNat = 0x7F

def components (path : String) : List String :=
  ((path.toList.splitOn '/').filter (fun piece => !piece.isEmpty)).map String.ofList

theorem splitOnP_pieces {α : Type} (p : α → Bool) (items : List α) :
    ∀ piece ∈ items.splitOnP p, ∀ item ∈ piece, p item = false := by
  induction items with
  | nil => simp
  | cons head rest ih =>
    intro piece member item inside
    rw [splitOnP_cons_eq_if_modifyHead] at member
    by_cases cut : p head = true
    · rw [if_pos cut] at member
      rcases mem_cons.mp member with rfl | later
      · cases inside
      · exact ih piece later item inside
    · rw [if_neg cut] at member
      cases pieces : rest.splitOnP p with
      | nil =>
        rw [pieces] at member
        cases member
      | cons first others =>
        rw [pieces, modifyHead_cons] at member
        rw [pieces] at ih
        rcases mem_cons.mp member with rfl | later
        · rcases mem_cons.mp inside with rfl | inside
          · simpa using cut
          · exact ih first (by simp) item inside
        · exact ih piece (mem_cons_of_mem _ later) item inside

theorem components_solid {path part : String} (member : part ∈ components path) :
    part.isEmpty = false ∧ '/' ∉ part.toList := by
  obtain ⟨piece, kept, rfl⟩ := mem_map.mp member
  obtain ⟨split, nonempty⟩ := mem_filter.mp kept
  rw [String.toList_ofList]
  constructor
  · cases piece with
    | nil => simp at nonempty
    | cons head tail => simp
  · intro slash
    have other := splitOnP_pieces (fun x => x == '/') path.toList piece split '/' slash
    simp at other

theorem trim_of_no_whitespace {text : String} (solid : ∀ c ∈ text.toList, isWhitespace c = false) :
    trim text = text := by
  have keep : ∀ chars : List Char, (∀ c ∈ chars, isWhitespace c = false) → chars.dropWhile isWhitespace = chars := by
    intro chars all
    cases chars with
    | nil => rfl
    | cons head tail => rw [dropWhile_cons_of_neg (by simp [all head (by simp)])]
  unfold trim
  rw [keep _ solid, keep _ (fun c member => solid c (mem_reverse.mp member)), reverse_reverse,
    String.ofList_toList]

theorem isWhitespace_of_isDigit {c : Char} (digit : c.isDigit = true) : isWhitespace c = false := by
  simp only [Char.isDigit, Bool.and_eq_true, decide_eq_true_eq] at digit
  have low : 48 ≤ c.toNat := digit.1
  have high : c.toNat ≤ 57 := digit.2
  simp only [isWhitespace, Bool.or_eq_false_iff, Bool.and_eq_false_iff, decide_eq_false_iff_not]
  omega

theorem isWhitespace_of_isAlpha {c : Char} (letter : c.isAlpha = true) : isWhitespace c = false := by
  have either : (c.isUpper || c.isLower) = true := letter
  rw [Bool.or_eq_true] at either
  have range : (65 ≤ c.toNat ∧ c.toNat ≤ 90) ∨ (97 ≤ c.toNat ∧ c.toNat ≤ 122) := by
    rcases either with upper | lower
    · exact .inl (of_decide_eq_true upper)
    · have bounds : (decide (c.val ≥ 97) && decide (c.val ≤ 122)) = true := lower
      rw [Bool.and_eq_true, decide_eq_true_eq, decide_eq_true_eq] at bounds
      exact .inr bounds
  simp only [isWhitespace, Bool.or_eq_false_iff, Bool.and_eq_false_iff, decide_eq_false_iff_not]
  omega

theorem decimal_digits (value : UInt64) : ∀ c ∈ (decimal value).toList, c.isDigit = true := by
  intro c member
  rw [decimal, String.toList_ofList] at member
  exact Nat.isDigit_of_mem_toDigits (by decide) (by decide) member

theorem trim_decimal (value : UInt64) : trim (decimal value) = decimal value :=
  trim_of_no_whitespace fun c member => isWhitespace_of_isDigit (decimal_digits value c member)

theorem parseU64_decimal (value : UInt64) : parseU64 (decimal value) = some value := by
  have nonempty : Nat.toDigits 10 value.toNat ≠ [] := by
    rw [Nat.toDigits_eq_if (by decide)]
    split <;> simp
  have digits : (Nat.toDigits 10 value.toNat).all Char.isDigit = true :=
    all_eq_true.mpr fun c member => Nat.isDigit_of_mem_toDigits (by decide) (by decide) member
  have parsed : (parseDigits UInt64.size (Nat.toDigits 10 value.toNat)).map UInt64.ofNat = some value := by
    rw [parseDigits, if_pos ⟨nonempty, digits, by rw [Nat.ofDigitChars_ten_toDigits]; exact value.toNat_lt_size⟩,
      Nat.ofDigitChars_ten_toDigits, Option.map_some, UInt64.ofNat_toNat]
  unfold parseU64 decimal
  rw [String.toList_ofList]
  split
  · rename_i sign
    have plus := all_eq_true.mp digits '+' (by rw [sign]; simp)
    exact absurd plus (by decide)
  · exact parsed

theorem asciiLetter_trim (c : Char) :
    asciiLetter (trim (String.ofList [c])) = if c.isAlpha then some c else none := by
  by_cases blank : isWhitespace c = true
  · have other : c.isAlpha = false := by
      cases letter : c.isAlpha with
      | false => rfl
      | true => rw [isWhitespace_of_isAlpha letter] at blank; cases blank
    simp [trim, blank, other, asciiLetter]
  · have kept : trim (String.ofList [c]) = String.ofList [c] := by
      apply trim_of_no_whitespace
      intro d member
      simp only [String.toList_ofList, mem_singleton] at member
      simpa [member] using blank
    rw [kept, asciiLetter, String.toList_ofList]

end TapeRs.Text

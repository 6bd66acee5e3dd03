import TapeRs.Data.Text

namespace TapeRs.Text

open List

/-- Why a percent-encoded text is refused. -/
inductive PercentError where
  | truncated
  | notHex
  | notUtf8
deriving DecidableEq, Repr

def utf8 (text : String) : List UInt8 :=
  text.toList.flatMap String.utf8EncodeChar

def fromUtf8 (bytes : List UInt8) : Option String :=
  String.fromUTF8? bytes.toByteArray

def hexDigit (n : Nat) : Char :=
  Char.ofNat (if n < 10 then 0x30 + n else 0x37 + n)

def hexValue (byte : UInt8) : Option Nat :=
  let b := byte.toNat
  if 0x30 ≤ b ∧ b ≤ 0x39 then some (b - 0x30)
  else if 0x41 ≤ b ∧ b ≤ 0x46 then some (b - 0x37)
  else if 0x61 ≤ b ∧ b ≤ 0x66 then some (b - 0x57)
  else none

/-- Two characters read as an unsigned number in base sixteen; a leading plus sign is allowed. -/
def hexPair (high low : UInt8) : Option UInt8 :=
  if high.toNat = 0x2B then (hexValue low).map UInt8.ofNat
  else
    match hexValue high, hexValue low with
    | some h, some l => some (UInt8.ofNat (16 * h + l))
    | _, _ => none

def percentEncodeChar (c : Char) : List Char :=
  if isAsciiControl c || c = '%' then ['%', hexDigit (c.toNat / 16), hexDigit (c.toNat % 16)] else [c]

def percentEncode (text : String) : String :=
  String.ofList (text.toList.flatMap percentEncodeChar)

def percentDecodeBytes : List UInt8 → Except PercentError (List UInt8)
  | [] => .ok []
  | byte :: rest =>
    if byte.toNat = 0x25 then
      match rest with
      | high :: low :: rest =>
        match hexPair high low with
        | some value => (value :: ·) <$> percentDecodeBytes rest
        | none => .error .notHex
      | _ => .error .truncated
    else (byte :: ·) <$> percentDecodeBytes rest

def percentDecode (text : String) : Except PercentError String :=
  match percentDecodeBytes (utf8 text) with
  | .error error => .error error
  | .ok bytes => (fromUtf8 bytes).elim (.error .notUtf8) .ok

theorem fromUtf8_utf8 (text : String) : fromUtf8 (utf8 text) = some text := by
  have bytes : (utf8 text).toByteArray = text.toByteArray := by
    rw [← String.utf8Encode_toList]
    rfl
  unfold fromUtf8 String.fromUTF8?
  rw [bytes, dif_pos text.isValidUTF8]
  rfl

theorem utf8EncodeChar_ascii {c : Char} (ascii : c.toNat < 0x80) :
    String.utf8EncodeChar c = [UInt8.ofNat c.toNat] := by
  have small : c.val.toNat ≤ 0x7F := Nat.le_of_lt_succ ascii
  unfold String.utf8EncodeChar
  exact if_pos small

theorem utf8EncodeChar_no_percent {c : Char} (other : c ≠ '%') :
    ∀ byte ∈ String.utf8EncodeChar c, byte.toNat ≠ 0x25 := by
  intro byte member
  by_cases ascii : c.toNat < 0x80
  · rw [utf8EncodeChar_ascii ascii, mem_singleton] at member
    subst member
    have value : (UInt8.ofNat c.toNat).toNat = c.toNat := by
      simp
      omega
    rw [value]
    intro same
    exact other (Char.ext (UInt32.toNat_inj.mp same))
  · have large : ¬ c.val.toNat ≤ 0x7F := fun small => ascii (Nat.lt_succ_of_le small)
    simp only [String.utf8EncodeChar, large, if_false] at member
    have high : 0x80 ≤ byte.toNat := by
      split at member
      · rcases mem_cons.mp member with rfl | member
        · simp; omega
        · rw [mem_singleton] at member
          subst member
          simp; omega
      · split at member
        · simp only [mem_cons, not_mem_nil, or_false] at member
          rcases member with rfl | rfl | rfl <;> simp <;> omega
        · simp only [mem_cons, not_mem_nil, or_false] at member
          rcases member with rfl | rfl | rfl | rfl <;> simp <;> omega
    omega

theorem percentDecodeBytes_plain {bytes : List UInt8} (plain : ∀ byte ∈ bytes, byte.toNat ≠ 0x25)
    (rest : List UInt8) :
    percentDecodeBytes (bytes ++ rest) = (bytes ++ ·) <$> percentDecodeBytes rest := by
  induction bytes with
  | nil => cases h : percentDecodeBytes rest <;> simp [h, Functor.map, Except.map]
  | cons byte tail ih =>
    have here : ¬ byte.toNat = 0x25 := plain byte (by simp)
    rw [cons_append, percentDecodeBytes.eq_def]
    simp only [here, if_false, ih fun other member => plain other (mem_cons_of_mem _ member)]
    cases percentDecodeBytes rest <;> rfl

theorem hexPair_hexDigit {n : Nat} (small : n < 128) :
    hexPair (UInt8.ofNat (hexDigit (n / 16)).toNat) (UInt8.ofNat (hexDigit (n % 16)).toNat) =
      some (UInt8.ofNat n) := by
  have all : ∀ n : Fin 128, hexPair (UInt8.ofNat (hexDigit (n.val / 16)).toNat)
      (UInt8.ofNat (hexDigit (n.val % 16)).toNat) = some (UInt8.ofNat n.val) := by decide
  exact all ⟨n, small⟩

theorem hexDigit_ascii {n : Nat} (small : n < 16) : (hexDigit n).toNat < 0x80 := by
  have all : ∀ n : Fin 16, (hexDigit n.val).toNat < 0x80 := by decide
  exact all ⟨n, small⟩

theorem percentDecodeBytes_encodeChar (c : Char) (rest : List UInt8) :
    percentDecodeBytes ((percentEncodeChar c).flatMap String.utf8EncodeChar ++ rest) =
      (String.utf8EncodeChar c ++ ·) <$> percentDecodeBytes rest := by
  unfold percentEncodeChar
  split
  · rename_i escaped
    have ascii : c.toNat < 0x80 := by
      simp only [isAsciiControl, Bool.or_eq_true, decide_eq_true_eq] at escaped
      rcases escaped with (low | delete) | percent
      · omega
      · omega
      · subst percent; decide
    have digits := hexPair_hexDigit ascii
    simp only [flatMap_cons, flatMap_nil, append_nil,
      utf8EncodeChar_ascii (hexDigit_ascii (show c.toNat / 16 < 16 by omega)),
      utf8EncodeChar_ascii (hexDigit_ascii (show c.toNat % 16 < 16 by omega)), utf8EncodeChar_ascii ascii,
      show String.utf8EncodeChar '%' = [0x25] from by decide, cons_append, nil_append]
    rw [percentDecodeBytes.eq_def]
    simp only [show (0x25 : UInt8).toNat = 0x25 from rfl, if_true, digits]
  · rename_i plain
    simp only [Bool.or_eq_true, decide_eq_true_eq, not_or] at plain
    rw [flatMap_cons, flatMap_nil, append_nil]
    exact percentDecodeBytes_plain (utf8EncodeChar_no_percent plain.2) rest

theorem percentDecode_percentEncode (text : String) : percentDecode (percentEncode text) = .ok text := by
  have bytes : ∀ chars : List Char,
      percentDecodeBytes ((chars.flatMap percentEncodeChar).flatMap String.utf8EncodeChar) =
        .ok (chars.flatMap String.utf8EncodeChar) := by
    intro chars
    induction chars with
    | nil => rfl
    | cons c rest ih =>
      rw [flatMap_cons, flatMap_append, percentDecodeBytes_encodeChar, ih]
      rfl
  unfold percentDecode percentEncode utf8
  rw [String.toList_ofList, bytes]
  have decoded := fromUtf8_utf8 text
  unfold utf8 at decoded
  simp only [decoded, Option.elim_some]

end TapeRs.Text

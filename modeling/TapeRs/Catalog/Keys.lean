import Mathlib.Data.List.Induction
import Mathlib.Data.List.Lex

namespace TapeRs.Catalog.Key

open List

def appendComponent (key bytes : List UInt8) : List UInt8 :=
  bytes.foldl (fun key byte => if byte = 0 then key ++ [0, 0xff] else key ++ [byte]) key ++ [0, 0]

def decodeFrom (out : List UInt8) : List UInt8 → Except String (List UInt8)
  | [] => .error "目录项缺少终止符"
  | byte :: rest =>
    if byte ≠ 0 then decodeFrom (out ++ [byte]) rest
    else match rest with
      | [] => .error "目录项编码"
      | next :: rest =>
        if next = 0xff then decodeFrom (out ++ [0]) rest
        else if next = 0 ∧ rest = [] then .ok out
        else .error "目录项编码"

def decodeName (bytes : List UInt8) : Except String (List UInt8) := decodeFrom [] bytes

/-- None is the `expect` on a prefix of nothing but `0xff`. -/
def prefixEnd (key : List UInt8) : Option (List UInt8) :=
  match key.reverse.dropWhile (· = 0xff) with
  | [] => none
  | last :: before => some (before.reverse ++ [last + 1])

def encoded (bytes : List UInt8) : List UInt8 := appendComponent [] bytes

theorem appendComponent_eq (key bytes : List UInt8) : appendComponent key bytes = key ++ encoded bytes := by
  unfold encoded appendComponent
  rw [← append_assoc]
  refine congrArg (· ++ [0, 0]) ?_
  induction bytes using reverseRecOn with
  | nil => simp
  | append_singleton bytes byte ih =>
    rw [foldl_concat, foldl_concat, ih]
    split <;> simp

theorem encoded_cons (byte : UInt8) (bytes : List UInt8) :
    encoded (byte :: bytes) = if byte = 0 then 0 :: 0xff :: encoded bytes else byte :: encoded bytes := by
  have first : encoded (byte :: bytes) = appendComponent (if byte = 0 then [0, 0xff] else [byte]) bytes := by
    simp [encoded, appendComponent]
  rw [first, appendComponent_eq]
  split <;> rfl

theorem decodeFrom_encoded (out bytes rest : List UInt8) : decodeFrom out (encoded bytes ++ rest) =
    if rest = [] then .ok (out ++ bytes) else .error "目录项编码" := by
  induction bytes generalizing out with
  | nil => simp [encoded, appendComponent, decodeFrom]
  | cons byte bytes ih =>
    rw [encoded_cons]
    split
    · rename_i zero
      simp [decodeFrom, ih, zero]
    rename_i plain
    rw [cons_append, decodeFrom.eq_def]
    dsimp only
    rw [if_pos plain, ih, append_assoc]
    rfl

theorem decodeName_encoded (bytes : List UInt8) : decodeName (encoded bytes) = .ok bytes := by
  simpa [decodeName] using decodeFrom_encoded [] bytes []

theorem eq_of_starts {x y : List UInt8} (starts : encoded x <+: encoded y) : x = y := by
  obtain ⟨rest, whole⟩ := starts
  have decoded := decodeFrom_encoded [] x rest
  rw [whole] at decoded
  have own := decodeName_encoded y
  rw [decodeName, decoded] at own
  split at own
  · exact Except.ok.inj own
  · cases own

theorem append_lt_append (key : List UInt8) {x y : List UInt8} : key ++ x < key ++ y ↔ x < y := by
  induction key with
  | nil => rfl
  | cons byte key ih => simp [ih]

theorem encoded_lt_iff (x y : List UInt8) : encoded x < encoded y ↔ x < y := by
  have nil : encoded [] = [0, 0] := rfl
  have pos : ∀ byte : UInt8, ¬ byte = 0 → 0 < byte := fun _ => UInt8.pos_iff_ne_zero.mpr
  induction x generalizing y with
  | nil =>
    cases y with
    | nil => simp
    | cons c y =>
      rw [nil, encoded_cons]
      split
      · simp [cons_lt_cons_iff]
      · rename_i plain
        simp [cons_lt_cons_iff, pos c plain]
  | cons b x ih =>
    cases y with
    | nil =>
      rw [nil, encoded_cons]
      split <;> simp_all [cons_lt_cons_iff]
    | cons c y =>
      rw [encoded_cons, encoded_cons]
      split <;> split <;> simp_all [cons_lt_cons_iff]

theorem prefixEnd_cons (byte : UInt8) (rest : List UInt8) : prefixEnd (byte :: rest) =
    match prefixEnd rest with
    | some bound => some (byte :: bound)
    | none => if byte = 0xff then none else some [byte + 1] := by
  unfold prefixEnd
  rw [reverse_cons, dropWhile_append]
  cases rest.reverse.dropWhile (· = 0xff) with
  | nil => by_cases full : byte = 0xff <;> simp [full]
  | cons last before => simp

theorem prefixEnd_range (key : List UInt8) :
    match prefixEnd key with
    | some bound => ∀ k, key ≤ k ∧ k < bound ↔ key <+: k
    | none => ∀ k, key ≤ k ↔ key <+: k := by
  induction key with
  | nil => exact fun k => by simp
  | cons byte rest ih =>
    rw [prefixEnd_cons]
    cases bound : prefixEnd rest with
    | some bound' =>
      rw [bound] at ih
      rintro (_ | ⟨first, k⟩)
      · simp
      · have inner := ih k
        rw [cons_le_cons_iff, cons_lt_cons_iff, cons_prefix_cons]
        grind
    | none =>
      rw [bound] at ih
      dsimp only
      by_cases full : byte = 0xff
      · rw [if_pos full]
        rintro (_ | ⟨first, k⟩)
        · simp
        · have inner := ih k
          rw [cons_le_cons_iff, cons_prefix_cons]
          grind
      · rw [if_neg full]
        rintro (_ | ⟨first, k⟩)
        · simp
        · have inner := ih k
          have below : ¬ k < [] := not_lt_nil k
          rw [cons_le_cons_iff, cons_lt_cons_iff, cons_prefix_cons]
          grind

theorem prefixEnd_ascii {key : List UInt8} {first : UInt8} (head : key.head? = some first) (ascii : first < 0x80) :
    ∃ bound, prefixEnd key = some bound := by
  cases key with
  | nil => cases head
  | cons byte rest =>
    obtain rfl : byte = first := Option.some.inj head
    rw [prefixEnd_cons]
    cases prefixEnd rest with
    | some bound => exact ⟨_, rfl⟩
    | none =>
      have other : byte ≠ 0xff := by
        rintro rfl
        exact absurd ascii (by decide)
      exact ⟨_, if_neg other⟩

/-- Components decode to what was written and compare as it does, none starts another, and the range of a prefix holds
    the keys that start with it. -/
theorem component_keys :
    (∀ key x, decodeName ((appendComponent key x).drop key.length) = .ok x) ∧
    (∀ key x y, (appendComponent key x < appendComponent key y ↔ x < y) ∧
      (appendComponent key x = appendComponent key y ↔ x = y) ∧
      (appendComponent key x <+: appendComponent key y → x = y)) ∧
    ∀ key first, key.head? = some first → first < 0x80 →
      ∃ bound, prefixEnd key = some bound ∧ ∀ k, key ≤ k ∧ k < bound ↔ key <+: k := by
  refine ⟨fun key x => ?_, fun key x y => ?_, fun key first head ascii => ?_⟩
  · rw [appendComponent_eq, drop_left, decodeName_encoded]
  · rw [appendComponent_eq, appendComponent_eq, prefix_append_right_inj]
    refine ⟨(append_lt_append key).trans (encoded_lt_iff x y), ⟨fun same => ?_, fun same => same ▸ rfl⟩,
      eq_of_starts⟩
    exact eq_of_starts (append_cancel_left same ▸ prefix_rfl)
  · obtain ⟨bound, found⟩ := prefixEnd_ascii head ascii
    have range := prefixEnd_range key
    rw [found] at range
    exact ⟨bound, found, range⟩

theorem component_keys_ff : ∃ bound, prefixEnd [0x74, 0xff, 0xff] = some bound ∧
    ∀ k, [0x74, 0xff, 0xff] ≤ k ∧ k < bound ↔ [0x74, 0xff, 0xff] <+: k :=
  component_keys.2.2 [0x74, 0xff, 0xff] 0x74 rfl (by decide)

end TapeRs.Catalog.Key

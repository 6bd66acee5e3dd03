import Mathlib.Algebra.Group.Int.Defs
import Mathlib.Algebra.Group.Nat.Defs
import Mathlib.Data.Int.Basic

namespace TapeRs.Word

variable {n m : UInt64}

def succ? (n : UInt64) : Option UInt64 :=
  if n.toNat + 1 < UInt64.size then some (n + 1) else none

def signed (n : UInt64) : Int :=
  if n.toNat < 2 ^ 63 then n.toNat else n.toNat - 2 ^ 64

def unsigned (n : Int) : UInt64 := UInt64.ofNat (n % 2 ^ 64).toNat

def Fits (n : UInt64) : Prop := n.toNat < 2 ^ 63

instance (n : UInt64) : Decidable (Fits n) := inferInstanceAs (Decidable (_ < _))

theorem succ?_eq_some {next : UInt64} : succ? n = some next ↔ next.toNat = n.toNat + 1 := by
  unfold succ?
  constructor
  · intro taken
    split at taken
    · rename_i room
      cases taken
      rw [UInt64.toNat_add]
      exact Nat.mod_eq_of_lt room
    · cases taken
  · intro after
    have room : n.toNat + 1 < UInt64.size := after ▸ next.toNat_lt
    rw [if_pos room, Option.some.injEq]
    apply UInt64.toNat_inj.mp
    rw [after, UInt64.toNat_add]
    exact Nat.mod_eq_of_lt room

theorem signed_of_fits (fits : Fits n) : signed n = n.toNat := if_pos fits

theorem unsigned_signed (n : UInt64) : unsigned (signed n) = n := by
  have bound := n.toNat_lt
  apply UInt64.toNat_inj.mp
  unfold unsigned signed
  rw [UInt64.toNat_ofNat']
  split <;> omega

theorem max_eq_right (le : n ≤ m) : max n m = m := if_pos le

theorem max_eq_left (le : m ≤ n) : max n m = n := by
  by_cases other : n ≤ m
  · rw [max_eq_right other]
    exact UInt64.le_antisymm le other
  · exact if_neg other

theorem le_max_left (n m : UInt64) : n ≤ max n m := by
  rcases UInt64.le_total n m with le | le
  · rwa [max_eq_right le]
  · rw [max_eq_left le]
    exact UInt64.le_refl n

theorem le_max_right (n m : UInt64) : m ≤ max n m := by
  rcases UInt64.le_total n m with le | le
  · rw [max_eq_right le]
    exact UInt64.le_refl m
  · rwa [max_eq_left le]

theorem min_eq_left (le : n ≤ m) : min n m = n := if_pos le

theorem min_eq_right (le : m ≤ n) : min n m = m := by
  by_cases other : n ≤ m
  · rw [min_eq_left other]
    exact UInt64.le_antisymm other le
  · exact if_neg other

end TapeRs.Word

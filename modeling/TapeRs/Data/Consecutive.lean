import Mathlib.Data.List.Basic

namespace TapeRs

open List

variable {α : Type} {number : α → Nat}

def Consecutive (number : α → Nat) : Nat → List α → Prop
  | _, [] => True
  | base, x :: rest => number x = base + 1 ∧ Consecutive number (base + 1) rest

namespace Consecutive

variable {base : Nat} {xs ys : List α} {x : α}

theorem append_iff : Consecutive number base (xs ++ ys) ↔
    Consecutive number base xs ∧ Consecutive number (base + xs.length) ys := by
  induction xs generalizing base with
  | nil => exact (and_iff_right trivial).symm
  | cons x rest ih =>
    rw [cons_append, Consecutive, Consecutive, ih, and_assoc, length_cons, Nat.add_right_comm base,
      Nat.add_assoc]

variable (run : Consecutive number base xs)
include run

theorem number_lt (member : x ∈ xs) : base < number x := by
  induction xs generalizing base with
  | nil => cases member
  | cons y rest ih =>
    rcases mem_cons.mp member with rfl | later
    · have first := run.1
      omega
    · have after := ih run.2 later
      omega

theorem number_le (member : x ∈ xs) : number x ≤ base + xs.length := by
  induction xs generalizing base with
  | nil => cases member
  | cons y rest ih =>
    rw [length_cons]
    rcases mem_cons.mp member with rfl | later
    · have first := run.1
      omega
    · have after := ih run.2 later
      omega

theorem take (count : Nat) : Consecutive number base (xs.take count) := by
  rw [← take_append_drop count xs, append_iff] at run
  exact run.1

theorem drop {count : Nat} (room : count ≤ xs.length) :
    Consecutive number (base + count) (xs.drop count) := by
  rw [← take_append_drop count xs, append_iff, length_take, Nat.min_eq_left room] at run
  exact run.2

theorem filter_lt (bound : Nat) :
    xs.filter (fun x => number x < bound) = xs.take (bound - 1 - base) := by
  induction xs generalizing base with
  | nil => simp
  | cons x rest ih =>
    obtain ⟨first, later⟩ := run
    rw [filter_cons, ih later]
    by_cases below : number x < bound
    · have count : bound - 1 - base = (bound - 1 - (base + 1)) + 1 := by omega
      rw [if_pos (decide_eq_true below), count, take_succ_cons]
    · have none' : bound - 1 - (base + 1) = 0 := by omega
      have none : bound - 1 - base = 0 := by omega
      rw [if_neg (by simpa using below), none', none, take_zero, take_zero]

theorem filter_gt (bound : Nat) :
    xs.filter (fun x => bound < number x) = xs.drop (bound - base) := by
  induction xs generalizing base with
  | nil => simp
  | cons x rest ih =>
    obtain ⟨first, later⟩ := run
    rw [filter_cons, ih later]
    by_cases above : bound < number x
    · have none' : bound - (base + 1) = 0 := by omega
      have none : bound - base = 0 := by omega
      rw [if_pos (decide_eq_true above), none', none, drop_zero, drop_zero]
    · have count : bound - base = (bound - (base + 1)) + 1 := by omega
      rw [if_neg (by simpa using above), count, drop_succ_cons]

theorem number_getLast (last : xs.getLast? = some x) :
    number x = base + xs.length := by
  obtain ⟨before, rfl⟩ := getLast?_eq_some_iff.mp last
  have ends := (append_iff.mp run).2.1
  rw [length_append, length_singleton]
  omega

end Consecutive

end TapeRs

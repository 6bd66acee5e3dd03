import Mathlib.Data.List.Induction
import Mathlib.Algebra.BigOperators.Group.List.Basic
import Mathlib.Algebra.GroupWithZero.Nat
import Mathlib.Algebra.Order.BigOperators.Group.List
import Mathlib.Data.String.Basic
import TapeRs.Data.KeyedList

namespace TapeRs

open List

namespace Assoc

variable {κ α β : Type} [LinearOrder κ] {entries : List (κ × α)} {k : κ} {value : α}

def find (k : κ) (entries : List (κ × α)) : Option α :=
  (Keyed.lookup Prod.fst k entries).map Prod.snd

def insert (k : κ) (value : α) : List (κ × α) → List (κ × α)
  | [] => [(k, value)]
  | (other, kept) :: rest =>
    if k < other then (k, value) :: (other, kept) :: rest
    else if k = other then (k, value) :: rest
    else (other, kept) :: insert k value rest

def erase (k : κ) (entries : List (κ × α)) : List (κ × α) :=
  Keyed.discard Prod.fst k entries

@[simp] theorem find_nil (k : κ) : find k ([] : List (κ × α)) = none := rfl

theorem find_cons (k other : κ) (value : α) (rest : List (κ × α)) :
    find k ((other, value) :: rest) = if other = k then some value else find k rest := by
  unfold find
  rw [Keyed.lookup_cons]
  split <;> rfl

theorem find_insert (k other : κ) (value : α) (entries : List (κ × α)) :
    find other (insert k value entries) = if other = k then some value else find other entries := by
  induction entries with
  | nil =>
    rw [insert, find_cons]
    simp only [eq_comm]
  | cons entry rest ih =>
    obtain ⟨key, kept⟩ := entry
    rw [insert]
    by_cases before : k < key
    · rw [if_pos before, find_cons]
      simp only [eq_comm]
    rw [if_neg before]
    by_cases same : k = key
    · subst same
      rw [if_pos rfl, find_cons, find_cons]
      by_cases here : other = k
      · simp [here]
      · simp [here, Ne.symm here]
    · rw [if_neg same, find_cons, find_cons, ih]
      by_cases here : other = k
      · simp [here, Ne.symm same]
      · simp [here]

theorem find_erase (k other : κ) (entries : List (κ × α)) :
    find other (erase k entries) = if other = k then none else find other entries := by
  unfold find erase
  rw [Keyed.lookup_discard]
  split <;> rfl

theorem mem_keys_insert {other : κ} :
    other ∈ (insert k value entries).map Prod.fst ↔ other = k ∨ other ∈ entries.map Prod.fst := by
  induction entries with
  | nil => simp [insert]
  | cons entry rest ih =>
    obtain ⟨key, kept⟩ := entry
    rw [insert]
    split_ifs with before same
    · simp
    · simp [same]
    · rw [map_cons, mem_cons, ih, map_cons, mem_cons]
      tauto

theorem insert_sorted (k : κ) (value : α) (sorted : (entries.map Prod.fst).Pairwise (· < ·)) :
    ((insert k value entries).map Prod.fst).Pairwise (· < ·) := by
  induction entries with
  | nil => simp [insert]
  | cons entry rest ih =>
    obtain ⟨key, kept⟩ := entry
    have ordered := pairwise_cons.mp sorted
    rw [insert]
    split_ifs with before same
    · refine pairwise_cons.mpr ⟨?_, sorted⟩
      intro other member
      rcases mem_cons.mp member with rfl | member
      · exact before
      · exact before.trans (ordered.1 other member)
    · subst same
      exact sorted
    · have after : key < k := lt_of_le_of_ne (not_lt.mp before) (Ne.symm same)
      refine pairwise_cons.mpr ⟨?_, ih ordered.2⟩
      intro other member
      rcases mem_keys_insert.mp member with rfl | member
      · exact after
      · exact ordered.1 other member

theorem mem_insert {entry : κ × α} (member : entry ∈ insert k value entries) :
    entry = (k, value) ∨ entry ∈ entries := by
  induction entries with
  | nil => exact .inl (mem_singleton.mp member)
  | cons first rest ih =>
    obtain ⟨key, kept⟩ := first
    rw [insert] at member
    split_ifs at member with before same
    · exact mem_cons.mp member
    · exact (mem_cons.mp member).imp_right (mem_cons_of_mem _)
    · rcases mem_cons.mp member with rfl | member
      · exact .inr mem_cons_self
      · exact (ih member).imp_right (mem_cons_of_mem _)

theorem length_insert (fresh : k ∉ entries.map Prod.fst) (value : α) :
    (insert k value entries).length = entries.length + 1 := by
  induction entries with
  | nil => rfl
  | cons first rest ih =>
    obtain ⟨key, kept⟩ := first
    rw [map_cons, mem_cons, not_or] at fresh
    rw [insert]
    split_ifs with before same
    · rfl
    · exact absurd same fresh.1
    · rw [length_cons, ih fresh.2, length_cons]

theorem mem_of_find (found : find k entries = some value) : (k, value) ∈ entries := by
  obtain ⟨entry, there, rfl⟩ := Option.map_eq_some_iff.mp found
  obtain ⟨member, same⟩ := Keyed.lookup_member there
  rw [← same]
  exact member

end Assoc

/-- A finite map in key order: no key is filed twice. -/
@[ext] structure SortedMap (κ α : Type) [LinearOrder κ] where
  entries : List (κ × α)
  sorted : (entries.map Prod.fst).Pairwise (· < ·)
deriving DecidableEq

namespace SortedMap

variable {κ α : Type} [LinearOrder κ] {m : SortedMap κ α} {k : κ} {value : α}

def empty : SortedMap κ α := ⟨[], List.Pairwise.nil⟩

def get (m : SortedMap κ α) (k : κ) : Option α := Assoc.find k m.entries

def contains (m : SortedMap κ α) (k : κ) : Bool := (m.get k).isSome

def insert (m : SortedMap κ α) (k : κ) (value : α) : SortedMap κ α :=
  ⟨Assoc.insert k value m.entries, Assoc.insert_sorted k value m.sorted⟩

def filter (m : SortedMap κ α) (p : κ → α → Bool) : SortedMap κ α :=
  ⟨m.entries.filter (fun entry => p entry.1 entry.2), m.sorted.sublist (List.filter_sublist.map Prod.fst)⟩

def erase (m : SortedMap κ α) (k : κ) : SortedMap κ α :=
  ⟨Assoc.erase k m.entries, m.sorted.sublist (Keyed.map_discard_sublist k m.entries)⟩

def map (m : SortedMap κ α) (f : κ → α → α) : SortedMap κ α :=
  ⟨m.entries.map (fun entry => (entry.1, f entry.1 entry.2)), by
    rw [List.map_map]
    exact m.sorted⟩

def collect {β : Type} (m : SortedMap κ α) (f : κ → α → Option β) : SortedMap κ β :=
  ⟨m.entries.filterMap (fun entry => (f entry.1 entry.2).map (entry.1, ·)), by
    have keys : ∀ entries : List (κ × α),
        ((entries.filterMap (fun entry => (f entry.1 entry.2).map (entry.1, ·))).map Prod.fst).Sublist
          (entries.map Prod.fst) := by
      intro entries
      induction entries with
      | nil => simp
      | cons entry rest ih =>
        rw [List.filterMap_cons]
        cases f entry.1 entry.2 with
        | none => exact ih.cons _
        | some value => exact ih.cons_cons _
    exact m.sorted.sublist (keys m.entries)⟩

def total (m : SortedMap κ α) (measure : α → Nat) : Nat :=
  (m.entries.map (fun entry => measure entry.2)).sum

theorem keys_nodup (m : SortedMap κ α) : (m.entries.map Prod.fst).Nodup :=
  m.sorted.imp ne_of_lt

theorem mem_entries : (k, value) ∈ m.entries ↔ m.get k = some value := by
  unfold get Assoc.find
  rw [Option.map_eq_some_iff]
  constructor
  · intro member
    exact ⟨(k, value), (Keyed.lookup_eq_some m.keys_nodup).mpr ⟨member, rfl⟩, rfl⟩
  · rintro ⟨⟨key, found⟩, there, rfl⟩
    obtain ⟨member, rfl⟩ := Keyed.lookup_member there
    exact member

theorem mem_keys : k ∈ m.entries.map Prod.fst ↔ (m.get k).isSome := by
  rw [mem_map, Option.isSome_iff_exists]
  constructor
  · rintro ⟨⟨_, value⟩, member, rfl⟩
    exact ⟨value, mem_entries.mp member⟩
  · rintro ⟨value, found⟩
    exact ⟨(k, value), mem_entries.mpr found, rfl⟩

theorem ext_get {n : SortedMap κ α} (same : ∀ k, m.get k = n.get k) : m = n := by
  have perm : m.entries.Perm n.entries := by
    refine (perm_ext_iff_of_nodup m.keys_nodup.of_map n.keys_nodup.of_map).mpr fun entry => ?_
    obtain ⟨key, value⟩ := entry
    rw [mem_entries, mem_entries, same]
  refine SortedMap.ext (perm.eq_of_pairwise ?_ (pairwise_map.mp m.sorted) (pairwise_map.mp n.sorted))
  intro a b _ _ before after
  exact absurd before (lt_asymm after)

@[simp] theorem get_empty (k : κ) : (empty : SortedMap κ α).get k = none := rfl

@[simp] theorem get_insert (m : SortedMap κ α) (k other : κ) (value : α) :
    (m.insert k value).get other = if other = k then some value else m.get other :=
  Assoc.find_insert k other value m.entries

theorem get_insert_some {other : κ} {found : α} (there : (m.insert k value).get other = some found) :
    other = k ∧ found = value ∨ other ≠ k ∧ m.get other = some found := by
  rw [get_insert] at there
  split at there
  · rename_i same
    exact .inl ⟨same, (Option.some.inj there).symm⟩
  · rename_i apart
    exact .inr ⟨apart, there⟩

theorem isSome_insert {other : κ} (known : (m.get other).isSome) : ((m.insert k value).get other).isSome := by
  rw [get_insert]
  split
  · rfl
  · exact known

theorem forall_insert {P : κ → α → Prop} (new : P k value) (rows : ∀ other row, m.get other = some row → P other row) :
    ∀ other row, (m.insert k value).get other = some row → P other row := by
  intro other row there
  rcases get_insert_some there with ⟨rfl, rfl⟩ | ⟨-, old⟩
  · exact new
  · exact rows other row old

theorem exists_insert {R : α → α → Prop} (refl : ∀ row, R row row) {old : α} (found : m.get k = some old)
    (new : R old value) : ∀ other row, m.get other = some row → ∃ later, (m.insert k value).get other = some later ∧ R row later := by
  intro other row there
  rw [get_insert]
  split
  · rename_i same
    rw [same, found] at there
    cases there
    exact ⟨value, rfl, new⟩
  · exact ⟨row, there, refl row⟩

@[simp] theorem get_erase (m : SortedMap κ α) (k other : κ) :
    (m.erase k).get other = if other = k then none else m.get other :=
  Assoc.find_erase k other m.entries

theorem contains_of_lt (last : ∀ entry ∈ m.entries, entry.1 < k) : m.contains k = false := by
  unfold contains
  cases found : m.get k with
  | none => rfl
  | some value => exact absurd (last _ (mem_entries.mpr found)) (lt_irrefl k)

theorem entries_insert_of_lt (last : ∀ entry ∈ m.entries, entry.1 < k) (value : α) :
    (m.insert k value).entries = m.entries ++ [(k, value)] := by
  change Assoc.insert k value m.entries = _
  generalize m.entries = entries at last
  induction entries with
  | nil => rfl
  | cons entry rest ih =>
    obtain ⟨key, kept⟩ := entry
    have before : key < k := last (key, kept) mem_cons_self
    rw [Assoc.insert, if_neg (lt_asymm before), if_neg (ne_of_gt before), ih, cons_append]
    exact fun entry member => last entry (mem_cons_of_mem _ member)

theorem get_filter (m : SortedMap κ α) (p : κ → α → Bool) (k : κ) :
    (m.filter p).get k = (m.get k).filter (p k) := by
  apply Option.ext
  intro value
  rw [← mem_entries, Option.filter_eq_some_iff, ← mem_entries]
  exact mem_filter

@[simp] theorem get_map (m : SortedMap κ α) (f : κ → α → α) (k : κ) : (m.map f).get k = (m.get k).map (f k) := by
  unfold get map Assoc.find
  rw [Keyed.lookup_map Prod.fst Prod.fst (fun entry => (entry.1, f entry.1 entry.2)) (fun _ => rfl)]
  cases found : Keyed.lookup Prod.fst k m.entries with
  | none => rfl
  | some entry =>
    obtain ⟨_, rfl⟩ := Keyed.lookup_member found
    rfl

theorem get_collect {β : Type} (m : SortedMap κ α) (f : κ → α → Option β) (k : κ) :
    (m.collect f).get k = (m.get k).bind (f k) := by
  apply Option.ext
  intro value
  rw [← mem_entries, Option.bind_eq_some_iff]
  simp only [collect, mem_filterMap, Option.map_eq_some_iff, Prod.mk.injEq, ← mem_entries]
  constructor
  · rintro ⟨⟨key, prior⟩, member, kept, made, rfl, rfl⟩
    exact ⟨prior, member, made⟩
  · rintro ⟨prior, member, made⟩
    exact ⟨(k, prior), member, value, made, rfl, rfl⟩

theorem le_total (measure : α → Nat) (found : m.get k = some value) : measure value ≤ m.total measure :=
  single_le_sum (fun _ _ => Nat.zero_le _) _
    (mem_map.mpr ⟨(k, value), mem_entries.mpr found, rfl⟩)

theorem total_map_le (m : SortedMap κ α) (measure : α → Nat) (f : κ → α → α)
    (le : ∀ k value, measure (f k value) ≤ measure value) : (m.map f).total measure ≤ m.total measure := by
  unfold total map
  rw [map_map]
  exact sum_le_sum fun entry _ => le entry.1 entry.2

theorem total_insert (m : SortedMap κ α) (measure : α → Nat) (k : κ) (value : α) :
    (m.insert k value).total measure + ((m.get k).map measure).getD 0 = m.total measure + measure value := by
  obtain ⟨entries, sorted⟩ := m
  unfold total insert get
  dsimp only
  induction entries with
  | nil => simp [Assoc.insert]
  | cons entry rest ih =>
    obtain ⟨key, kept⟩ := entry
    have ordered := pairwise_cons.mp sorted
    rw [Assoc.insert, Assoc.find_cons]
    by_cases before : k < key
    · have absent : Assoc.find k rest = none := by
        unfold Assoc.find
        rw [Option.map_eq_none_iff, Keyed.lookup_eq_none]
        intro member
        exact lt_asymm before (ordered.1 k member)
      simp only [if_pos before, if_neg (ne_of_gt before), absent, map_cons, sum_cons, Option.map_none,
        Option.getD_none]
      omega
    · by_cases same : k = key
      · simp only [if_neg before, if_pos same, if_pos same.symm, map_cons, sum_cons, Option.map_some,
          Option.getD_some]
        omega
      · have moved := ih ordered.2
        simp only [if_neg before, if_neg same, if_neg (Ne.symm same), map_cons, sum_cons]
        omega

section Promotion

variable {ρ : Type} [LinearOrder ρ] (key : α → κ) (rank : α → ρ) {values : List α}

/-- Files a value under its key, unless the value there ranks as high. -/
def promote (m : SortedMap κ α) (value : α) : SortedMap κ α :=
  match m.get (key value) with
  | some old => if rank value ≤ rank old then m else m.insert (key value) value
  | none => m.insert (key value) value

def Best (values : List α) (k : κ) : Option α → Prop
  | none => ∀ value ∈ values, key value ≠ k
  | some best => best ∈ values ∧ key best = k ∧ ∀ value ∈ values, key value = k → rank value ≤ rank best

variable {key rank}

omit [LinearOrder κ] in
theorem Best.snoc_beside {best : Option α} (beside : k ≠ key value) (holds : Best key rank values k best) :
    Best key rank (values ++ [value]) k best := by
  cases best with
  | none =>
    intro other member
    rcases mem_append.mp member with member | member
    · exact holds other member
    · exact mem_singleton.mp member ▸ Ne.symm beside
  | some best =>
    refine ⟨mem_append_left _ holds.1, holds.2.1, fun other member same => ?_⟩
    rcases mem_append.mp member with member | member
    · exact holds.2.2 other member same
    · exact absurd (mem_singleton.mp member ▸ same).symm beside

theorem promote_best (holds : ∀ k, Best key rank values k (m.get k)) (value : α) (k : κ) :
    Best key rank (values ++ [value]) k ((m.promote key rank value).get k) := by
  have wins : (∀ other ∈ values, key other = key value → rank other ≤ rank value) →
      Best key rank (values ++ [value]) k ((m.insert (key value) value).get k) := by
    intro highest
    rw [get_insert]
    split
    · rename_i here
      subst here
      refine ⟨by simp, rfl, fun other member same => ?_⟩
      rcases mem_append.mp member with member | member
      · exact highest other member same
      · exact le_of_eq (congrArg rank (mem_singleton.mp member))
    · rename_i beside
      exact (holds k).snoc_beside beside
  unfold promote
  have here := holds (key value)
  cases found : m.get (key value) with
  | none =>
    rw [found] at here
    exact wins fun other member same => absurd same (here other member)
  | some old =>
    rw [found] at here
    dsimp only
    split
    · rename_i lower
      by_cases beside : k = key value
      · rw [beside, found]
        refine ⟨mem_append_left _ here.1, here.2.1, fun other member same => ?_⟩
        rcases mem_append.mp member with member | member
        · exact here.2.2 other member same
        · exact mem_singleton.mp member ▸ lower
      · exact (holds k).snoc_beside beside
    · rename_i higher
      exact wins fun other member same => (here.2.2 other member same).trans (le_of_not_ge higher)

theorem foldl_promote_best (values : List α) (k : κ) :
    Best key rank values k ((values.foldl (promote key rank) empty).get k) := by
  induction values using reverseRecOn generalizing k with
  | nil => exact fun _ member => absurd member not_mem_nil
  | append_singleton values value ih =>
    rw [foldl_append]
    exact promote_best ih value k

omit [LinearOrder κ] in
theorem Best.unique {others : List α} {first second : Option α} (same : ∀ value, value ∈ values ↔ value ∈ others)
    (ties : ∀ a ∈ values, ∀ b ∈ values, key a = key b → rank a = rank b → a = b) (left : Best key rank values k first)
    (right : Best key rank others k second) : first = second := by
  cases first with
  | none =>
    cases second with
    | none => rfl
    | some b => exact absurd right.2.1 (left b ((same b).mpr right.1))
  | some a =>
    cases second with
    | none => exact absurd left.2.1 (right a ((same a).mp left.1))
    | some b =>
      have kept := (same b).mpr right.1
      have equal := le_antisymm (right.2.2 a ((same a).mp left.1) left.2.1) (left.2.2 b kept right.2.1)
      rw [ties a left.1 b kept (left.2.1.trans right.2.1.symm) equal]

end Promotion

end SortedMap

end TapeRs

import Mathlib.Data.List.Perm.Basic
import Mathlib.Data.List.Nodup
import Mathlib.Data.List.Forall2
import Mathlib.Data.Option.Basic

namespace TapeRs.Keyed

open List

variable {α κ ε : Type} [DecidableEq κ] {key : α → κ} {entries : List α} {entry : α} {k : κ}

def lookup (key : α → κ) (k : κ) (entries : List α) : Option α :=
  entries.find? (fun entry => key entry = k)

/-- A map collected from a sequence of entries: a later entry replaces an earlier one. -/
def collected (key : α → κ) (k : κ) (entries : List α) : Option α :=
  lookup key k entries.reverse

def discard (key : α → κ) (k : κ) (entries : List α) : List α :=
  entries.filter (fun entry => key entry ≠ k)

/-- Rewrites the first entry that satisfies `p`; `none` when there is no such entry. -/
def rewriteFirst (p : α → Bool) (f : α → Except ε α) : List α → Option (Except ε (List α))
  | [] => none
  | entry :: rest =>
    if p entry then some ((f entry).map (· :: rest))
    else (rewriteFirst p f rest).map (·.map (entry :: ·))

@[simp] theorem lookup_nil (k : κ) : lookup key k ([] : List α) = none := rfl

theorem lookup_cons (k : κ) (entry : α) (rest : List α) :
    lookup key k (entry :: rest) = if key entry = k then some entry else lookup key k rest := by
  by_cases same : key entry = k <;> simp [lookup, same]

theorem lookup_eq_none : lookup key k entries = none ↔ k ∉ entries.map key := by
  simp only [lookup, find?_eq_none, decide_eq_true_eq, mem_map, not_exists, not_and]

theorem lookup_member (found : lookup key k entries = some entry) : entry ∈ entries ∧ key entry = k :=
  ⟨mem_of_find?_eq_some found, by simpa using find?_some found⟩

theorem lookup_eq_some (nodup : (entries.map key).Nodup) :
    lookup key k entries = some entry ↔ entry ∈ entries ∧ key entry = k := by
  refine ⟨lookup_member, ?_⟩
  rintro ⟨member, rfl⟩
  cases found : lookup key (key entry) entries with
  | none => exact absurd (mem_map_of_mem member) (lookup_eq_none.mp found)
  | some other =>
    obtain ⟨otherMember, sameKey⟩ := lookup_member found
    rw [inj_on_of_nodup_map nodup otherMember member sameKey]

theorem lookup_split (found : lookup key k entries = some entry) :
    key entry = k ∧ ∃ left right, entries = left ++ entry :: right ∧ ∀ other ∈ left, key other ≠ k := by
  obtain ⟨here, left, right, split, before⟩ := find?_eq_some_iff_append.mp found
  exact ⟨by simpa using here, left, right, split, fun other member => by simpa using before other member⟩

theorem lookup_erased (found : lookup key k entries = some entry) :
    key entry = k ∧ ∃ left right, entries = left ++ entry :: right ∧
      entries.eraseP (fun entry => key entry = k) = left ++ right := by
  obtain ⟨here, left, right, rfl, before⟩ := lookup_split found
  refine ⟨here, left, right, rfl, ?_⟩
  rw [eraseP_append_right _ (by simpa using before), eraseP_cons_of_pos (by simpa using here)]

theorem lookup_append (k : κ) (left right : List α) :
    lookup key k (left ++ right) = (lookup key k left).or (lookup key k right) := by
  simp [lookup, find?_append]

theorem lookup_snoc (free : lookup key (key entry) entries = none) (k : κ) :
    lookup key k (entries ++ [entry]) = if k = key entry then some entry else lookup key k entries := by
  rw [lookup_append, lookup_cons, lookup_nil]
  by_cases here : k = key entry
  · rw [here, free, if_pos rfl, Option.none_or]
  · have apart : ¬ key entry = k := fun h => here h.symm
    rw [if_neg apart, if_neg here, Option.or_none]

theorem nodup_snoc (nodup : (entries.map key).Nodup) (free : lookup key (key entry) entries = none) :
    ((entries ++ [entry]).map key).Nodup := by
  rw [map_append, map_singleton]
  refine nodup_append.mpr ⟨nodup, nodup_singleton _, ?_⟩
  rintro name taken _ single rfl
  exact lookup_eq_none.mp free (mem_singleton.mp single ▸ taken)

theorem lookup_discard (k removed : κ) (entries : List α) :
    lookup key k (discard key removed entries) = if k = removed then none else lookup key k entries := by
  induction entries with
  | nil => simp [discard]
  | cons entry rest ih =>
    unfold discard at ih ⊢
    by_cases dropped : key entry = removed
    · have skipped : ∀ other, other ≠ removed → key entry ≠ other :=
        fun other different same => different (same.symm.trans dropped)
      rw [filter_cons_of_neg (by simp [dropped]), ih]
      by_cases same : k = removed
      · simp [same]
      · simp [same, lookup_cons, skipped k same]
    · rw [filter_cons_of_pos (by simp [dropped]), lookup_cons, ih, lookup_cons]
      by_cases same : k = removed
      · have : key entry ≠ k := fun h => dropped (h.trans same)
        simp [same, dropped]
      · simp [same]

theorem lookup_replaced (key : α → κ) (entry : α) (entries : List α) (k : κ) :
    lookup key k (discard key (key entry) entries ++ [entry]) = if k = key entry then some entry else lookup key k entries := by
  rw [lookup_snoc ((lookup_discard ..).trans (if_pos rfl)), lookup_discard]
  by_cases here : k = key entry <;> simp only [here, if_true, if_false]

theorem nodup_replaced (nodup : (entries.map key).Nodup) (entry : α) :
    ((discard key (key entry) entries ++ [entry]).map key).Nodup :=
  nodup_snoc (nodup.sublist (filter_sublist.map key)) ((lookup_discard ..).trans (if_pos rfl))

theorem filter_lookup_absent {p : α → Bool} (absent : k ∉ entries.map key) : (lookup key k entries).filter p = none := by
  rw [lookup_eq_none.mpr absent]
  rfl

theorem filter_lookup_keep {p : α → Bool} (kept : p entry = true) (rest : List α) (k : κ) :
    (lookup key k (entry :: rest)).filter p = if key entry = k then some entry else (lookup key k rest).filter p := by
  rw [lookup_cons]
  split
  · rw [Option.filter_some, if_pos kept]
  · rfl

theorem filter_lookup_skip {p : α → Bool} (dropped : p entry = false) {rest : List α} (absent : key entry ∉ rest.map key)
    (k : κ) : (lookup key k (entry :: rest)).filter p = (lookup key k rest).filter p := by
  rw [lookup_cons]
  split
  · rename_i here
    rw [Option.filter_some, dropped, ← here, filter_lookup_absent absent]
    rfl
  · rfl

theorem lookup_filter (key : α → κ) (p : α → Bool) (nodup : (entries.map key).Nodup) (k : κ) :
    lookup key k (entries.filter p) = (lookup key k entries).filter p := by
  have nodupKept : ((entries.filter p).map key).Nodup := nodup.sublist (filter_sublist.map key)
  apply Option.ext
  intro entry
  rw [lookup_eq_some nodupKept, Option.filter_eq_some_iff, lookup_eq_some nodup, mem_filter]
  tauto

theorem lookup_map {β : Type} (keyed : α → κ) (key : β → κ) (f : α → β) (keeps : ∀ entry, key (f entry) = keyed entry)
    (entries : List α) (k : κ) : lookup key k (entries.map f) = (lookup keyed k entries).map f := by
  induction entries with
  | nil => rfl
  | cons entry rest ih =>
    rw [map_cons, lookup_cons, lookup_cons, keeps, ih]
    split <;> rfl

theorem discard_absent (absent : k ∉ entries.map key) : discard key k entries = entries := by
  apply filter_eq_self.mpr
  intro entry member
  simp only [decide_eq_true_eq]
  rintro rfl
  exact absent (mem_map_of_mem member)

theorem map_discard_sublist (k : κ) (entries : List α) :
    ((discard key k entries).map key).Sublist (entries.map key) :=
  filter_sublist.map key

theorem lookup_perm (key : α → κ) {left right : List α} (k : κ) (perm : left.Perm right)
    (nodup : (left.map key).Nodup) : lookup key k left = lookup key k right := by
  have nodupRight : (right.map key).Nodup := (perm.map key).nodup_iff.mp nodup
  apply Option.ext
  intro entry
  rw [lookup_eq_some nodup, lookup_eq_some nodupRight, perm.mem_iff]

theorem collected_eq_lookup (k : κ) (nodup : (entries.map key).Nodup) :
    collected key k entries = lookup key k entries :=
  (lookup_perm key k entries.reverse_perm.symm nodup).symm

theorem perm_cons_discard (nodup : (entries.map key).Nodup) (member : entry ∈ entries) :
    entries.Perm (entry :: discard key (key entry) entries) := by
  obtain ⟨before, after, rfl⟩ := append_of_mem member
  simp only [map_append, map_cons] at nodup
  have apart := nodup_middle.mp nodup
  rw [nodup_cons, mem_append, not_or] at apart
  have kept : discard key (key entry) (before ++ entry :: after) = before ++ after := by
    rw [discard, filter_append, filter_cons_of_neg (by simp)]
    exact congrArg₂ (· ++ ·) (discard_absent apart.1.1) (discard_absent apart.1.2)
  rw [kept]
  exact perm_middle

theorem rewriteFirst_eq_none {p : α → Bool} {f : α → Except ε α} :
    rewriteFirst p f entries = none ↔ ∀ entry ∈ entries, p entry = false := by
  induction entries with
  | nil => simp [rewriteFirst]
  | cons entry rest ih =>
    cases hit : p entry <;> simp [rewriteFirst, hit, ih]

theorem rewriteFirst_lookup (key : α → κ) {p : α → Bool} {f : α → Except ε α} {result : α}
    (nodup : (entries.map key).Nodup) (found : lookup key k entries = some entry) (hit : p entry = true)
    (only : ∀ other ∈ entries, p other = true → key other = k) (ran : f entry = .ok result) (filed : key result = k) :
    ∃ after, rewriteFirst p f entries = some (.ok after) ∧ after.map key = entries.map key ∧
      ∀ other, lookup key other after = if other = k then some result else lookup key other entries := by
  induction entries with
  | nil => simp at found
  | cons head rest ih =>
    rw [map_cons, nodup_cons] at nodup
    by_cases same : key head = k
    · have headIs : head = entry := by simpa [lookup_cons, same] using found
      subst headIs
      refine ⟨result :: rest, by simp [rewriteFirst, hit, ran, Except.map], by simp [filed, same], ?_⟩
      intro other
      by_cases here : other = k
      · simp [lookup_cons, here, filed]
      · have elsewhere : ¬ k = other := fun h => here h.symm
        simp [lookup_cons, here, filed, same, elsewhere]
    · have misses : p head = false := by
        by_contra hits
        exact same (only head (by simp) (by simpa using hits))
      obtain ⟨after, rewrites, keys, lookups⟩ :=
        ih nodup.2 (by simpa [lookup_cons, same] using found)
          (fun other member => only other (mem_cons_of_mem _ member))
      refine ⟨head :: after, by simp [rewriteFirst, misses, rewrites, Except.map], by simp [keys], ?_⟩
      intro other
      rw [lookup_cons, lookup_cons, lookups]
      by_cases here : key head = other
      · have : other ≠ k := fun h => same (here.trans h)
        simp [here, this]
      · simp [here]

section Matching

variable {R : α → α → Prop} {left middle : List α}

theorem exists_matching {right : List α} (nodupLeft : (left.map key).Nodup) (nodupRight : (right.map key).Nodup)
    (related : ∀ k, Option.Rel R (lookup key k left) (lookup key k right)) :
    ∃ middle, List.Forall₂ R left middle ∧ middle.Perm right := by
  induction left generalizing right with
  | nil =>
    cases right with
    | nil => exact ⟨[], .nil, .nil⟩
    | cons entry rest =>
      have absurdity := related (key entry)
      rw [lookup_cons, if_pos rfl] at absurdity
      cases absurdity
  | cons entry rest ih =>
    rw [map_cons, nodup_cons] at nodupLeft
    have here := related (key entry)
    rw [lookup_cons, if_pos rfl] at here
    cases found : lookup key (key entry) right with
    | none => rw [found] at here; cases here
    | some partner =>
      rw [found] at here
      obtain ⟨member, sameKey⟩ := lookup_member found
      have split := perm_cons_discard nodupRight member
      have remaining : ∀ k, Option.Rel R (lookup key k rest) (lookup key k (discard key (key partner) right)) := by
        intro k
        rw [lookup_discard, sameKey]
        by_cases same : k = key entry
        · rw [if_pos same, same, lookup_eq_none.mpr nodupLeft.1]
          exact .none
        · have other := related k
          rw [lookup_cons, if_neg (fun h => same h.symm)] at other
          rwa [if_neg same]
      obtain ⟨middle, matched, perm⟩ :=
        ih nodupLeft.2 (nodupRight.sublist (map_discard_sublist _ _)) remaining
      cases here with
      | some relates => exact ⟨partner :: middle, .cons relates matched, (perm.cons partner).trans split.symm⟩

omit [DecidableEq κ] in
theorem map_key_of_matching (key : α → κ) (keeps : ∀ x y, R x y → key x = key y) (matched : List.Forall₂ R left middle) :
    left.map key = middle.map key := by
  induction matched with
  | nil => rfl
  | cons relates _ ih => simp [ih, keeps _ _ relates]

omit [DecidableEq κ] in
theorem flatMap_perm_of_matching {β : Type} {f : α → List β} (matched : List.Forall₂ R left middle)
    (parts : ∀ x ∈ left, ∀ y, R x y → (f x).Perm (f y)) : (left.flatMap f).Perm (middle.flatMap f) := by
  induction matched with
  | nil => exact .refl _
  | cons relates _ ih =>
    simp only [flatMap_cons]
    exact (parts _ (by simp) _ relates).append (ih fun x member => parts x (mem_cons_of_mem _ member))

theorem lookup_matching (keeps : ∀ x y, R x y → key x = key y) (matched : List.Forall₂ R left middle) (k : κ) :
    Option.Rel R (lookup key k left) (lookup key k middle) := by
  induction matched with
  | nil => exact .none
  | @cons x y _ _ relates _ ih =>
    rw [lookup_cons, lookup_cons, keeps _ _ relates]
    by_cases same : key y = k
    · simpa only [if_pos same] using .some relates
    · simpa only [if_neg same] using ih

end Matching

end TapeRs.Keyed

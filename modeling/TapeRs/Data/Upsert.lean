import TapeRs.Data.SortedMap

namespace TapeRs.SortedMap

variable {κ α : Type} [LinearOrder κ] (wins : α → α → Bool)

def prevail (old : Option α) (value : α) : α :=
  match old with
  | none => value
  | some old => if wins value old then value else old

def upsert (m : SortedMap κ α) (k : κ) (value : α) : SortedMap κ α := m.insert k (prevail wins (m.get k) value)

def upsertAll (m : SortedMap κ α) (entries : List (κ × α)) : SortedMap κ α :=
  entries.foldl (fun m entry => m.upsert wins entry.1 entry.2) m

variable {wins} {m : SortedMap κ α} {k other : κ} {value found : α} {entries : List (κ × α)}

theorem prevail_cases (wins : α → α → Bool) (old : Option α) (value : α) :
    prevail wins old value = value ∨ ∃ kept, old = some kept ∧ wins value kept = false ∧ prevail wins old value = kept := by
  unfold prevail
  split
  · exact .inl rfl
  rename_i kept
  split
  · exact .inl rfl
  · rename_i lost
    exact .inr ⟨kept, rfl, by simpa using lost, rfl⟩

@[simp] theorem get_upsert (wins : α → α → Bool) (m : SortedMap κ α) (k other : κ) (value : α) :
    (m.upsert wins k value).get other = if other = k then some (prevail wins (m.get k) value) else m.get other :=
  get_insert ..

theorem upsertAll_source (there : (m.upsertAll wins entries).get k = some found) :
    (k, found) ∈ entries ∨ m.get k = some found := by
  induction entries generalizing m with
  | nil => exact .inr there
  | cons entry rest ih =>
    rcases ih there with filed | before
    · exact .inl (List.mem_cons_of_mem _ filed)
    rw [get_upsert] at before
    split at before
    · rename_i same
      cases before
      rcases prevail_cases wins (m.get entry.1) entry.2 with taken | ⟨kept, old, _, stays⟩
      · rw [taken, same]
        exact .inl (List.mem_cons_self ..)
      · rw [stays, same]
        exact .inr old
    · exact .inr before

section Sources

variable {τ ρ : Type} [LinearOrder ρ]

/-- Values that a source reports together; a full batch takes back what the source has reported before. -/
structure Batch (κ α τ : Type) where
  source : τ
  full : Bool
  entries : List (κ × α)

variable [DecidableEq τ]

def outranks (source : α → τ) (rank : α → ρ) (value old : α) : Bool :=
  source value = source old || rank old < rank value

def recede (source : α → τ) (m : SortedMap κ α) (batch : Batch κ α τ) : SortedMap κ α :=
  if batch.full then m.filter fun _ value => source value ≠ batch.source else m

def mergeBatch (source : α → τ) (rank : α → ρ) (m : SortedMap κ α) (batch : Batch κ α τ) : SortedMap κ α :=
  (m.recede source batch).upsertAll (outranks source rank) batch.entries

theorem get_recede (source : α → τ) (m : SortedMap κ α) (batch : Batch κ α τ) (k : κ) :
    (m.recede source batch).get k = (m.get k).filter fun value => !batch.full || source value ≠ batch.source := by
  unfold recede
  split
  · rename_i full
    rw [get_filter]
    simp [full]
  · rename_i kept
    cases m.get k <;> simp [kept, Option.filter]

end Sources

end TapeRs.SortedMap

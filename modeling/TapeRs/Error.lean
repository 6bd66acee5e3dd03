namespace TapeRs

/-- The failures the modelled functions return, with the texts of the source. -/
inductive TapeError where
  | scsiCommand (status senseKey asc ascq : UInt8)
  | ownershipLost (device detail : String)
  | localCapacity (reason : String)
  | refused (reason : String)
  | invalidResponse (expected actual : Nat)
  | ltfs (message : String)
  | xml (message : String)
  | xmlSource (message : String)
  | recoveryRestricted (reason : String)
  | commitFailed (stage : String) (source : TapeError)
deriving DecidableEq, Repr

namespace TapeError

def hexByte (byte : UInt8) : String :=
  "0x" ++ String.ofList [Nat.digitChar (byte.toNat / 16), Nat.digitChar (byte.toNat % 16)]

def display : TapeError → String
  | scsiCommand status senseKey asc ascq =>
    "SCSI command failed: status=" ++ hexByte status ++ ", sense_key=" ++ hexByte senseKey ++ ", asc=" ++ hexByte asc ++
      ", ascq=" ++ hexByte ascq ++ ", sense=None"
  | ownershipLost device detail => "执行资格已失去 (" ++ device ++ "): " ++ detail
  | localCapacity reason => "本地读取存储准入失败: " ++ reason
  | refused reason => "Refused: " ++ reason
  | invalidResponse expected actual => 
    "Invalid response: expected " ++ Nat.repr expected ++ " bytes, got " ++ Nat.repr actual
  | ltfs message => "LTFS format error: " ++ message
  | xml message => "XML error: " ++ message
  | xmlSource _ => "XML parse error"
  | recoveryRestricted reason => "Recovery restricted: " ++ reason
  | commitFailed stage source => "Commit failed at " ++ stage ++ ": " ++ source.display

end TapeError

abbrev Result := Except TapeError

namespace Result

variable {ε α β : Type}

@[simp] theorem ok_bind (value : α) (next : α → Except ε β) : ((Except.ok value : Except ε α) >>= next) = next value := rfl

@[simp] theorem error_bind (error : TapeError) (next : α → Result β) :
    ((Except.error error : Result α) >>= next) = .error error := rfl

@[simp] theorem bind_return (first : Result α) : (first >>= fun value => .ok value) = first := by
  cases first <;> rfl

theorem bind_ok {first : Except ε α} {next : α → Except ε β} {result : β} :
    (first >>= next) = .ok result ↔ ∃ value, first = .ok value ∧ next value = .ok result := by
  cases first <;> simp [Bind.bind, Except.bind]

theorem map_ok {first : Result α} {f : α → β} {result : β} :
    (f <$> first) = .ok result ↔ ∃ value, first = .ok value ∧ f value = result := by
  cases first <;> simp [Functor.map, Except.map]

theorem foldlM_embed {γ : Type} {embed : α → β} {small : α → γ → Result α} {large : β → γ → Result β} {items : List γ}
    (each : ∀ item ∈ items, ∀ state, large (embed state) item = embed <$> small state item) (state : α) :
    items.foldlM large (embed state) = embed <$> items.foldlM small state := by
  induction items generalizing state with
  | nil => rfl
  | cons item later ih =>
    rw [List.foldlM_cons, List.foldlM_cons, each item (by simp) state]
    cases small state item with
    | error error => rfl
    | ok next => exact ih (fun other member => each other (List.mem_cons_of_mem _ member)) next

def passes {α : Type} (result : Result α) (test : α → Bool) : Bool :=
  match result with
  | .ok value => test value
  | .error _ => false

theorem passes_iff {result : Result α} {test : α → Bool} :
    passes result test ↔ ∃ value, result = .ok value ∧ test value := by
  cases result <;> simp [passes]

end Result

end TapeRs

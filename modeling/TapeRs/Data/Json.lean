import TapeRs.Data.SortedMap
import TapeRs.Data.Text

namespace TapeRs.Json

open Assoc List

/-- A JSON value. Numbers that are no unsigned 64-bit integers keep their text; the fields of an object stand in
    key order. -/
inductive Value where
  | null
  | bool (b : Bool)
  | number (n : UInt64)
  | decimal (text : String)
  | string (s : String)
  | array (items : List Value)
  | object (fields : List (String × Value))

namespace Value

instance : Inhabited Value := ⟨.null⟩

def isNull : Value → Bool
  | null => true
  | _ => false

def asBool : Value → Option Bool
  | bool b => some b
  | _ => none

def asNumber : Value → Option UInt64
  | number n => some n
  | _ => none

def asString : Value → Option String
  | string s => some s
  | _ => none

def asArray : Value → Option (List Value)
  | array items => some items
  | _ => none

def asObject : Value → Option (List (String × Value))
  | object fields => some fields
  | _ => none

def isTrue (v : Value) : Bool := v.asBool = some true

def isText (v : Value) (text : String) : Bool := v.asString = some text

def isNumber (v : Value) (n : UInt64) : Bool := v.asNumber = some n

def get (v : Value) (key : String) : Option Value :=
  v.asObject.bind (Assoc.find key)

def field (v : Value) (key : String) : Value := (v.get key).getD null

/-- Assigns a field. A `null` becomes an object first; other values cannot take a field and stay as they are. -/
def set (v : Value) (key : String) (value : Value) : Value :=
  match v with
  | null => object [(key, value)]
  | object fields => object (Assoc.insert key value fields)
  | other => other

def setPath (v : Value) : List String → Value → Value
  | [], value => value
  | key :: rest, value => v.set key ((v.field key).setPath rest value)

def remove (v : Value) (key : String) : Value :=
  match v with
  | object fields => object (Assoc.erase key fields)
  | other => other

def retain (v : Value) (f : Value → Bool) : Value :=
  match v with
  | object fields => object (fields.filter fun entry => f entry.2)
  | other => other

def ofFields (fields : List (String × Value)) : Value :=
  object (fields.foldl (fun built entry => Assoc.insert entry.1 entry.2 built) [])

def escapedSize (c : Char) : Nat :=
  if c = '"' ∨ c = '\\' ∨ c.toNat = 8 ∨ c.toNat = 9 ∨ c.toNat = 10 ∨ c.toNat = 12 ∨ c.toNat = 13 then 2
  else if c.toNat < 32 then 6
  else c.utf8Size

def quotedSize (text : String) : Nat := 2 + (text.toList.map escapedSize).sum

mutual
def size : Value → Nat
  | null => 4
  | bool b => if b then 4 else 5
  | number n => (Text.decimal n).utf8ByteSize
  | decimal text => text.utf8ByteSize
  | string s => quotedSize s
  | array items => 2 + itemsSize items + (items.length - 1)
  | object fields => 2 + fieldsSize fields + (fields.length - 1)

def itemsSize : List Value → Nat
  | [] => 0
  | item :: rest => item.size + itemsSize rest

def fieldsSize : List (String × Value) → Nat
  | [] => 0
  | (key, value) :: rest => quotedSize key + 1 + value.size + fieldsSize rest
end

@[simp] theorem get_null (key : String) : null.get key = none := rfl

@[simp] theorem field_null (key : String) : null.field key = null := rfl

theorem get_object (fields : List (String × Value)) (key : String) : (object fields).get key = find key fields := rfl

def Extends (v : Value) : Prop := v = null ∨ ∃ fields, v = object fields

theorem get_set {v : Value} (takes : v.Extends) (key other : String) (value : Value) :
    (v.set key value).get other = if other = key then some value else v.get other := by
  rcases takes with rfl | ⟨fields, rfl⟩
  · show find other [(key, value)] = _
    rw [find_cons]
    simp only [eq_comm, find_nil, get_null]
  · exact find_insert key other value fields

theorem get_ofFields (fields : List (String × Value)) (key : String) :
    (ofFields fields).get key = find key fields.reverse := by
  induction fields using reverseRecOn with
  | nil => rfl
  | append_singleton fields entry ih =>
    rw [ofFields, foldl_append, get_object, foldl_cons, foldl_nil, find_insert, reverse_append,
      reverse_singleton, singleton_append, find_cons, ← ih]
    simp only [eq_comm]
    rfl

theorem get_single (key other : String) (value : Value) :
    (ofFields [(key, value)]).get other = if key = other then some value else none := by
  rw [get_ofFields, reverse_singleton, find_cons]
  rfl

theorem length_ofFields {fields : List (String × Value)} (nodup : (fields.map Prod.fst).Nodup) :
    (fields.foldl (fun built entry => insert entry.1 entry.2 built) []).length = fields.length := by
  have filed : ∀ fields : List (String × Value), (fields.map Prod.fst).Nodup →
      (fields.foldl (fun built entry => insert entry.1 entry.2 built) []).length = fields.length ∧
        ∀ key, key ∈ (fields.foldl (fun built entry => insert entry.1 entry.2 built) []).map Prod.fst ↔
          key ∈ fields.map Prod.fst := by
    intro fields
    induction fields using reverseRecOn with
    | nil => simp
    | append_singleton fields entry ih =>
      intro nodup
      rw [map_append, nodup_append] at nodup
      obtain ⟨length, keys⟩ := ih nodup.1
      have fresh : entry.1 ∉ fields.map Prod.fst := fun old => nodup.2.2 entry.1 old entry.1 (by simp) rfl
      rw [foldl_append, foldl_cons, foldl_nil]
      refine ⟨?_, fun key => ?_⟩
      · rw [length_insert (fun old => fresh ((keys _).mp old)), length, length_append, length_singleton]
      · rw [mem_keys_insert, keys, map_append, mem_append, map_singleton, mem_singleton, or_comm]
  exact (filed fields nodup).1

def Rows (P : String → Value → Prop) (v : Value) : Prop := ∃ entries, v = .object entries ∧ ∀ entry ∈ entries, P entry.1 entry.2

namespace Rows

variable {P : String → Value → Prop} {v : Value} {key : String}

theorem nil : Rows P (.object []) := ⟨[], rfl, nofun⟩

theorem get (all : Rows P v) {row : Value} (there : v.get key = some row) : P key row := by
  obtain ⟨entries, rfl, each⟩ := all
  exact each _ (mem_of_find there)

theorem set (all : Rows P v) {row : Value} (fits : P key row) : Rows P (v.set key row) := by
  obtain ⟨entries, rfl, each⟩ := all
  refine ⟨_, rfl, fun entry member => ?_⟩
  rcases mem_insert member with rfl | old
  · exact fits
  · exact each entry old

theorem setPath (all : Rows P v) {rest : List String} {value : Value} (fresh : P key (Value.setPath .null rest value))
    (kept : ∀ row, P key row → P key (row.setPath rest value)) : Rows P (v.setPath (key :: rest) value) := by
  refine all.set ?_
  cases there : v.get key with
  | none =>
    rw [field, there]
    exact fresh
  | some row =>
    rw [field, there]
    exact kept row (all.get there)

theorem remove (all : Rows P v) (key : String) : Rows P (v.remove key) := by
  obtain ⟨entries, rfl, each⟩ := all
  exact ⟨_, rfl, fun entry member => each entry (mem_filter.mp member).1⟩

theorem retain (all : Rows P v) (keep : Value → Bool) : Rows P (v.retain keep) := by
  obtain ⟨entries, rfl, each⟩ := all
  exact ⟨_, rfl, fun entry member => each entry (mem_filter.mp member).1⟩

end Rows

end Value

end TapeRs.Json

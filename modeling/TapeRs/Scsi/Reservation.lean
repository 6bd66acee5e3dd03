import Mathlib.Data.List.Destutter
import TapeRs.Data.SortedMap

namespace TapeRs.Scsi

def exclusiveAccess : UInt8 := 0x03

def keyPrefix : UInt8 := 0x4C

/-- A reservation key: prefix, node and the round in 48 bits. -/
structure ReservationKey where
  value : UInt64
deriving DecidableEq, Repr

namespace ReservationKey

def new (node : UInt8) (round : UInt64) : ReservationKey :=
  ⟨(keyPrefix.toUInt64 <<< 56) ||| (node.toUInt64 <<< 48) ||| (round &&& 0xFFFFFFFFFFFF)⟩

def node (key : ReservationKey) : UInt8 := (key.value >>> 48).toUInt8

def round (key : ReservationKey) : UInt64 := key.value &&& 0xFFFFFFFFFFFF

def isOurs (key : ReservationKey) : Bool := (key.value >>> 56).toUInt8 = keyPrefix

theorem round_new (node : UInt8) {round : UInt64} (small : round.toNat < 2 ^ 48) : (new node round).round = round := by
  have mask : (0xFFFFFFFFFFFF : UInt64).toNat = 2 ^ 48 - 1 := by decide
  have top : (keyPrefix.toUInt64 <<< 56).toNat % 2 ^ 48 = 0 := by decide
  have middle : (node.toUInt64 <<< 48).toNat % 2 ^ 48 = 0 := by
    rw [UInt64.toNat_shiftLeft]
    simp
    omega
  apply UInt64.toNat_inj.mp
  unfold ReservationKey.round new
  rw [UInt64.toNat_and, mask, Nat.and_two_pow_sub_one_eq_mod, UInt64.toNat_or, UInt64.toNat_or, UInt64.toNat_and, mask,
    Nat.and_two_pow_sub_one_eq_mod, Nat.or_mod_two_pow, Nat.or_mod_two_pow, top, middle, Nat.mod_eq_of_lt small,
    Nat.mod_eq_of_lt small]
  simp

theorem isOurs_new (node : UInt8) (round : UInt64) : (new node round).isOurs := by
  have mask : (0xFFFFFFFFFFFF : UInt64).toNat = 2 ^ 48 - 1 := by decide
  have places : (56 : UInt64).toNat % 64 = 56 := by decide
  have top : (keyPrefix.toUInt64 <<< 56).toNat / 2 ^ 56 = 0x4C := by decide
  have middle : (node.toUInt64 <<< 48).toNat / 2 ^ 56 = 0 := by
    have bound := node.toNat_lt
    rw [UInt64.toNat_shiftLeft]
    simp
    omega
  have low : (round &&& 0xFFFFFFFFFFFF).toNat / 2 ^ 56 = 0 := by
    rw [UInt64.toNat_and, mask, Nat.and_two_pow_sub_one_eq_mod]
    omega
  apply decide_eq_true
  apply UInt8.toNat_inj.mp
  unfold new
  rw [UInt64.toNat_toUInt8, UInt64.toNat_shiftRight, places, UInt64.toNat_or, UInt64.toNat_or,
    Nat.shiftRight_or_distrib, Nat.shiftRight_or_distrib, Nat.shiftRight_eq_div_pow, Nat.shiftRight_eq_div_pow,
    Nat.shiftRight_eq_div_pow, top, middle, low]
  rfl

end ReservationKey

/-- What the device reports: its registrations and the key and type of the holder. -/
structure PrStatus where
  generation : UInt32
  keys : List UInt64
  holder : Option (UInt64 × UInt8)
deriving DecidableEq, Repr

/-- A device with persistent reservations: one registered key per initiator, and at most one of them holds the
    reservation. -/
structure Device where
  generation : UInt32
  registered : SortedMap Nat UInt64
  /-- The initiator that holds the reservation, and its type. -/
  holder : Option (Nat × UInt8)
  held : ∀ nexus kind, holder = some (nexus, kind) → (registered.get nexus).isSome

namespace Device

def holderKey (d : Device) : Option UInt64 := d.holder.bind fun owner => d.registered.get owner.1

def refuses (d : Device) (nexus : Nat) : Bool :=
  d.holder.any fun owner => owner.2 = exclusiveAccess && owner.1 ≠ nexus

def readReservation (d : Device) : Option (UInt64 × UInt8) :=
  d.holder.bind fun owner => (d.registered.get owner.1).map fun key => (key, owner.2)

/-- REGISTER AND IGNORE EXISTING KEY; key 0 takes the registration back, and a reservation with it. -/
def registerIgnore (d : Device) (nexus : Nat) (key : UInt64) : Device :=
  if key = 0 then
    { generation := d.generation + 1
      registered := d.registered.erase nexus
      holder := d.holder.filter fun owner => owner.1 ≠ nexus
      held := by
        intro other kind holds
        obtain ⟨here, apart⟩ := Option.filter_eq_some_iff.mp holds
        rw [SortedMap.get_erase, if_neg (of_decide_eq_true apart)]
        exact d.held other kind here }
  else
    { generation := d.generation + 1
      registered := d.registered.insert nexus key
      holder := d.holder
      held := by
        intro other kind holds
        rw [SortedMap.get_insert]
        split
        · rfl
        · exact d.held other kind holds }

/-- RESERVE; refused without the registration, and to anybody but the holder. -/
def reserve (d : Device) (nexus : Nat) (key : UInt64) (kind : UInt8) : Option Device :=
  if registered : d.registered.get nexus = some key then
    match d.holder with
    | none => some { d with
        holder := some (nexus, kind)
        held := by
          rintro _ _ ⟨⟩
          rw [registered]
          rfl }
    | some owner => if owner = (nexus, kind) then some d else none
  else none

/-- RELEASE; from a registered initiator that is not the holder it does nothing. -/
def release (d : Device) (nexus : Nat) (key : UInt64) (kind : UInt8) : Option Device :=
  if d.registered.get nexus = some key then
    match d.holder with
    | none => some d
    | some owner =>
      if owner.1 ≠ nexus then some d
      else if owner.2 = kind then some { d with holder := none, held := nofun }
      else none
  else none

/-- PREEMPT: the registrations with the named key go, and a reservation held with it passes to the initiator. -/
def preempt (d : Device) (nexus : Nat) (key : UInt64) (kind : UInt8) (named : UInt64) : Option Device :=
  if registered : d.registered.get nexus = some key ∧ d.registered.entries.any (fun entry => entry.2 = named) then
    let rest := d.registered.filter fun other registered => registered ≠ named || other = nexus
    if holds : d.holderKey = some named then
      some
        { generation := d.generation + 1
          registered := rest
          holder := some (nexus, kind)
          held := by
            rintro _ _ ⟨⟩
            rw [SortedMap.get_filter, registered.1]
            simp [Option.filter] }
    else
      some
        { generation := d.generation + 1
          registered := rest
          holder := d.holder
          held := by
            intro other kind holder
            obtain ⟨key, found⟩ := Option.isSome_iff_exists.mp (d.held other kind holder)
            have apart : key ≠ named := by
              rintro rfl
              exact holds (by rw [holderKey, holder]; exact found)
            rw [SortedMap.get_filter, found]
            simp [Option.filter, apart] }
  else none

end Device

/-- Why a device is not confirmed. -/
inductive Doubt where
  | keys (keys : List UInt64)
  | holder (holder : Option (UInt64 × UInt8))
  | generation
deriving DecidableEq, Repr

inductive FenceOutcome where
  | fenced (before after : PrStatus)
  | unsupported
  | unconfirmed (reason : Doubt) (status : PrStatus)
  | superseded (holder : ReservationKey)
deriving DecidableEq, Repr

def newerRoundHolder (status : PrStatus) (key : ReservationKey) : Option ReservationKey :=
  (status.holder.map fun holder => ReservationKey.mk holder.1).filter fun holder =>
    holder.isOurs && key.round < holder.round

/-- The command that a call of `fence` sends next, with what it has read before; `read_status` takes two commands. -/
inductive Phase where
  | readKeys
  | readHolder (generation : UInt32) (keys : List UInt64)
  | register (before : PrStatus)
  | midKeys (before : PrStatus)
  | midHolder (before : PrStatus) (generation : UInt32) (keys : List UInt64)
  | withdraw (newer : ReservationKey)
  | preempt (before mid : PrStatus) (holder : UInt64)
  | release (before mid : PrStatus) (kind : UInt8)
  | reserve (before mid : PrStatus)
  | clean (before : PrStatus) (stale : List UInt64)
  | afterKeys (before : PrStatus)
  | afterHolder (before : PrStatus) (generation : UInt32) (keys : List UInt64)
  /-- The call has returned; `none` stands for an error. -/
  | done (outcome : Option FenceOutcome)
deriving DecidableEq, Repr

namespace Phase

def cleaning (before : PrStatus) (stale : List UInt64) : Phase :=
  if stale.isEmpty then afterKeys before else clean before stale

def staleKeys (key : ReservationKey) (mid : PrStatus) : List UInt64 :=
  (mid.keys.filter fun k => k ≠ key.value && some k ≠ mid.holder.map Prod.fst).destutter (· ≠ ·)

def acquiring (key : ReservationKey) (before mid : PrStatus) : Phase :=
  match mid.holder with
  | some (holder, kind) =>
    if holder ≠ key.value then preempt before mid holder
    -- The reservation has followed the new key of this initiator.
    else if kind ≠ exclusiveAccess then release before mid kind
    else cleaning before (staleKeys key mid)
  | none => reserve before mid

def conclusion (key : ReservationKey) (before after : PrStatus) : FenceOutcome :=
  if after.keys ≠ [key.value] then .unconfirmed (.keys after.keys) after
  else if after.holder ≠ some (key.value, exclusiveAccess) then .unconfirmed (.holder after.holder) after
  else if after.generation = before.generation then .unconfirmed .generation after
  else .fenced before after

def hasRegistered : Phase → Bool
  | readKeys | readHolder .. | register _ => false
  | _ => true

def rewrites : Phase → Bool
  | register _ | withdraw _ | preempt .. | clean .. => true
  | _ => false

def registers : Phase → Bool
  | register _ | withdraw _ => true
  | _ => false

end Phase

def keysRead : Nat := 127

/-- One command of a call of `fence` with its key, from its initiator; the device lists keys in an order of its own. -/
def fenceStep (listed : List UInt64 → List UInt64) (nexus : Nat) (key : ReservationKey) (phase : Phase) (d : Device) :
    Phase × Device :=
  let keys := (listed (d.registered.entries.map Prod.snd)).take keysRead
  let after := fun (result : Option Device) (next : Phase) =>
    match result with
    | some d => (next, d)
    | none => (.done none, d)
  match phase with
  | .readKeys => (.readHolder d.generation keys, d)
  | .readHolder generation keys =>
    let before : PrStatus := { generation, keys, holder := d.readReservation }
    match newerRoundHolder before key with
    | some newer => (.done (some (.superseded newer)), d)
    | none => (.register before, d)
  | .register before => (.midKeys before, d.registerIgnore nexus key.value)
  | .midKeys before => (.midHolder before d.generation keys, d)
  | .midHolder before generation keys =>
    let mid : PrStatus := { generation, keys, holder := d.readReservation }
    match newerRoundHolder mid key with
    | some newer => (.withdraw newer, d)
    | none => (.acquiring key before mid, d)
  | .withdraw newer => (.done (some (.superseded newer)), d.registerIgnore nexus 0)
  | .preempt before mid holder =>
    after (d.preempt nexus key.value exclusiveAccess holder) (.cleaning before (Phase.staleKeys key mid))
  | .release before mid kind => after (d.release nexus key.value kind) (.reserve before mid)
  | .reserve before mid =>
    after (d.reserve nexus key.value exclusiveAccess) (.cleaning before (Phase.staleKeys key mid))
  | .clean before [] => (.afterKeys before, d)
  | .clean before (stale :: rest) => after (d.preempt nexus key.value exclusiveAccess stale) (.cleaning before rest)
  | .afterKeys before => (.afterHolder before d.generation keys, d)
  | .afterHolder before generation keys =>
    (.done (some (Phase.conclusion key before { generation, keys, holder := d.readReservation })), d)
  | .done outcome => (.done outcome, d)

/-- Calls of `fence` on one device: the node, the round and the initiator of each. -/
structure Fleet (ι : Type) where
  node : ι → UInt8
  round : ι → UInt64
  nexus : ι → Nat
  /-- The order in which the device lists keys. -/
  listed : List UInt64 → List UInt64
  distinct : Function.Injective round
  small : ∀ call, (round call).toNat < 2 ^ 48
  permuted : ∀ keys, (listed keys).Perm keys

/-- What can happen to a call: it sends its next command, it ends with an error, or its first read shows that the device
    has no reservations. -/
inductive Event (ι : Type) where
  | command (call : ι)
  | fail (call : ι)
  | unsupported (call : ι)

structure Scene (ι : Type) where
  device : Device
  phase : ι → Phase

namespace Fleet

variable {ι : Type} [DecidableEq ι]

def key (f : Fleet ι) (call : ι) : ReservationKey := .new (f.node call) (f.round call)

def step (f : Fleet ι) (s : Scene ι) : Event ι → Scene ι
  | .command call =>
    let (phase, device) := fenceStep f.listed (f.nexus call) (f.key call) (s.phase call) s.device
    { device, phase := Function.update s.phase call phase }
  | .fail call =>
    match s.phase call with
    | .done _ => s
    | _ => { s with phase := Function.update s.phase call (.done none) }
  | .unsupported call =>
    match s.phase call with
    | .readKeys | .readHolder .. => { s with phase := Function.update s.phase call (.done (some .unsupported)) }
    | _ => s

def start (d : Device) : Scene ι := { device := d, phase := fun _ => .readKeys }

end Fleet

end TapeRs.Scsi

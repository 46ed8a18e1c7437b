import Homestead.Model.ImpuStore
import Homestead.Model.XmlUtils
import Mathlib.Algebra.Group.Nat.Defs
import Std.Data.ExtTreeMap.Lemmas

/-!
# `Homestead.Model.ImplicitRegistrationSet`: the IRS object

The embedding of `MemcachedImplicitRegistrationSet` (`include/memcached_cache.h` and the
first part of `src/memcached_cache.cpp`): its members, its setters, and the functions the
cache uses to merge it with a stored record. `Data` is the `std::map` from an identity to
what the user did with it. A method that calls `time(0)` takes the reading as `now`.
-/

set_option autoImplicit false

namespace Homestead

/-- `MemcachedImplicitRegistrationSet::State`. -/
inductive State
  | added
  | unchanged
  | deleted
  deriving DecidableEq, Repr

/-- `MemcachedImplicitRegistrationSet::Data`. -/
abbrev Data := Std.ExtTreeMap String State

/-- Conversion of a 64-bit value to a 32-bit `int`. -/
def toInt32 (x : Int) : Int := x.bmod (2 ^ 32)

namespace Data

/-- `get_elements_in_state`. -/
def elementsInState (data : Data) (status : State) : List String :=
  (data.toList.filter fun entry => entry.2 = status).map Prod.fst

/-- The elements that `get_associated_impis` and `get_associated_impus` list. -/
def present (data : Data) : List String :=
  (data.toList.filter fun entry => entry.2 = .unchanged ∨ entry.2 = .added).map Prod.fst

/-- `has_changed_data`. -/
def hasChanged (data : Data) : Bool :=
  data.toList.any fun entry => entry.2 = .added ∨ entry.2 = .deleted

/-- The body of the second loop of `set_elements`. -/
def setElement (data : Data) (entry : String) : Data :=
  match data[entry]? with
  | none => data.insert entry .added
  | some .deleted => data.insert entry .added
  | some _ => data

/-- `set_elements`: what is not in `updated` is marked as deleted, and what is in
`updated`, except `ignore`, is added when it is unknown or deleted. -/
def setElements (updated : List String) (data : Data) (ignore : String) : Data :=
  (updated.filter (· ≠ ignore)).foldl setElement
    (data.map fun key state => if key ∈ updated then state else .deleted)

/-- `merge_data_sets`: an unknown element of the store becomes unchanged, and an unchanged
element that the store does not list becomes deleted. -/
def mergeDataSets (data : Data) (added : List String) : Data :=
  (added.foldl (fun data key => data.insertIfNew key .unchanged) data).map fun key state =>
    if state = .unchanged ∧ key ∉ added then .deleted else state

/-- `delete_tracked`. -/
def deleteTracked (data : Data) : Data := data.map fun _ _ => .deleted

/-- The map with every listed element unchanged, as the constructor from a stored record
builds it. -/
def ofStored (keys : List String) : Data :=
  keys.foldl (fun data key => data.insert key .unchanged) ∅

/-- The elements `keys` that are unknown are recorded as deleted. -/
def emplaceDeleted (data : Data) (keys : List String) : Data :=
  keys.foldl (fun data key => data.insertIfNew key .deleted) data

end Data

/-- `MemcachedImplicitRegistrationSet`. -/
structure Irs where
  defaultImpu : String
  store : Option StoreId
  cas : Nat
  ttl : Int
  refreshed : Bool
  existing : Bool
  impis : Data
  associatedImpus : Data
  imsSubXml : String
  imsSubXmlSet : Bool
  chargingAddresses : ChargingAddresses
  chargingAddressesSet : Bool
  registrationState : RegistrationState
  registrationStateSet : Bool

namespace Irs

/-- The constructor from a stored record. -/
def ofDefaultImpu (d : DefaultImpu) (now : Int) : Irs where
  defaultImpu := d.impu
  store := d.store
  cas := d.cas
  ttl := toInt32 (d.expiry - now)
  refreshed := false
  existing := true
  impis := .ofStored d.impis
  associatedImpus := .ofStored d.associatedImpus
  imsSubXml := d.serviceProfile
  imsSubXmlSet := false
  chargingAddresses := d.chargingAddresses
  chargingAddressesSet := false
  registrationState := d.registrationState
  registrationStateSet := false

/-- The constructor for a subscriber that is not known yet. It leaves `_ttl` and
`_registration_state` uninitialised, so they are arguments here. -/
def new (ttl : Int) (registrationState : RegistrationState) : Irs where
  defaultImpu := ""
  store := none
  cas := 0
  ttl := ttl
  refreshed := true
  existing := false
  impis := ∅
  associatedImpus := ∅
  imsSubXml := ""
  imsSubXmlSet := false
  chargingAddresses := {}
  chargingAddressesSet := false
  registrationState := registrationState
  registrationStateSet := false

/-! ### Getters -/

def getAssociatedImpis (irs : Irs) : List String := irs.impis.present

def getAssociatedImpus (irs : Irs) : List String := irs.associatedImpus.present

/-- `impis(State)`. -/
def impisIn (irs : Irs) (status : State) : List String := irs.impis.elementsInState status

/-- `impus(State)`. -/
def impusIn (irs : Irs) (status : State) : List String :=
  irs.associatedImpus.elementsInState status

def hasChangedImpis (irs : Irs) : Bool := irs.impis.hasChanged

def hasChangedImpus (irs : Irs) : Bool := irs.associatedImpus.hasChanged

def hasChanged (irs : Irs) : Bool :=
  !irs.existing || irs.refreshed || irs.imsSubXmlSet || irs.chargingAddressesSet ||
    irs.registrationStateSet || irs.hasChangedImpus || irs.hasChangedImpis

/-! ### Setters -/

/-- `set_ims_sub_xml`. The default IMPU follows the document. -/
def setImsSubXml (px : XmlParser) (irs : Irs) (xml : String) : Irs :=
  let (assocImpus, defaultImpu) := px.getPublicAndDefaultIds xml ""
  { irs with
    imsSubXmlSet := true
    imsSubXml := xml
    defaultImpu := defaultImpu
    associatedImpus := .setElements assocImpus irs.associatedImpus defaultImpu }

def setRegState (irs : Irs) (state : RegistrationState) : Irs :=
  { irs with registrationStateSet := true, registrationState := state }

def addAssociatedImpi (irs : Irs) (impi : String) : Irs :=
  { irs with impis := irs.impis.insert impi .added }

def deleteAssociatedImpi (irs : Irs) (impi : String) : Irs :=
  { irs with impis := irs.impis.insert impi .deleted }

def setChargingAddresses (irs : Irs) (addresses : ChargingAddresses) : Irs :=
  { irs with chargingAddressesSet := true, chargingAddresses := addresses }

def setTtl (irs : Irs) (ttl : Int) : Irs := { irs with refreshed := true, ttl := ttl }

/-! ### Functions for the cache -/

def markAsRefreshed (irs : Irs) : Irs := { irs with refreshed := true }

/-- `create_impu`. The sum is an `int`, and the constructor widens it. -/
def createImpu (irs : Irs) (cas : Nat) (store : Option StoreId) (now : Int) : DefaultImpu where
  impu := irs.defaultImpu
  associatedImpus := irs.getAssociatedImpus
  impis := irs.getAssociatedImpis
  registrationState := irs.registrationState
  chargingAddresses := irs.chargingAddresses
  serviceProfile := irs.imsSubXml
  cas := cas
  expiry := toInt32 (irs.ttl + toInt32 now)
  store := store

/-- `update_from_impu_from_store`. A field the user set keeps its value. The stored
associated IMPUs are taken over when the IRS is not refreshed, and otherwise only
recorded, so that their records are cleared up. -/
def updateFromImpuFromStore (irs : Irs) (d : DefaultImpu) (now : Int) : Irs :=
  { irs with
    registrationState :=
      if irs.registrationStateSet then irs.registrationState else d.registrationState
    imsSubXml := if irs.imsSubXmlSet then irs.imsSubXml else d.serviceProfile
    chargingAddresses :=
      if irs.chargingAddressesSet then irs.chargingAddresses else d.chargingAddresses
    impis := irs.impis.mergeDataSets d.impis
    ttl := if irs.refreshed then irs.ttl else toInt32 (d.expiry - toInt32 now)
    associatedImpus :=
      if irs.refreshed then irs.associatedImpus.emplaceDeleted d.associatedImpus
      else irs.associatedImpus.mergeDataSets d.associatedImpus }

def deleteAssocImpus (irs : Irs) : Irs :=
  { irs with associatedImpus := irs.associatedImpus.deleteTracked }

def deleteImpis (irs : Irs) : Irs := { irs with impis := irs.impis.deleteTracked }

end Irs

end Homestead

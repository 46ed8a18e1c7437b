import Homestead.Lib.Prog
import Homestead.Lib.CasTable

/-!
# `Homestead.Model.ImpuStore`: the records and the store calls

The embedding of `include/impu_store.h` and `src/impu_store.cpp` at the level of one
`ImpuStore` call. A store is two tables, `impu` and `impi_mapping`, with compare-and-set
writes. A stored value is what `to_data` keeps of a record (`ImpuData`, `MappingData`), or
bytes that `from_data` does not decode (`Blob.corrupt`).

`Call` lists the calls the cache makes, one constructor for each `ImpuStore` method, with
`time` for `time(0)` and `progressCb` for the progress callback. `serve` answers them: the
store of this module is reliable, deletes unconditionally, and drops nothing by itself, so
the time to live that the `set` methods pass on is not part of it. The clock is an
arbitrary sequence of readings.
-/

set_option autoImplicit false

namespace Homestead

/-- `Store::Status`. -/
inductive Status
  | ok
  | notFound
  | dataContention
  | error
  deriving DecidableEq, Repr

/-- The test of every retry loop, `status == Store::Status::DATA_CONTENTION`. -/
def Status.isContention (s : Status) : Bool := decide (s = .dataContention)

/-- The test `status == Store::Status::OK`. -/
def Status.isOk (s : Status) : Bool := decide (s = .ok)

/-- `enum RegistrationState`. -/
inductive RegistrationState
  | registered
  | unregistered
  | notRegistered
  | unchanged
  | unknown
  deriving DecidableEq, Repr

/-- The charging addresses of a subscriber, in priority order. -/
structure ChargingAddresses where
  ccfs : List String := []
  ecfs : List String := []
  deriving DecidableEq, Repr

/-- An `ImpuStore*`. The null pointer is `none` of `Option StoreId`. -/
abbrev StoreId := Nat

/-- `ImpuStore::DefaultImpu`, with the members of its base class. -/
structure DefaultImpu where
  impu : String
  associatedImpus : List String
  impis : List String
  registrationState : RegistrationState
  chargingAddresses : ChargingAddresses
  serviceProfile : String
  cas : Nat
  expiry : Int
  store : Option StoreId
  deriving DecidableEq, Repr

def DefaultImpu.hasAssociatedImpu (d : DefaultImpu) (impu : String) : Bool :=
  decide (impu ∈ d.associatedImpus)

/-- `ImpuStore::AssociatedImpu`. -/
structure AssociatedImpu where
  impu : String
  defaultImpu : String
  cas : Nat
  expiry : Int
  store : Option StoreId
  deriving DecidableEq, Repr

/-- `ImpuStore::Impu`: the two subclasses. -/
inductive Impu
  | default (d : DefaultImpu)
  | associated (a : AssociatedImpu)
  deriving DecidableEq, Repr

/-- The key a record is stored under. -/
def Impu.impu : Impu → String
  | .default d => d.impu
  | .associated a => a.impu

def Impu.cas : Impu → Nat
  | .default d => d.cas
  | .associated a => a.cas

/-- `ImpuStore::ImpiMapping`. -/
structure ImpiMapping where
  impi : String
  cas : Nat
  expiry : Int
  defaultImpus : List String
  deriving DecidableEq, Repr

namespace ImpiMapping

/-- The constructor for a mapping that is not in the store yet. -/
def new (impi impu : String) (expiry : Int) : ImpiMapping :=
  { impi := impi, cas := 0, expiry := expiry, defaultImpus := [impu] }

def hasDefaultImpu (m : ImpiMapping) (impu : String) : Bool :=
  decide (impu ∈ m.defaultImpus)

def addDefaultImpu (m : ImpiMapping) (impu : String) : ImpiMapping :=
  { m with defaultImpus := m.defaultImpus ++ [impu] }

def removeDefaultImpu (m : ImpiMapping) (impu : String) : ImpiMapping :=
  { m with defaultImpus := m.defaultImpus.filter (· ≠ impu) }

def isEmpty (m : ImpiMapping) : Bool := m.defaultImpus.isEmpty

def setExpiry (m : ImpiMapping) (expiry : Int) : ImpiMapping :=
  { m with expiry := expiry }

end ImpiMapping

/-! ### What a store keeps of a record -/

/-- The JSON members `DefaultImpu::write_json` writes. -/
structure DefaultImpuData where
  registrationState : Bool
  serviceProfile : String
  expiry : Int
  assocImpu : List String
  impis : List String
  ecfs : List String
  ccfs : List String
  deriving DecidableEq, Repr

/-- The JSON object of a record. `from_data` tells the two kinds apart by the presence of
the `default_impu` member. -/
inductive ImpuData
  | default (d : DefaultImpuData)
  | associated (defaultImpu : String) (expiry : Int)
  deriving DecidableEq, Repr

/-- The JSON members `ImpiMapping::write_json` writes. -/
structure MappingData where
  defaultImpus : List String
  expiry : Int
  deriving DecidableEq, Repr

/-- The bytes under a key, by what `from_data` makes of them. -/
inductive Blob (α : Type)
  | decoded (a : α)
  | corrupt
  deriving DecidableEq, Repr

/-- `DefaultImpu::write_json`. A state other than `REGISTERED` is written as `false`. -/
def DefaultImpu.toData (d : DefaultImpu) : DefaultImpuData where
  registrationState := decide (d.registrationState = .registered)
  serviceProfile := d.serviceProfile
  expiry := d.expiry
  assocImpu := d.associatedImpus
  impis := d.impis
  ecfs := d.chargingAddresses.ecfs
  ccfs := d.chargingAddresses.ccfs

/-- `Impu::to_data`, up to the byte encoding. -/
def Impu.toData : Impu → ImpuData
  | .default d => .default d.toData
  | .associated a => .associated a.defaultImpu a.expiry

/-- `DefaultImpu::from_json`. -/
def DefaultImpuData.fromData (d : DefaultImpuData) (impu : String) (cas : Nat)
    (store : StoreId) : DefaultImpu where
  impu := impu
  associatedImpus := d.assocImpu
  impis := d.impis
  registrationState := if d.registrationState then .registered else .unregistered
  chargingAddresses := { ccfs := d.ccfs, ecfs := d.ecfs }
  serviceProfile := d.serviceProfile
  cas := cas
  expiry := d.expiry
  store := some store

/-- `Impu::from_data`, up to the byte encoding. -/
def ImpuData.fromData (impu : String) (data : ImpuData) (cas : Nat) (store : StoreId) : Impu :=
  match data with
  | .default d => .default (d.fromData impu cas store)
  | .associated defaultImpu expiry =>
    .associated
      { impu := impu, defaultImpu := defaultImpu, cas := cas, expiry := expiry,
        store := some store }

/-- `ImpiMapping::to_data`, up to the byte encoding. -/
def ImpiMapping.toData (m : ImpiMapping) : MappingData :=
  { defaultImpus := m.defaultImpus, expiry := m.expiry }

/-- `ImpiMapping::from_data`, up to the byte encoding. -/
def MappingData.fromData (impi : String) (data : MappingData) (cas : Nat) : ImpiMapping :=
  { impi := impi, cas := cas, expiry := data.expiry, defaultImpus := data.defaultImpus }

/-! ### Stores and calls -/

/-- One `ImpuStore`: its two tables. -/
structure ImpuStore where
  impus : CasTable String (Blob ImpuData)
  mappings : CasTable String (Blob MappingData)

def ImpuStore.empty : ImpuStore := { impus := .empty, mappings := .empty }

/-- The stores of a deployment, and the readings `time(0)` will give. -/
structure World where
  stores : StoreId → ImpuStore
  clock : Nat → Int

namespace World

/-- The world with the store `s` replaced. -/
def set (w : World) (s : StoreId) (st : ImpuStore) : World :=
  { w with stores := fun s' => if s' = s then st else w.stores s' }

def setImpus (w : World) (s : StoreId) (t : CasTable String (Blob ImpuData)) : World :=
  w.set s { w.stores s with impus := t }

def setMappings (w : World) (s : StoreId) (t : CasTable String (Blob MappingData)) : World :=
  w.set s { w.stores s with mappings := t }

/-- The world after one clock reading. -/
def tick (w : World) : World := { w with clock := fun n => w.clock (n + 1) }

@[simp] theorem set_stores_self (w : World) (s : StoreId) (st : ImpuStore) :
    (w.set s st).stores s = st := by
  simp [set]

theorem set_stores_ne (w : World) {s s' : StoreId} (st : ImpuStore) (h : s' ≠ s) :
    (w.set s st).stores s' = w.stores s' := by
  simp [set, h]

@[simp] theorem setImpus_stores_self (w : World) (s : StoreId)
    (t : CasTable String (Blob ImpuData)) :
    (w.setImpus s t).stores s = { w.stores s with impus := t } := by
  simp [setImpus]

theorem setImpus_stores_ne (w : World) {s s' : StoreId} (t : CasTable String (Blob ImpuData))
    (h : s' ≠ s) : (w.setImpus s t).stores s' = w.stores s' :=
  set_stores_ne _ _ h

@[simp] theorem setMappings_stores_self (w : World) (s : StoreId)
    (t : CasTable String (Blob MappingData)) :
    (w.setMappings s t).stores s = { w.stores s with mappings := t } := by
  simp [setMappings]

theorem setMappings_stores_ne (w : World) {s s' : StoreId}
    (t : CasTable String (Blob MappingData)) (h : s' ≠ s) :
    (w.setMappings s t).stores s' = w.stores s' :=
  set_stores_ne _ _ h

@[simp] theorem tick_stores (w : World) : w.tick.stores = w.stores := rfl

end World

/-- The calls of the cache, each on the store it is made on. -/
inductive Call
  | getImpu (s : StoreId) (impu : String)
  | setImpu (s : StoreId) (impu : Impu)
  | setImpuWithoutCas (s : StoreId) (impu : Impu)
  | addImpu (s : StoreId) (impu : Impu)
  | deleteImpu (s : StoreId) (impu : Impu)
  | getImpiMapping (s : StoreId) (impi : String)
  | setImpiMapping (s : StoreId) (mapping : ImpiMapping)
  | deleteImpiMapping (s : StoreId) (mapping : ImpiMapping)
  | time
  | progressCb
  deriving DecidableEq

/-- The answer to a call. A `get` answers a status and its out parameter. -/
def Call.Resp : Call → Type
  | .getImpu _ _ => Status × Option Impu
  | .getImpiMapping _ _ => Status × Option ImpiMapping
  | .time => Int
  | .progressCb => Unit
  | _ => Status

/-- `ImpuStore::get_impu`. -/
def ImpuStore.getImpu (st : ImpuStore) (s : StoreId) (impu : String) : Status × Option Impu :=
  match st.impus.cells impu with
  | none => (.notFound, none)
  -- The out parameter keeps its value, which is the null pointer at every call.
  | some (_, .corrupt) => (.error, none)
  | some (cas, .decoded data) => (.ok, some (data.fromData impu cas s))

/-- `ImpuStore::get_impi_mapping`. -/
def ImpuStore.getImpiMapping (st : ImpuStore) (impi : String) : Status × Option ImpiMapping :=
  match st.mappings.cells impi with
  | none => (.notFound, none)
  | some (_, .corrupt) => (.error, none)
  | some (cas, .decoded data) => (.ok, some (data.fromData impi cas))

/-- `Store::set_data` on the `impu` table with the given CAS value. -/
def World.casImpu (w : World) (s : StoreId) (impu : Impu) (cas : Nat) : Status × World :=
  match (w.stores s).impus.cas impu.impu cas (.decoded impu.toData) with
  | some t => (.ok, w.setImpus s t)
  | none => (.dataContention, w)

/-- `Store::set_data` on the `impi_mapping` table. -/
def World.casMapping (w : World) (s : StoreId) (m : ImpiMapping) : Status × World :=
  match (w.stores s).mappings.cas m.impi m.cas (.decoded m.toData) with
  | some t => (.ok, w.setMappings s t)
  | none => (.dataContention, w)

/-- The reliable store. -/
def serve : Handler Call Call.Resp World
  | .getImpu s impu, w => ((w.stores s).getImpu s impu, w)
  | .setImpu s impu, w => w.casImpu s impu impu.cas
  | .setImpuWithoutCas s impu, w =>
    (Status.ok, w.setImpus s ((w.stores s).impus.put impu.impu (.decoded impu.toData)))
  -- The CAS value 0 is the one of a key that is not there.
  | .addImpu s impu, w => w.casImpu s impu 0
  | .deleteImpu s impu, w => (Status.ok, w.setImpus s ((w.stores s).impus.erase impu.impu))
  | .getImpiMapping s impi, w => ((w.stores s).getImpiMapping impi, w)
  | .setImpiMapping s m, w => w.casMapping s m
  | .deleteImpiMapping s m, w =>
    (Status.ok, w.setMappings s ((w.stores s).mappings.erase m.impi))
  | .time, w => (w.clock 0, w.tick)
  | .progressCb, w => ((), w)

/-- The stores after a call that was answered with `r`, when the store may answer anything. A
write that is answered `OK` was made, and one that is not was not. -/
def World.answered (w : World) : (o : Call) → (r : o.Resp) → World
  | .setImpu s impu, r =>
    if Status.isOk r then w.setImpus s ((w.stores s).impus.put impu.impu (.decoded impu.toData)) else w
  | .setImpuWithoutCas s impu, r =>
    if Status.isOk r then w.setImpus s ((w.stores s).impus.put impu.impu (.decoded impu.toData)) else w
  | .addImpu s impu, r =>
    if Status.isOk r then w.setImpus s ((w.stores s).impus.put impu.impu (.decoded impu.toData)) else w
  | .deleteImpu s impu, r =>
    if Status.isOk r then w.setImpus s ((w.stores s).impus.erase impu.impu) else w
  | .setImpiMapping s m, r =>
    if Status.isOk r then w.setMappings s ((w.stores s).mappings.put m.impi (.decoded m.toData)) else w
  | .deleteImpiMapping s m, r =>
    if Status.isOk r then w.setMappings s ((w.stores s).mappings.erase m.impi) else w
  | .getImpu _ _, _ => w
  | .getImpiMapping _ _, _ => w
  | .time, _ => w
  | .progressCb, _ => w

/-- A program of the cache. -/
abbrev CacheProg := Prog Call Call.Resp

namespace CacheProg

def getImpu (s : StoreId) (impu : String) : CacheProg (Status × Option Impu) :=
  .call (.getImpu s impu) .ret

def setImpu (s : StoreId) (impu : Impu) : CacheProg Status := .call (.setImpu s impu) .ret

def setImpuWithoutCas (s : StoreId) (impu : Impu) : CacheProg Status :=
  .call (.setImpuWithoutCas s impu) .ret

def addImpu (s : StoreId) (impu : Impu) : CacheProg Status := .call (.addImpu s impu) .ret

def deleteImpu (s : StoreId) (impu : Impu) : CacheProg Status := .call (.deleteImpu s impu) .ret

def getImpiMapping (s : StoreId) (impi : String) : CacheProg (Status × Option ImpiMapping) :=
  .call (.getImpiMapping s impi) .ret

def setImpiMapping (s : StoreId) (m : ImpiMapping) : CacheProg Status :=
  .call (.setImpiMapping s m) .ret

def deleteImpiMapping (s : StoreId) (m : ImpiMapping) : CacheProg Status :=
  .call (.deleteImpiMapping s m) .ret

/-- `time(0)`. -/
def timeNow : CacheProg Int := .call .time .ret

def progressCb : CacheProg Unit := .call .progressCb .ret

end CacheProg

end Homestead

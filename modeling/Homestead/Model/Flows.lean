import Homestead.Model.BaseHssCache

/-!
# `Homestead.Model.Flows`: what the handlers do with the cache

The part of `src/http_handlers.cpp` (`ImpuRegDataTask`) and `src/diameter_handlers.cpp`
(`PushProfileTask`) that touches the cache: a lookup, the setters on the IRS, and a put. The
HSS is between the lookup and the put, and its answer is in the arguments of the setters.

* `Setter` lists the setters, and `Irs.applyAll` applies a list of them.
* `regSetters`, `callSetters` and `pprSetters` are the setters of a registration, of a call
  for an unknown subscriber, and of a profile push.
* `Request` is one of the three, and `MemcachedCache.lookup` finds the IRS for it.
* `Client.run` is the whole flow on one store, and `MemcachedCache.deregister` the flow of a
  deregistration.
-/

set_option autoImplicit false

namespace Homestead

/-- The setters that the handlers call on an IRS. -/
inductive Setter
  | setRegState (state : RegistrationState)
  | addAssociatedImpi (impi : String)
  | setChargingAddresses (addresses : ChargingAddresses)
  | setImsSubXml (xml : String)
  | setTtl (ttl : Int)
  deriving DecidableEq, Repr

def Setter.apply (px : XmlParser) (setter : Setter) (irs : Irs) : Irs :=
  match setter with
  | .setRegState state => irs.setRegState state
  | .addAssociatedImpi impi => irs.addAssociatedImpi impi
  | .setChargingAddresses addresses => irs.setChargingAddresses addresses
  | .setImsSubXml xml => irs.setImsSubXml px xml
  | .setTtl ttl => irs.setTtl ttl

/-- The setters in order. -/
def Irs.applyAll (px : XmlParser) (irs : Irs) (setters : List Setter) : Irs :=
  setters.foldl (fun irs setter => setter.apply px irs) irs

/-- A registration: `process_received_reg_data`, with the private identity when it is a new
binding, and then the success case of `on_sar_response`. -/
def regSetters (impi : Option String) (addresses : ChargingAddresses) (xml : String)
    (ttl : Int) : List Setter :=
  .setRegState .registered :: impi.toList.map .addAssociatedImpi ++
    [.setChargingAddresses addresses, .setImsSubXml xml, .setTtl ttl]

/-- A call for a subscriber that the cache does not know. -/
def callSetters (addresses : ChargingAddresses) (xml : String) (ttl : Int) : List Setter :=
  [.setRegState .unregistered, .setChargingAddresses addresses, .setImsSubXml xml, .setTtl ttl]

/-- A profile push: `on_get_ims_sub_success`, on the IRS with the default identity of the
document. It does not set the TTL. -/
def pprSetters (xml : Option String) (addresses : Option ChargingAddresses) : List Setter :=
  xml.toList.map .setImsSubXml ++ addresses.toList.map .setChargingAddresses

/-- The IRS that `on_get_reg_data_failure` creates when the lookup answers `NOT_FOUND`. -/
def Irs.blank (ttl : Int) (registrationState : RegistrationState) : Irs :=
  (Irs.new ttl registrationState).setRegState .notRegistered

/-- A request that puts an IRS. -/
inductive Request
  | reg (impi : Option String) (addresses : ChargingAddresses) (xml : String) (ttl : Int)
  | call (addresses : ChargingAddresses) (xml : String) (ttl : Int)
  | ppr (xml : Option String) (addresses : Option ChargingAddresses)

/-- The setters of a request. -/
def Request.setters : Request → List Setter
  | .reg impi addresses xml ttl => regSetters impi addresses xml ttl
  | .call addresses xml ttl => callSetters addresses xml ttl
  | .ppr xml addresses => pprSetters xml addresses

/-- A registration or a call, the requests that create an IRS when none is found. -/
def Request.creates : Request → Bool
  | .ppr _ _ => false
  | _ => true

/-- A registration or a profile push, the requests that put an IRS that is found. A call
for a known subscriber answers from the cache. -/
def Request.updates : Request → Bool
  | .call _ _ _ => false
  | _ => true

/-- How a handler finds its IRS. -/
inductive Lookup
  | byImpu (impu : String)
  | byImpi (impi : String)

/-- The lookup. Both ways answer a status and the IRSs found. -/
def MemcachedCache.lookup (cache : MemcachedCache) :
    Lookup → CacheProg (Status × List Irs)
  | .byImpu impu => do
    let found ← cache.getImplicitRegistrationSetForImpu impu
    pure (found.1, found.2.toList)
  | .byImpi impi => cache.getImplicitRegistrationSetsForImpi impi []

/-- A client of the cache for the IRS with one default IMPU: how it looks the IRS up, the
setters it calls on an IRS that is found, and the blank IRS and the setters it calls on it
when there is none. A client without setters for its case puts nothing. -/
structure Client where
  lookup : Lookup
  onFound : Option (List Setter)
  onNotFound : Option (Irs × List Setter)

/-- The IRS with the default IMPU `D` that the client puts after its lookup. -/
def Client.target (px : XmlParser) (D : String) (client : Client) :
    Status × List Irs → Option Irs
  | (.ok, irss) =>
    (irss.find? (·.defaultImpu = D)).bind fun irs => client.onFound.map (irs.applyAll px)
  | (.notFound, _) => client.onNotFound.map fun new => new.1.applyAll px new.2
  | _ => none

/-- The client on the local store of the cache: a lookup, the setters, and the put on that
store. The answer is `none` when the client has nothing to put. -/
def Client.run (px : XmlParser) (cache : MemcachedCache) (D : String) (client : Client) :
    CacheProg (Option (Status × Irs)) := do
  let found ← cache.lookup client.lookup
  match client.target px D found with
  | some irs => do
    let put ← putIrsAction irs cache.localStore
    pure (some put)
  | none => pure none

/-- A deregistration on the local store of the cache: a lookup, and the delete of the IRS with the
default IMPU `D`. The answer is `none` when the lookup has not found it. -/
def MemcachedCache.deregister (cache : MemcachedCache) (D : String) (l : Lookup) :
    CacheProg (Option (Status × Irs)) := do
  let found ← cache.lookup l
  match found.2.find? (·.defaultImpu = D) with
  | some irs => do
    let deleted ← deleteIrsAction irs cache.localStore
    pure (some deleted)
  | none => pure none

/-- The client that looks up the IRS for `D` and puts it back after the setters. -/
def updateClient (lookup : Lookup) (setters : List Setter) : Client :=
  { lookup := lookup, onFound := some setters, onNotFound := none }

/-- The client of a request. `ttl` and `state` are what the constructor leaves
uninitialised. -/
def Request.client (req : Request) (lookup : Lookup) (ttl : Int) (state : RegistrationState) :
    Client where
  lookup := lookup
  onFound := if req.updates then some req.setters else none
  onNotFound := if req.creates then some (Irs.blank ttl state, req.setters) else none

end Homestead

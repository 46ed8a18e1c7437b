import Homestead.Model.ImplicitRegistrationSet

/-!
# `Homestead.Model.MemcachedCache`: the cache over its stores

The embedding of `MemcachedCache` (`src/memcached_cache.cpp`, from
`get_impu_for_impu_gr` on). Each method is a program over the store calls. A method that
mutates the IRS returns it next to its status. Each retry loop of the source is a
`Prog.loop` with the variables that live across its passes as its state: `status` alone in
the loops that remove and refresh a mapping, `status` and `mapping` in the loop that adds
one, `status`, the IRS and `impu` in `perform_irs_impu_action`.

Trails, stopwatches and logging are left out. The remote reads of `get_impu_for_impu_gr`
run in the order of the configuration, which is the order their results are used in.
-/

set_option autoImplicit false

namespace Homestead

open CacheProg

/-- The stores of a `MemcachedCache`. -/
structure MemcachedCache where
  localStore : StoreId
  remoteStores : List StoreId

/-! ### Looking up -/

namespace MemcachedCache

/-- `get_impu_for_impu_gr`: the local store, and on `NOT_FOUND` the first remote store
that answers `OK`. Every remote store is read. -/
def getImpuForImpuGr (cache : MemcachedCache) (impu : String) :
    CacheProg (Status × Option Impu) := do
  let found ← getImpu cache.localStore impu
  if found.1 = .notFound then
    Prog.forEach cache.remoteStores
      (fun remoteStore found => do
        let remote ← getImpu remoteStore impu
        if found.1 ≠ .ok ∧ remote.1 = .ok then pure remote else pure found)
      found
  else
    pure found

/-- The loop of `get_impi_mapping_gr` over the remote stores, left at the first `OK`. -/
def getImpiMappingRemote (impi : String) (found : Status × Option ImpiMapping) :
    List StoreId → CacheProg (Status × Option ImpiMapping)
  | [] => pure found
  | remoteStore :: remoteStores => do
    let remote ← getImpiMapping remoteStore impi
    -- When every remote store fails, the status of the local store stays.
    if remote.1 = .ok then pure remote else getImpiMappingRemote impi found remoteStores

/-- `get_impi_mapping_gr`. -/
def getImpiMappingGr (cache : MemcachedCache) (impi : String) :
    CacheProg (Status × Option ImpiMapping) := do
  let found ← getImpiMapping cache.localStore impi
  if found.1 = .notFound then getImpiMappingRemote impi found cache.remoteStores
  else pure found

/-- The check that `get_implicit_registration_set_for_impu` makes on the target of an
associated IMPU: it must be a default IMPU that lists the IMPU looked up. -/
def checkTarget (impu : String) (target : Status × Option Impu) : Status × Option DefaultImpu :=
  match target with
  | (.ok, some (.default d)) => if d.hasAssociatedImpu impu then (.ok, some d) else (.notFound, none)
  | (.ok, _) => (.notFound, none)
  | (status, _) => (status, none)

/-- The record `get_implicit_registration_set_for_impu` builds the IRS from. -/
def getDefaultImpuForImpu (cache : MemcachedCache) (impu : String) :
    CacheProg (Status × Option DefaultImpu) := do
  let data ← cache.getImpuForImpuGr impu
  match data with
  | (.ok, some (.default d)) => pure (.ok, some d)
  | (.ok, some (.associated a)) => do
    let target ← cache.getImpuForImpuGr a.defaultImpu
    pure (checkTarget impu target)
  | (status, _) => pure (status, none)

/-- `get_implicit_registration_set_for_impu`. -/
def getImplicitRegistrationSetForImpu (cache : MemcachedCache) (impu : String) :
    CacheProg (Status × Option Irs) := do
  let found ← cache.getDefaultImpuForImpu impu
  match found with
  | (.ok, some d) => do
    let now ← timeNow
    pure (.ok, some (Irs.ofDefaultImpu d now))
  | (status, _) => pure (status, none)

/-- `get_impus_for_impi`. -/
def getImpusForImpi (cache : MemcachedCache) (impi : String) :
    CacheProg (Status × List String) := do
  let found ← cache.getImpiMappingGr impi
  match found with
  | (.ok, some mapping) => pure (.ok, mapping.defaultImpus)
  | (status, _) => pure (status, [])

/-- `perform`: the action on the local store, the progress callback, and the action on
each remote store with its status ignored. The action may mutate `s`. -/
def perform {σ : Type} (cache : MemcachedCache) (action : StoreId → σ → CacheProg (Status × σ))
    (s : σ) : CacheProg (Status × σ) := do
  let found ← action cache.localStore s
  if found.1 = .ok then do
    -- The request is answered here, before the remote stores are reached.
    progressCb
    let s ← Prog.forEach cache.remoteStores
      (fun remoteStore s => do
        let inner ← action remoteStore s
        pure inner.2)
      found.2
    pure (.ok, s)
  else
    pure found

end MemcachedCache

/-! ### IMPI mappings -/

/-- One pass of the loop that removes the default IMPU from the mapping of a deleted
IMPI. The status stays as it was when there is nothing to remove. -/
def removeMappingPass (irs : Irs) (store : StoreId) (impi : String) (status : Status) :
    CacheProg Status := do
  let found ← getImpiMapping store impi
  match found with
  | (.ok, some mapping) =>
    if mapping.hasDefaultImpu irs.defaultImpu then
      let mapping := mapping.removeDefaultImpu irs.defaultImpu
      if mapping.isEmpty then deleteImpiMapping store mapping
      else setImpiMapping store mapping
    else pure status
  | _ => pure status

def removeMapping (irs : Irs) (store : StoreId) (impi : String) (status : Status) :
    CacheProg Status :=
  Prog.loop (removeMappingPass irs store impi) Status.isContention status

/-- The mapping that the refresh of an unchanged IMPI writes: the one found, with the
default IMPU put back if it is missing, or a new one. -/
def refreshedMapping (irs : Irs) (impi : String) (now : Int)
    (found : Status × Option ImpiMapping) : ImpiMapping :=
  let expiry := toInt32 (irs.ttl + toInt32 now)
  match found with
  | (.ok, some mapping) =>
    let mapping := mapping.setExpiry expiry
    -- Another client may have deleted the default IMPU from it in the meantime.
    if mapping.hasDefaultImpu irs.defaultImpu then mapping
    else mapping.addDefaultImpu irs.defaultImpu
  | _ => .new impi irs.defaultImpu expiry

/-- One pass of the loop that refreshes the mapping of an unchanged IMPI. -/
def refreshMappingPass (irs : Irs) (store : StoreId) (impi : String) (_status : Status) :
    CacheProg Status := do
  let found ← getImpiMapping store impi
  let now ← timeNow
  setImpiMapping store (refreshedMapping irs impi now found)

def refreshMapping (irs : Irs) (store : StoreId) (impi : String) (status : Status) :
    CacheProg Status :=
  Prog.loop (refreshMappingPass irs store impi) Status.isContention status

/-- The variables of the loop that adds a mapping. -/
structure AddMappingState where
  status : Status
  mapping : ImpiMapping

/-- What the loop that adds a mapping does after contention, with the mapping it has
found. Unless the IRS is refreshed, a mapping that has the default IMPU already is good. -/
def resolveMapping (irs : Irs) (now : Int) (mapping : ImpiMapping) : AddMappingState :=
  let mapping := mapping.setExpiry (toInt32 (irs.ttl + toInt32 now))
  if mapping.hasDefaultImpu irs.defaultImpu then
    { status := if irs.refreshed then .dataContention else .ok, mapping := mapping }
  else
    { status := .dataContention, mapping := mapping.addDefaultImpu irs.defaultImpu }

/-- One pass of the loop that adds a mapping. On `NOT_FOUND` after contention the mapping
is left untouched, with the CAS value it has. -/
def addMappingPass (irs : Irs) (store : StoreId) (impi : String) (s : AddMappingState) :
    CacheProg AddMappingState := do
  let status ← setImpiMapping store s.mapping
  if status = .dataContention then do
    let found ← getImpiMapping store impi
    match found with
    | (.ok, some mapping) => do
      let now ← timeNow
      pure (resolveMapping irs now mapping)
    -- Deleted since the conflict: the next attempt should not conflict.
    | (.notFound, _) => pure { s with status := status }
    | (innerStatus, _) => pure { s with status := innerStatus }
  else
    pure { s with status := status }

/-- The new IMPI is assumed to have no mapping, so the first attempt has the CAS value 0. -/
def addMapping (irs : Irs) (store : StoreId) (impi : String) (status : Status) :
    CacheProg Status := do
  let now ← timeNow
  let mapping := ImpiMapping.new impi irs.defaultImpu (now + irs.ttl)
  let s ← Prog.loop (addMappingPass irs store impi) (fun s => s.status.isContention)
    { status := status, mapping := mapping }
  pure s.status

/-- `update_irs_impi_mappings`. -/
def updateIrsImpiMappings (irs : Irs) (store : StoreId) : CacheProg Status := do
  let status ← Prog.forEach (irs.impisIn .deleted) (removeMapping irs store) .ok
  let status ←
    if irs.refreshed then
      Prog.forEach (irs.impisIn .unchanged) (refreshMapping irs store) status
    else pure status
  Prog.forEach (irs.impisIn .added) (addMapping irs store) status

/-! ### Associated IMPUs -/

/-- One pass of the loop that removes the record of a deleted associated IMPU. Only a
record that points at this default IMPU is removed. -/
def removeAssociatedImpuPass (irs : Irs) (store : StoreId) (associatedImpu : String)
    (status : Status) : CacheProg Status := do
  let found ← getImpu store associatedImpu
  match found.2 with
  | some (.associated a) =>
    if a.defaultImpu = irs.defaultImpu then deleteImpu store (.associated a) else pure status
  -- A default IMPU is left alone.
  | _ => pure status

def removeAssociatedImpu (irs : Irs) (store : StoreId) (associatedImpu : String)
    (status : Status) : CacheProg Status :=
  Prog.loop (removeAssociatedImpuPass irs store associatedImpu) Status.isContention status

/-- The write of an associated IMPU, for an unchanged one of a refreshed IRS and for an
added one. Its status is not looked at. -/
def writeAssociatedImpu (irs : Irs) (store : StoreId) (associatedImpu : String)
    (status : Status) : CacheProg Status := do
  let now ← timeNow
  let _ ← setImpuWithoutCas store (.associated
    { impu := associatedImpu, defaultImpu := irs.defaultImpu, cas := 0,
      expiry := now + irs.ttl, store := some store })
  pure status

/-- `update_irs_associated_impus`. -/
def updateIrsAssociatedImpus (irs : Irs) (store : StoreId) : CacheProg Status := do
  let status ← Prog.forEach (irs.impusIn .deleted) (removeAssociatedImpu irs store) .ok
  let status ←
    if irs.refreshed then
      Prog.forEach (irs.impusIn .unchanged) (writeAssociatedImpu irs store) status
    else pure status
  Prog.forEach (irs.impusIn .added) (writeAssociatedImpu irs store) status

/-! ### The default IMPU -/

namespace Irs

/-- `get_impu`: no CAS value. -/
def getImpu (irs : Irs) : CacheProg DefaultImpu := do
  let now ← timeNow
  pure (irs.createImpu 0 none now)

/-- `get_impu_from_impu`: the CAS value of the record found. -/
def getImpuFromImpu (irs : Irs) (cas : Nat) (store : Option StoreId) : CacheProg DefaultImpu := do
  let now ← timeNow
  pure (irs.createImpu cas store now)

/-- `get_impu_for_store`: the record with the CAS value the IRS was read with, if it was
read from this store. -/
def getImpuForStore (irs : Irs) (store : StoreId) : CacheProg (Option DefaultImpu) :=
  if irs.store = some store then do
    let now ← timeNow
    pure (some (irs.createImpu irs.cas irs.store now))
  else
    pure none

/-- `update_from_impu_from_store` with its clock reading. -/
def mergeFromStore (irs : Irs) (d : DefaultImpu) : CacheProg Irs :=
  if irs.refreshed then pure (irs.updateFromImpuFromStore d 0)
  else do
    let now ← timeNow
    pure (irs.updateFromImpuFromStore d now)

end Irs

/-- `create_irs_impu`: a blind write when the IRS is registered, and otherwise an add
whose failure by contention is ignored. -/
def createIrsImpu (irs : Irs) (store : StoreId) : CacheProg Status := do
  let impu ← irs.getImpu
  if impu.registrationState = .registered then
    -- The HSS has just assigned the subscriber, so this record is the authoritative one.
    setImpuWithoutCas store (.default impu)
  else do
    -- Whatever is in the store by now is as good, or better if it is a registration.
    let status ← addImpu store (.default impu)
    if status = .dataContention then pure .ok else pure status

/-- `irs_impu_action`: the two methods passed to `perform_irs_impu_action`. -/
inductive IrsImpuAction
  | setImpu
  | deleteImpu
  deriving DecidableEq, Repr

/-- `(store->*action)(impu, trail)`. -/
def IrsImpuAction.apply (action : IrsImpuAction) (store : StoreId) (impu : DefaultImpu) :
    CacheProg Status :=
  match action with
  | .setImpu => CacheProg.setImpu store (.default impu)
  | .deleteImpu => CacheProg.deleteImpu store (.default impu)

/-- The variables of the loop of `perform_irs_impu_action`. -/
structure ImpuActionState where
  status : Status
  irs : Irs
  impu : Option DefaultImpu

/-- The pass that first reads the store's view of the default IMPU, because the IRS is not
from this store or an attempt hit a conflict. -/
def rereadPass (action : IrsImpuAction) (store : StoreId) (irs : Irs) :
    CacheProg ImpuActionState := do
  let mapped ← getImpu store irs.defaultImpu
  match mapped.2 with
  -- Not there, not readable, or not decoded: the status of the read is not looked at.
  | none =>
    match action with
    | .deleteImpu => pure { status := .ok, irs := irs, impu := none }
    | .setImpu => do
      let impu ← irs.getImpu
      let status ← action.apply store impu
      pure { status := status, irs := irs, impu := none }
  | some (.default d) => do
    let irs ← irs.mergeFromStore d
    let impu ← irs.getImpuFromImpu d.cas d.store
    let status ← action.apply store impu
    pure { status := status, irs := irs, impu := none }
  -- The IMPU now belongs to another IRS. Only a refreshed IRS takes it over.
  | some (.associated a) =>
    if irs.refreshed then do
      let impu ← irs.getImpuFromImpu a.cas a.store
      let status ← action.apply store impu
      pure { status := status, irs := irs, impu := none }
    else
      pure { status := .error, irs := irs, impu := none }

/-- One pass of the loop of `perform_irs_impu_action`. -/
def impuActionPass (action : IrsImpuAction) (store : StoreId) (s : ImpuActionState) :
    CacheProg ImpuActionState :=
  match s.impu with
  -- The mainline case: the IRS was read from this store, and there was no conflict yet.
  | some impu => do
    let status ← action.apply store impu
    pure { status := status, irs := s.irs, impu := none }
  | none => rereadPass action store s.irs

/-- `perform_irs_impu_action`. -/
def performIrsImpuAction (action : IrsImpuAction) (irs : Irs) (store : StoreId) :
    CacheProg (Status × Irs) := do
  let impu ← irs.getImpuForStore store
  let s ← Prog.loop (impuActionPass action store) (fun s => s.status.isContention)
    { status := .ok, irs := irs, impu := impu }
  pure (s.status, s.irs)

/-- `update_irs_impu`. -/
def updateIrsImpu (irs : Irs) (store : StoreId) : CacheProg (Status × Irs) :=
  performIrsImpuAction .setImpu irs store

/-- `delete_irs_impu`. -/
def deleteIrsImpu (irs : Irs) (store : StoreId) : CacheProg (Status × Irs) :=
  performIrsImpuAction .deleteImpu irs.markAsRefreshed store

/-! ### Putting and deleting -/

/-- The first of the three operations of `put_irs_action`. -/
def putIrsImpu (irs : Irs) (store : StoreId) : CacheProg (Status × Irs) :=
  if irs.existing then updateIrsImpu irs store
  else do
    let status ← createIrsImpu irs store
    pure (status, irs)

/-- `put_irs_action`. The statuses of the second and third operation are not looked at. -/
def putIrsAction (irs : Irs) (store : StoreId) : CacheProg (Status × Irs) := do
  let put ← putIrsImpu irs store
  if put.1 = .ok then do
    let _ ← updateIrsAssociatedImpus put.2 store
    let _ ← updateIrsImpiMappings put.2 store
    pure put
  else
    pure put

/-- `delete_irs_action`. -/
def deleteIrsAction (irs : Irs) (store : StoreId) : CacheProg (Status × Irs) := do
  let deleted ← deleteIrsImpu irs store
  if deleted.1 = .ok then do
    let irs := deleted.2.deleteAssocImpus
    let status ← updateIrsAssociatedImpus irs store
    if status = .ok then do
      let irs := irs.deleteImpis
      let status ← updateIrsImpiMappings irs store
      pure (status, irs)
    else
      pure (status, irs)
  else
    pure deleted

namespace MemcachedCache

/-- `put_implicit_registration_set`. -/
def putImplicitRegistrationSet (cache : MemcachedCache) (irs : Irs) : CacheProg (Status × Irs) :=
  if irs.hasChanged then cache.perform (fun store irs => putIrsAction irs store) irs
  else do
    progressCb
    pure (.ok, irs)

/-- `delete_implicit_registration_set`. -/
def deleteImplicitRegistrationSet (cache : MemcachedCache) (irs : Irs) :
    CacheProg (Status × Irs) :=
  if irs.existing then cache.perform (fun store irs => deleteIrsAction irs store) irs
  else do
    progressCb
    pure (.ok, irs)

/-- `delete_irss_action`: the status is that of the last existing IRS. -/
def deleteIrssAction (store : StoreId) :
    List Irs → Status → CacheProg (Status × List Irs)
  | [], status => pure (status, [])
  | irs :: irss, status => do
    -- An IRS that was never stored has nothing to delete, and keeps the status.
    let deleted ← if irs.existing then deleteIrsAction irs store else pure (status, irs)
    let rest ← deleteIrssAction store irss deleted.1
    pure (rest.1, deleted.2 :: rest.2)

/-- `delete_implicit_registration_sets`. -/
def deleteImplicitRegistrationSets (cache : MemcachedCache) (irss : List Irs) :
    CacheProg (Status × List Irs) :=
  cache.perform (fun store irss => deleteIrssAction store irss .ok) irss

end MemcachedCache

end Homestead

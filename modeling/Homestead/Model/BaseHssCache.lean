import Homestead.Model.MemcachedCache

/-!
# `Homestead.Model.BaseHssCache`: lookups of several identities

The embedding of `src/base_hss_cache.cpp` and `include/base_ims_subscription.h`, and of the
two methods of `MemcachedCache` over a whole IMS subscription. The base class calls two
virtual methods, `get_implicit_registration_set_for_impu` and `get_impus_for_impi`. They
are the section variables here, and the `MemcachedCache` definitions below supply them.
-/

set_option autoImplicit false

namespace Homestead

open CacheProg

namespace BaseHssCache

variable (getIrsForImpu : String → CacheProg (Status × Option Irs))
variable (getImpusForImpi : String → CacheProg (Status × List String))

/-- The loop of `get_implicit_registration_sets_for_impus`. It is left at the first IMPU
whose lookup answers `OK`, and at the first that answers an error. -/
def impusLoop : List String → List Irs → CacheProg (Status × List Irs)
  | [], result => pure (.ok, result)
  | impu :: impus, result => do
    let inner ← getIrsForImpu impu
    match inner with
    | (.ok, some irs) => pure (.ok, result ++ [irs])
    | (.notFound, _) => impusLoop impus result
    | (innerStatus, _) => pure (innerStatus, result)

/-- The cleanup at the end of both list lookups. -/
def clearOnError (found : Status × List Irs) : Status × List Irs :=
  if found.1 = .ok then found else (found.1, [])

/-- `get_implicit_registration_sets_for_impus`. -/
def getImplicitRegistrationSetsForImpus (impus : List String) (result : List Irs) :
    CacheProg (Status × List Irs) := do
  let found ← impusLoop getIrsForImpu impus result
  pure (clearOnError found)

/-- `get_implicit_registration_sets_for_impi`. -/
def getImplicitRegistrationSetsForImpi (impi : String) (result : List Irs) :
    CacheProg (Status × List Irs) := do
  let impus ← getImpusForImpi impi
  if impus.1 = .ok then getImplicitRegistrationSetsForImpus getIrsForImpu impus.2 result
  else pure (impus.1, result)

/-- The loop of `get_implicit_registration_sets_for_impis`. -/
def impisLoop : List String → List Irs → CacheProg (Status × List Irs)
  | [], result => pure (.ok, result)
  | impi :: impis, result => do
    let inner ← getImplicitRegistrationSetsForImpi getIrsForImpu getImpusForImpi impi []
    match inner.1 with
    | .ok => impisLoop impis (result ++ inner.2)
    | .notFound => impisLoop impis result
    | innerStatus => pure (innerStatus, result)

/-- `get_implicit_registration_sets_for_impis`. -/
def getImplicitRegistrationSetsForImpis (impis : List String) (result : List Irs) :
    CacheProg (Status × List Irs) := do
  let found ← impisLoop getIrsForImpu getImpusForImpi impis result
  pure (clearOnError found)

end BaseHssCache

/-- `BaseImsSubscription`: the IRSs by their default IMPU. -/
abbrev ImsSubscription := Std.ExtTreeMap String Irs

namespace ImsSubscription

/-- The constructor. A later IRS with the same default IMPU replaces an earlier one. -/
def ofIrss (irss : List Irs) : ImsSubscription :=
  irss.foldl (fun sub irs => sub.insert irs.defaultImpu irs) ∅

/-- `set_charging_addrs`. -/
def setChargingAddrs (sub : ImsSubscription) (addresses : ChargingAddresses) : ImsSubscription :=
  sub.map fun _ irs => irs.setChargingAddresses addresses

/-- `get_irs_for_default_impu`. -/
def getIrsForDefaultImpu (sub : ImsSubscription) (impu : String) : Option Irs := sub[impu]?

theorem getElem?_insert (sub : ImsSubscription) (key key' : String) (irs : Irs) :
    (sub.insert key irs)[key']? = if key' = key then some irs else sub[key']? := by
  rw [Std.ExtTreeMap.getElem?_insert]
  simp only [Std.LawfulEqCmp.compare_eq_iff_eq]
  exact if_congr eq_comm rfl rfl

end ImsSubscription

namespace MemcachedCache

def getImplicitRegistrationSetsForImpus (cache : MemcachedCache) (impus : List String)
    (result : List Irs) : CacheProg (Status × List Irs) :=
  BaseHssCache.getImplicitRegistrationSetsForImpus cache.getImplicitRegistrationSetForImpu
    impus result

def getImplicitRegistrationSetsForImpi (cache : MemcachedCache) (impi : String)
    (result : List Irs) : CacheProg (Status × List Irs) :=
  BaseHssCache.getImplicitRegistrationSetsForImpi cache.getImplicitRegistrationSetForImpu
    cache.getImpusForImpi impi result

def getImplicitRegistrationSetsForImpis (cache : MemcachedCache) (impis : List String)
    (result : List Irs) : CacheProg (Status × List Irs) :=
  BaseHssCache.getImplicitRegistrationSetsForImpis cache.getImplicitRegistrationSetForImpu
    cache.getImpusForImpi impis result

/-- `get_ims_subscription`. -/
def getImsSubscription (cache : MemcachedCache) (impi : String) :
    CacheProg (Status × Option ImsSubscription) := do
  let found ← cache.getImpiMappingGr impi
  match found with
  | (.ok, some mapping) => do
    let irss ← cache.getImplicitRegistrationSetsForImpus mapping.defaultImpus []
    if irss.1 = .ok then pure (.ok, some (.ofIrss irss.2)) else pure (irss.1, none)
  | (status, _) => pure (status, none)

/-- `put_ims_sub_action`: every IRS is put, and the status is `OK` whatever the puts
answer. -/
def putImsSubAction (store : StoreId) (sub : ImsSubscription) :
    CacheProg (Status × ImsSubscription) := do
  let sub ← Prog.forEach sub.toList
    (fun irs sub => do
      let put ← putIrsAction irs.2 store
      pure (sub.insert irs.1 put.2))
    sub
  pure (.ok, sub)

/-- `put_ims_subscription`. -/
def putImsSubscription (cache : MemcachedCache) (sub : ImsSubscription) :
    CacheProg (Status × ImsSubscription) :=
  cache.perform putImsSubAction sub

end MemcachedCache

end Homestead

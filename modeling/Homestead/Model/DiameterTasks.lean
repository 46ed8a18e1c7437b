import Homestead.Model.Tasks

/-!
# `Homestead.Model.DiameterTasks`: the requests from the HSS

The embedding of `RegistrationTerminationTask` and `PushProfileTask`
(`src/diameter_handlers.cpp`). What they read of the Diameter message is in `Rtr` and `Ppr`.
-/

set_option autoImplicit false

namespace Homestead

open TaskProg

/-! ### Registration-Termination -/

/-- The values of the Reason-Code AVP. -/
def permanentTermination : Int := 0
def newServerAssigned : Int := 1
def serverChange : Int := 2
def removeScscf : Int := 3

/-- What the task reads of a Registration-Termination request. -/
structure Rtr where
  deregistrationReason : Int
  impi : String
  associatedIdentities : List String
  impus : List String
  deriving DecidableEq, Repr

namespace RegistrationTerminationTask

variable (cache : MemcachedCache) (rtr : Rtr)

/-- `_impis`. -/
def impis : List String := rtr.impi :: rtr.associatedIdentities

/-- `_impus`, which is left empty when all the IRSs of the IMPIs are deregistered. -/
def impus : List String :=
  if rtr.deregistrationReason ≠ serverChange ∧ rtr.deregistrationReason ≠ newServerAssigned then
    rtr.impus
  else []

/-- The call to Sprout, which depends on the reason. Another reason makes none, and no request
gets here with one. -/
def notifySprout (defaultPublicIdentities : List String) : TaskProg HttpCode :=
  if rtr.deregistrationReason = permanentTermination then
    deregisterBindings false defaultPublicIdentities (impis rtr)
  else if rtr.deregistrationReason = removeScscf ∨ rtr.deregistrationReason = serverChange then
    deregisterBindings true defaultPublicIdentities []
  else if rtr.deregistrationReason = newServerAssigned then
    deregisterBindings false defaultPublicIdentities []
  else pure 0

def deleteRegSetsProgress : TaskProg Unit := callback .deleteRegSetsProgress

def deleteRegSetsSuccess : TaskProg Unit := do
  callback .deleteRegSetsSuccess
  deleteThis

def deleteRegSetsFailure (rc : Status) : TaskProg Unit := do
  callback (.deleteRegSetsFailure rc)
  deleteThis

/-- `get_registration_sets_success`. The answer is sent before the cache is changed. -/
def getRegistrationSetsSuccess (regSets : List Irs) : TaskProg Unit := do
  callback (.getRegistrationSetsSuccess regSets)
  if regSets = [] then do
    sendRta .success (impis rtr)
    deleteThis
  else do
    let retCode ← notifySprout rtr (regSets.map Irs.defaultImpu)
    -- Any other code of Sprout is a failure, but the sets are deleted all the same.
    sendRta (if retCode = httpOk then .success else .failure) (impis rtr)
    HssCacheProcessor.deleteImplicitRegistrationSets cache deleteRegSetsSuccess
      deleteRegSetsProgress deleteRegSetsFailure regSets

def getRegistrationSetsFailure (rc : Status) : TaskProg Unit := do
  callback (.getRegistrationSetsFailure rc)
  sendRta .failure (impis rtr)
  deleteThis

/-- `run`. -/
def run : TaskProg Unit :=
  let reason := rtr.deregistrationReason
  -- Without IMPUs, all the sets of the IMPIs are deregistered.
  if impus rtr = [] ∧ (reason = permanentTermination ∨ reason = removeScscf ∨
      reason = serverChange ∨ reason = newServerAssigned) then
    HssCacheProcessor.getImplicitRegistrationSetsForImpis cache
      (getRegistrationSetsSuccess cache rtr) (getRegistrationSetsFailure rtr) (impis rtr)
  else if impus rtr ≠ [] ∧ (reason = permanentTermination ∨ reason = removeScscf) then
    HssCacheProcessor.getImplicitRegistrationSetsForImpus cache
      (getRegistrationSetsSuccess cache rtr) (getRegistrationSetsFailure rtr) (impus rtr)
  -- Not a reason.
  else do
    sendRta .failure (impis rtr)
    deleteThis

end RegistrationTerminationTask

/-! ### Push-Profile -/

/-- What the task reads of a Push-Profile request: the User-Data and the Charging-Information,
if they are there. -/
structure Ppr where
  impi : String
  userData : Option String
  chargingAddrs : Option ChargingAddresses
  deriving DecidableEq, Repr

namespace PushProfileTask

variable (px : XmlParser) (cache : MemcachedCache) (ppr : Ppr)

def onSaveImsSubProgress : TaskProg Unit := do
  callback .onSaveImsSubProgress
  sendPpa .success

def onSaveImsSubSuccess : TaskProg Unit := do
  callback .onSaveImsSubSuccess
  deleteThis

def onSaveImsSubFailure (rc : Status) : TaskProg Unit := do
  callback (.onSaveImsSubFailure rc)
  sendPpa .failure
  deleteThis

/-- The end of `on_get_ims_sub_success`: the charging addresses and the put. -/
def saveImsSub (imsSub : ImsSubscription) : TaskProg Unit :=
  let imsSub := match ppr.chargingAddrs with
    | some chargingAddrs => imsSub.setChargingAddrs chargingAddrs
    | none => imsSub
  HssCacheProcessor.putImsSubscription cache onSaveImsSubSuccess onSaveImsSubProgress
    onSaveImsSubFailure imsSub

/-- `on_get_ims_sub_success`. The document of the PPR goes to the IRS under its default
identity, and Sprout is told before anything is saved. -/
def onGetImsSubSuccess (imsSub : ImsSubscription) : TaskProg Unit := do
  callback (.onGetImsSubSuccess imsSub)
  match ppr.userData with
  | none => saveImsSub cache ppr imsSub
  | some imsSubscription =>
    let newDefaultId := px.getDefaultId imsSubscription ""
    -- A push may not change the default identity: there has to be an IRS under it.
    match imsSub.getIrsForDefaultImpu newDefaultId with
    | none => do
      sendPpa .failure
      deleteThis
    | some irs => do
      let imsSub := imsSub.insert newDefaultId (irs.setImsSubXml px imsSubscription)
      let rc ← changeAssociatedIdentities newDefaultId imsSubscription
      if rc ≠ httpOk then do
        sendPpa .failure
        deleteThis
      else saveImsSub cache ppr imsSub

def onGetImsSubFailure (rc : Status) : TaskProg Unit := do
  callback (.onGetImsSubFailure rc)
  sendPpa .failure
  deleteThis

/-- `run`. -/
def run : TaskProg Unit :=
  -- Nothing is pushed, and nothing has to be saved.
  if ppr.chargingAddrs = none ∧ ppr.userData = none then do
    sendPpa .success
    deleteThis
  else
    HssCacheProcessor.getImsSubscription cache (onGetImsSubSuccess px cache ppr)
      onGetImsSubFailure ppr.impi

end PushProfileTask

end Homestead

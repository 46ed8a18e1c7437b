import Homestead.Model.BaseHssCache
import Homestead.Model.ImpuCodec

/-!
# `Homestead.Model.Tasks`: what a task calls

A task handles one request: an HTTP request (`ImpuRegDataTask`), or a request from the HSS
(`RegistrationTerminationTask`, `PushProfileTask`). It is a program over `TaskCall`: the calls
that its cache operations make on the stores, the calls to the HSS and to Sprout, the answer to
its own request, and `delete this`. The entry of a callback is a call too, so that a run shows
every callback that runs on the task.

`HssCacheProcessor` (`src/hss_cache_processor.cpp`) queues a work item that runs an operation of
the cache, with the progress callback inside it, and then the success or the failure callback.
The thread pool is cpp-common's, and it runs each item once. No task touches itself after it has
queued an item or sent an SAR, so the item, or the answer, is the rest of its run.

Trails, stopwatches, statistics and logging are left out.
-/

set_option autoImplicit false

namespace Homestead

/-! ### Requests and answers -/

/-- `HTTPCode`. -/
abbrev HttpCode := Nat

def httpOk : HttpCode := 200
def httpBadRequest : HttpCode := 400
def httpNotFound : HttpCode := 404
def httpBadMethod : HttpCode := 405
def httpServerError : HttpCode := 500
def httpServerUnavailable : HttpCode := 503
def httpGatewayTimeout : HttpCode := 504

/-- `Cx::ServerAssignmentType`, with the values that are used. -/
inductive ServerAssignmentType
  | registration
  | reRegistration
  | unregisteredUser
  | timeoutDeregistration
  | userDeregistration
  | administrativeDeregistration
  | authenticationFailure
  | authenticationTimeout
  deriving DecidableEq, Repr

/-- `HssConnection::ResultCode`. -/
inductive ResultCode
  | success
  | serverUnavailable
  | notFound
  | forbidden
  | timeout
  | newWildcard
  | assignmentType
  | unknownAuthScheme
  | unknown
  deriving DecidableEq, Repr

/-- `HssConnection::ServerAssignmentRequest`. -/
structure ServerAssignmentRequest where
  impi : String
  impu : String
  serverName : String
  type : ServerAssignmentType
  supportSharedIfcs : Bool
  wildcardImpu : String
  deriving DecidableEq, Repr

/-- `HssConnection::ServerAssignmentAnswer`. -/
structure ServerAssignmentAnswer where
  result : ResultCode
  chargingAddresses : ChargingAddresses := {}
  serviceProfile : String := ""
  wildcardImpu : String := ""
  deriving DecidableEq, Repr

/-- The two result codes of an RTA and a PPA, `DIAMETER_REQ_SUCCESS` and
`DIAMETER_REQ_FAILURE`. -/
inductive DiameterResult
  | success
  | failure
  deriving DecidableEq, Repr

/-! ### Calls -/

/-- The operations of `HssCacheProcessor` with their arguments, as they are queued. -/
inductive CacheRequest
  | getIrsForImpu (impu : String)
  | getIrssForImpis (impis : List String)
  | getIrssForImpus (impus : List String)
  | putIrs (irs : Irs)
  | deleteIrs (irs : Irs)
  | deleteIrss (irss : List Irs)
  | getImsSubscription (impi : String)
  | putImsSubscription (sub : ImsSubscription)

/-- The callbacks of the three tasks with their arguments. -/
inductive Callback
  | onGetRegDataSuccess (irs : Irs)
  | onGetRegDataFailure (rc : Status)
  | onSarResponse (saa : ServerAssignmentAnswer)
  | onPutRegDataProgress
  | onPutRegDataSuccess
  | onPutRegDataFailure (rc : Status)
  | onDelImpuProgress
  | onDelImpuSuccess
  | onDelImpuFailure (rc : Status)
  | getRegistrationSetsSuccess (regSets : List Irs)
  | getRegistrationSetsFailure (rc : Status)
  | deleteRegSetsProgress
  | deleteRegSetsSuccess
  | deleteRegSetsFailure (rc : Status)
  | onGetImsSubSuccess (sub : ImsSubscription)
  | onGetImsSubFailure (rc : Status)
  | onSaveImsSubProgress
  | onSaveImsSubSuccess
  | onSaveImsSubFailure (rc : Status)

/-- The calls of a task.

* `store` is a call that the cache makes for the task.
* `createImplicitRegistrationSet` answers what the constructor leaves uninitialised.
* `buildClearwaterRegDataXml` is `XmlUtils::build_ClearwaterRegData_xml` on the IRS of the
  task, which the cache may have merged with a stored record by then. It may answer any code
  and any document.
* `callback` is the entry of a callback. -/
inductive TaskCall
  | store (call : Call)
  | addWork (request : CacheRequest)
  | callback (cb : Callback)
  | createImplicitRegistrationSet
  | sendServerAssignmentRequest (request : ServerAssignmentRequest)
  | deregisterBindings (sendNotifications : Bool) (defaultPublicIds impis : List String)
  | changeAssociatedIdentities (defaultId userData : String)
  | buildClearwaterRegDataXml (prevRegState : Option RegistrationState)
  | recordPenalty
  | sendHttpReply (rc : HttpCode) (content : String)
  | sendRta (result : DiameterResult) (impis : List String)
  | sendPpa (result : DiameterResult)
  | deleteThis

def TaskCall.Resp : TaskCall → Type
  | .store call => call.Resp
  | .createImplicitRegistrationSet => Int × RegistrationState
  | .sendServerAssignmentRequest _ => ServerAssignmentAnswer
  | .deregisterBindings _ _ _ => HttpCode
  | .changeAssociatedIdentities _ _ => HttpCode
  | .buildClearwaterRegDataXml _ => HttpCode × String
  | _ => Unit

/-- A program of a task. -/
abbrev TaskProg := Prog TaskCall TaskCall.Resp

namespace TaskProg

def addWork (request : CacheRequest) : TaskProg Unit := .call (.addWork request) .ret

def callback (cb : Callback) : TaskProg Unit := .call (.callback cb) .ret

def createImplicitRegistrationSet : TaskProg (Int × RegistrationState) :=
  .call .createImplicitRegistrationSet .ret

def sendServerAssignmentRequest (request : ServerAssignmentRequest) :
    TaskProg ServerAssignmentAnswer :=
  .call (.sendServerAssignmentRequest request) .ret

def deregisterBindings (sendNotifications : Bool) (defaultPublicIds impis : List String) :
    TaskProg HttpCode :=
  .call (.deregisterBindings sendNotifications defaultPublicIds impis) .ret

def changeAssociatedIdentities (defaultId userData : String) : TaskProg HttpCode :=
  .call (.changeAssociatedIdentities defaultId userData) .ret

def buildClearwaterRegDataXml (prevRegState : Option RegistrationState) :
    TaskProg (HttpCode × String) :=
  .call (.buildClearwaterRegDataXml prevRegState) .ret

def recordPenalty : TaskProg Unit := .call .recordPenalty .ret

def sendHttpReply (rc : HttpCode) (content : String) : TaskProg Unit :=
  .call (.sendHttpReply rc content) .ret

def sendRta (result : DiameterResult) (impis : List String) : TaskProg Unit :=
  .call (.sendRta result impis) .ret

def sendPpa (result : DiameterResult) : TaskProg Unit := .call (.sendPpa result) .ret

def deleteThis : TaskProg Unit := .call .deleteThis .ret

end TaskProg

open TaskProg

/-! ### `HssCacheProcessor` -/

/-- A call of the cache inside a task, with the task's progress callback. -/
def runCall (progressCb : TaskProg Unit) : (call : Call) → TaskProg call.Resp
  | .progressCb => progressCb
  | .getImpu s impu => .call (.store (.getImpu s impu)) .ret
  | .setImpu s impu => .call (.store (.setImpu s impu)) .ret
  | .setImpuWithoutCas s impu => .call (.store (.setImpuWithoutCas s impu)) .ret
  | .addImpu s impu => .call (.store (.addImpu s impu)) .ret
  | .deleteImpu s impu => .call (.store (.deleteImpu s impu)) .ret
  | .getImpiMapping s impi => .call (.store (.getImpiMapping s impi)) .ret
  | .setImpiMapping s mapping => .call (.store (.setImpiMapping s mapping)) .ret
  | .deleteImpiMapping s mapping => .call (.store (.deleteImpiMapping s mapping)) .ret
  | .time => .call (.store .time) .ret

/-- A lookup calls no progress callback. -/
def runLookup {α : Type} (p : CacheProg α) : TaskProg α := p.interp (runCall (pure ()))

namespace HssCacheProcessor

variable (cache : MemcachedCache) {α : Type}

/-- The end of a work item that looks up one object. `OK` comes with an object, because
`ImpuStore::get_impu` and `ImpuStore::get_impi_mapping` answer `OK` with a record only. -/
def lookedUp {β : Type} (successCb : β → TaskProg α) (failureCb : Status → TaskProg α) :
    Status × Option β → TaskProg α
  | (.ok, some result) => successCb result
  | (.ok, none) => failureCb .error
  | (rc, _) => failureCb rc

/-- The end of a work item that looks up several objects. -/
def lookedUpAll {β : Type} (successCb : List β → TaskProg α) (failureCb : Status → TaskProg α)
    (found : Status × List β) : TaskProg α :=
  if found.1 = .ok then successCb found.2 else failureCb found.1

/-- The end of a work item that changes the cache. The object that the operation has mutated is
not looked at again. -/
def done {β : Type} (successCb : TaskProg α) (failureCb : Status → TaskProg α)
    (result : Status × β) : TaskProg α :=
  if result.1 = .ok then successCb else failureCb result.1

def getImplicitRegistrationSetForImpu (successCb : Irs → TaskProg α)
    (failureCb : Status → TaskProg α) (impu : String) : TaskProg α := do
  addWork (.getIrsForImpu impu)
  let found ← runLookup (cache.getImplicitRegistrationSetForImpu impu)
  lookedUp successCb failureCb found

def getImplicitRegistrationSetsForImpis (successCb : List Irs → TaskProg α)
    (failureCb : Status → TaskProg α) (impis : List String) : TaskProg α := do
  addWork (.getIrssForImpis impis)
  let found ← runLookup (cache.getImplicitRegistrationSetsForImpis impis [])
  lookedUpAll successCb failureCb found

def getImplicitRegistrationSetsForImpus (successCb : List Irs → TaskProg α)
    (failureCb : Status → TaskProg α) (impus : List String) : TaskProg α := do
  addWork (.getIrssForImpus impus)
  let found ← runLookup (cache.getImplicitRegistrationSetsForImpus impus [])
  lookedUpAll successCb failureCb found

def putImplicitRegistrationSet (successCb : TaskProg α) (progressCb : TaskProg Unit)
    (failureCb : Status → TaskProg α) (irs : Irs) : TaskProg α := do
  addWork (.putIrs irs)
  let result ← (cache.putImplicitRegistrationSet irs).interp (runCall progressCb)
  done successCb failureCb result

def deleteImplicitRegistrationSet (successCb : TaskProg α) (progressCb : TaskProg Unit)
    (failureCb : Status → TaskProg α) (irs : Irs) : TaskProg α := do
  addWork (.deleteIrs irs)
  let result ← (cache.deleteImplicitRegistrationSet irs).interp (runCall progressCb)
  done successCb failureCb result

def deleteImplicitRegistrationSets (successCb : TaskProg α) (progressCb : TaskProg Unit)
    (failureCb : Status → TaskProg α) (irss : List Irs) : TaskProg α := do
  addWork (.deleteIrss irss)
  let result ← (cache.deleteImplicitRegistrationSets irss).interp (runCall progressCb)
  done successCb failureCb result

def getImsSubscription (successCb : ImsSubscription → TaskProg α)
    (failureCb : Status → TaskProg α) (impi : String) : TaskProg α := do
  addWork (.getImsSubscription impi)
  let found ← runLookup (cache.getImsSubscription impi)
  lookedUp successCb failureCb found

def putImsSubscription (successCb : TaskProg α) (progressCb : TaskProg Unit)
    (failureCb : Status → TaskProg α) (sub : ImsSubscription) : TaskProg α := do
  addWork (.putImsSubscription sub)
  let result ← (cache.putImsSubscription sub).interp (runCall progressCb)
  done successCb failureCb result

end HssCacheProcessor

end Homestead

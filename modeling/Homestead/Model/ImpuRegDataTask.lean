import Homestead.Model.Tasks

/-!
# `Homestead.Model.ImpuRegDataTask`: the reg-data request

The embedding of `ImpuRegDataTask` (`src/http_handlers.cpp`, from `is_deregistration_request`
on). The members of the task that change are the fields of `ImpuRegDataTask`, and `_irs` is
passed from function to function.

`on_sar_response` may start over with `get_reg_data`. So the functions return the task to start
over with, and `none` after `delete this`, and `run` is the loop around them.
-/

set_option autoImplicit false

namespace Homestead

open TaskProg

/-- `htp_method`. -/
inductive HttpMethod
  | get
  | put
  | other
  deriving DecidableEq, Repr

/-- What the task reads of an `HttpStack::Request`: the `private_id` parameter and the
`Cache-control` header are empty when they are missing. -/
structure HttpRequest where
  method : HttpMethod
  fullPath : String
  privateId : String
  body : String
  cacheControl : String
  deriving DecidableEq, Repr

/-- `ImpuRegDataTask::RequestType`. -/
inductive RequestType
  | unknown
  | reg
  | call
  | deregUser
  | deregAdmin
  | deregTimeout
  | deregAuthFail
  | deregAuthTimeout
  deriving DecidableEq, Repr

/-- `is_deregistration_request`. -/
def RequestType.isDeregistrationRequest : RequestType → Bool
  | .deregUser | .deregAdmin | .deregTimeout => true
  | _ => false

/-- `is_auth_failure_request`. -/
def RequestType.isAuthFailureRequest : RequestType → Bool
  | .deregAuthFail | .deregAuthTimeout => true
  | _ => false

/-- `sar_type_for_request`. -/
def RequestType.sarType : RequestType → ServerAssignmentType
  | .deregUser => .userDeregistration
  | .deregAdmin => .administrativeDeregistration
  | .deregTimeout => .timeoutDeregistration
  | .deregAuthFail => .authenticationFailure
  | .deregAuthTimeout => .authenticationTimeout
  | _ => .administrativeDeregistration

/-- What the task is configured with, and what it takes from other code: `px` and `privateId`
from rapidxml (`privateId` is the value of the `PrivateID` child of `IMSSubscription`), `json`
from rapidjson, and `urlUnescape` from cpp-common. -/
structure RegDataConfig where
  cache : MemcachedCache
  hssReregistrationTime : Int
  recordTtl : Int
  supportSharedIfcs : Bool
  configuredServerName : String
  px : XmlParser
  privateId : String → Option String
  json : String → Option Json
  urlUnescape : String → String

namespace RegDataConfig

variable (cfg : RegDataConfig)

/-- A member of the body that is a string. -/
def stringMember (body name : String) : Option String :=
  match cfg.json body with
  | some (.object members) =>
    match members.lookup name with
    | some (.string s) => some (cString s)
    | _ => none
  | _ => none

/-- `request_type_from_body`. -/
def requestTypeFromBody (body : String) : RequestType :=
  match cfg.stringMember body "reqtype" with
  | some "reg" => .reg
  | some "call" => .call
  | some "dereg-user" => .deregUser
  | some "dereg-admin" => .deregAdmin
  | some "dereg-timeout" => .deregTimeout
  | some "dereg-auth-failed" => .deregAuthFail
  | some "dereg-auth-timeout" => .deregAuthTimeout
  | _ => .unknown

/-- `server_name_from_body`. -/
def serverNameFromBody (body : String) : String := (cfg.stringMember body "server_name").getD ""

/-- `wildcard_from_body`. -/
def wildcardFromBody (body : String) : String :=
  (cfg.stringMember body "wildcard_identity").getD ""

/-- `XmlUtils::get_private_id`. -/
def getPrivateId (userData : String) : String :=
  match cfg.privateId userData with
  | some "null" => ""
  | some impi => impi
  | none => ""

end RegDataConfig

/-- The part of the path between `/impu/` and the next slash. -/
def impuOfPath (path : String) : String :=
  String.ofList ((path.toList.drop "/impu/".length).takeWhile (· ≠ '/'))

/-- The members of an `ImpuRegDataTask`. -/
structure ImpuRegDataTask where
  req : HttpRequest
  impu : String
  impi : String
  providedServerName : String
  sproutWildcard : String
  hssWildcard : String := ""
  type : RequestType := .unknown
  cachedRegState : RegistrationState := .unknown
  httpRc : HttpCode := httpOk

namespace ImpuRegDataTask

variable (cfg : RegDataConfig)

/-- `wildcard_id`. -/
def wildcardId (t : ImpuRegDataTask) : String :=
  if t.hssWildcard = "" then t.sproutWildcard else t.hssWildcard

/-- `public_id`. -/
def publicId (t : ImpuRegDataTask) : String :=
  if t.wildcardId = "" then t.impu else t.wildcardId

/-- `delete this` at the end of the task. -/
def finish : TaskProg (Option ImpuRegDataTask) := do
  deleteThis
  pure none

/-- `send_reply`. -/
def sendReply (t : ImpuRegDataTask) : TaskProg Unit := do
  -- A failure that was noted earlier decides the reply.
  if t.httpRc ≠ httpOk then
    sendHttpReply t.httpRc ""
  else
    -- Only `reg` and `call` signal the previous registration state.
    let built ← buildClearwaterRegDataXml
      (if t.type = .reg ∨ t.type = .call then some t.cachedRegState else none)
    sendHttpReply built.1 (if built.1 = httpOk then built.2 else "")

/-- `send_http_reply` and `delete this`. -/
def rejectWith (rc : HttpCode) : TaskProg (Option ImpuRegDataTask) := do
  sendHttpReply rc ""
  finish

/-- `send_reply` and `delete this`. -/
def replyAndFinish (t : ImpuRegDataTask) : TaskProg (Option ImpuRegDataTask) := do
  t.sendReply
  finish

/-! ### Changing the cache -/

def onPutRegDataProgress (t : ImpuRegDataTask) : TaskProg Unit := do
  callback .onPutRegDataProgress
  t.sendReply

def onPutRegDataSuccess : TaskProg (Option ImpuRegDataTask) := do
  callback .onPutRegDataSuccess
  finish

def onPutRegDataFailure (rc : Status) : TaskProg (Option ImpuRegDataTask) := do
  callback (.onPutRegDataFailure rc)
  rejectWith httpServerUnavailable

/-- `put_in_cache`. A document without public identities is not cached. -/
def putInCache (t : ImpuRegDataTask) (irs : Irs) : TaskProg (Option ImpuRegDataTask) :=
  if (cfg.px.getPublicAndDefaultIds irs.imsSubXml "").1 = [] then t.replyAndFinish
  else
    -- The reply is sent by the progress callback, from inside the put.
    HssCacheProcessor.putImplicitRegistrationSet cfg.cache onPutRegDataSuccess
      t.onPutRegDataProgress onPutRegDataFailure irs

def onDelImpuProgress (t : ImpuRegDataTask) : TaskProg Unit := do
  callback .onDelImpuProgress
  t.sendReply

def onDelImpuSuccess : TaskProg (Option ImpuRegDataTask) := do
  callback .onDelImpuSuccess
  finish

/-- `on_del_impu_failure`. Nothing to delete counts as deleted. -/
def onDelImpuFailure (t : ImpuRegDataTask) (status : Status) :
    TaskProg (Option ImpuRegDataTask) := do
  callback (.onDelImpuFailure status)
  if status = .notFound then t.replyAndFinish
  -- The error of the HSS goes before that of the store.
  else rejectWith (if t.httpRc = httpOk then httpServerUnavailable else t.httpRc)

/-- The deregistration branch of `on_sar_response`. -/
def deleteFromCache (t : ImpuRegDataTask) (irs : Irs) : TaskProg (Option ImpuRegDataTask) :=
  HssCacheProcessor.deleteImplicitRegistrationSet cfg.cache onDelImpuSuccess t.onDelImpuProgress
    t.onDelImpuFailure irs

/-! ### The answer of the HSS -/

/-- The second half of `on_sar_response`: the cache is updated if required. -/
def updateCache (t : ImpuRegDataTask) (irs : Irs) (saa : ServerAssignmentAnswer) :
    TaskProg (Option ImpuRegDataTask) :=
  if saa.result = .success ∧ ¬ t.type.isDeregistrationRequest ∧ ¬ t.type.isAuthFailureRequest then
    -- The request has assigned the subscriber to this node.
    let irs := irs.setChargingAddresses saa.chargingAddresses
    let irs := irs.setImsSubXml cfg.px saa.serviceProfile
    let irs := irs.setTtl cfg.recordTtl
    t.putInCache cfg irs
  else if t.type.isDeregistrationRequest ∧ saa.result ≠ .serverUnavailable then
    -- Also when the HSS has rejected it: Sprout has no bindings any more. When the HSS was not
    -- reached, the record stays, so that the retry on another node finds the subscriber.
    t.deleteFromCache cfg irs
  else t.replyAndFinish

/-- `on_sar_response`. A wildcard that is new starts the task over. -/
def onSarResponse (t : ImpuRegDataTask) (irs : Irs) (saa : ServerAssignmentAnswer) :
    TaskProg (Option ImpuRegDataTask) := do
  callback (.onSarResponse saa)
  match saa.result with
  | .success => t.updateCache cfg irs saa
  | .serverUnavailable => updateCache cfg { t with httpRc := httpServerUnavailable } irs saa
  | .notFound => updateCache cfg { t with httpRc := httpNotFound } irs saa
  | .newWildcard =>
    let currentWildcard := t.wildcardId
    let t := { t with hssWildcard := saa.wildcardImpu }
    -- The wildcard in use again is an error. Otherwise the task would loop.
    if currentWildcard = t.hssWildcard then
      updateCache cfg { t with httpRc := httpServerError } irs saa
    else pure (some t)
  | .timeout => do
    recordPenalty
    updateCache cfg { t with httpRc := httpGatewayTimeout } irs saa
  | _ => updateCache cfg { t with httpRc := httpServerError } irs saa

/-- `send_server_assignment_request`. -/
def sendSar (t : ImpuRegDataTask) (irs : Irs) (type : ServerAssignmentType) :
    TaskProg (Option ImpuRegDataTask) := do
  let saa ← sendServerAssignmentRequest
    { impi := t.impi
      impu := t.impu
      serverName :=
        if t.providedServerName = "" then cfg.configuredServerName else t.providedServerName
      type := type
      supportSharedIfcs := cfg.supportSharedIfcs
      wildcardImpu := if t.hssWildcard = "" then t.sproutWildcard else t.hssWildcard }
  t.onSarResponse cfg irs saa

/-! ### The cached data -/

/-- The binding on the request is not among those of the cached subscriber. -/
def newBinding (t : ImpuRegDataTask) (irs : Irs) : Bool :=
  t.impi ≠ "" && irs.imsSubXml ≠ "" &&
    (irs.getAssociatedImpis.isEmpty || !irs.getAssociatedImpis.contains t.impi)

/-- The `REG` branch of `process_received_reg_data`. -/
def processReg (t : ImpuRegDataTask) (irs : Irs) (newBinding : Bool) :
    TaskProg (Option ImpuRegDataTask) :=
  if t.cachedRegState = .registered ∧ ¬ newBinding then
    -- A re-registration. The TTL starts afresh with each SAA, so it tells the age of the record.
    let recordAge := cfg.recordTtl - irs.ttl
    let irs := irs.setRegState .registered
    if recordAge ≥ cfg.hssReregistrationTime then t.sendSar cfg irs .reRegistration
    else if t.req.cacheControl = "no-cache" then t.sendSar cfg irs .reRegistration
    else t.replyAndFinish
  else
    -- An initial registration, or a new binding, which the put has to add.
    let irs := irs.setRegState .registered
    let irs := irs.addAssociatedImpi t.impi
    t.sendSar cfg irs .registration

/-- The `CALL` branch. -/
def processCall (t : ImpuRegDataTask) (irs : Irs) : TaskProg (Option ImpuRegDataTask) :=
  if t.cachedRegState = .notRegistered then
    t.sendSar cfg (irs.setRegState .unregistered) .unregisteredUser
  else t.replyAndFinish

/-- The deregistration branch. A subscriber who is not registered is not deregistered. -/
def processDereg (t : ImpuRegDataTask) (irs : Irs) : TaskProg (Option ImpuRegDataTask) :=
  if t.cachedRegState ≠ .notRegistered then
    t.sendSar cfg (irs.setRegState .notRegistered) t.type.sarType
  else rejectWith httpBadRequest

/-- `process_received_reg_data`. The last branch sends no answer, and no request leads to it. -/
def processReceivedRegData (t : ImpuRegDataTask) (irs : Irs) : TaskProg (Option ImpuRegDataTask) :=
  let t := { t with cachedRegState := irs.registrationState }
  -- A `GET` changes nothing, whatever the cache holds.
  if t.req.method = .get then t.replyAndFinish
  else
    let newBinding := t.newBinding irs
    -- Without an IMPI on the request, the cached document may name one.
    let t := { t with impi := if t.impi = "" then cfg.getPrivateId irs.imsSubXml else t.impi }
    if t.type = .reg then t.processReg cfg irs newBinding
    else if t.type = .call then t.processCall cfg irs
    else if t.type.isDeregistrationRequest then t.processDereg cfg irs
    -- A failed authentication leaves the registration as it is. Only the HSS is told.
    else if t.type.isAuthFailureRequest then t.sendSar cfg irs t.type.sarType
    else finish

def onGetRegDataSuccess (t : ImpuRegDataTask) (irs : Irs) : TaskProg (Option ImpuRegDataTask) := do
  callback (.onGetRegDataSuccess irs)
  t.processReceivedRegData cfg irs

/-- `on_get_reg_data_failure`. A `PUT` for an unknown subscriber goes on with an empty IRS. -/
def onGetRegDataFailure (t : ImpuRegDataTask) (rc : Status) :
    TaskProg (Option ImpuRegDataTask) := do
  callback (.onGetRegDataFailure rc)
  if rc = .notFound then
    if t.req.method = .put then do
      let uninitialised ← createImplicitRegistrationSet
      let irs := Irs.new uninitialised.1 uninitialised.2
      t.processReceivedRegData cfg (irs.setRegState .notRegistered)
    else rejectWith httpNotFound
  else rejectWith httpGatewayTimeout

/-- `get_reg_data`. -/
def getRegData (t : ImpuRegDataTask) : TaskProg (Option ImpuRegDataTask) :=
  HssCacheProcessor.getImplicitRegistrationSetForImpu cfg.cache (t.onGetRegDataSuccess cfg)
    (t.onGetRegDataFailure cfg) t.publicId

/-- The task with what `run` reads from the request. -/
def ofRequest (req : HttpRequest) : ImpuRegDataTask where
  req := req
  impu := cfg.urlUnescape (impuOfPath req.fullPath)
  impi := cfg.urlUnescape req.privateId
  providedServerName := cfg.serverNameFromBody req.body
  sproutWildcard := cfg.wildcardFromBody req.body
  type := if req.method = .put then cfg.requestTypeFromBody req.body else .unknown

/-- One round of the loop: the task that was started over, or nothing after `delete this`. -/
def round : Option ImpuRegDataTask → TaskProg (Option ImpuRegDataTask)
  | some t => t.getRegData cfg
  | none => pure none

/-- `get_reg_data`, as often as `on_sar_response` starts over with it. -/
def rounds (t : ImpuRegDataTask) : TaskProg Unit := do
  let _ ← Prog.loop (round cfg) Option.isSome (some t)
  pure ()

/-- `run`. -/
def run (req : HttpRequest) : TaskProg Unit :=
  let t := ofRequest cfg req
  match req.method with
  | .put =>
    if t.type = .unknown then do
      sendHttpReply httpBadRequest ""
      deleteThis
    else t.rounds cfg
  | .get => t.rounds cfg
  | .other => do
    sendHttpReply httpBadMethod ""
    deleteThis

end ImpuRegDataTask

/-- `ImpuReadRegDataTask::run`, on the management interface. -/
def ImpuReadRegDataTask.run (cfg : RegDataConfig) (req : HttpRequest) : TaskProg Unit :=
  if req.method ≠ .get then do
    sendHttpReply httpBadMethod ""
    deleteThis
  else ImpuRegDataTask.run cfg req

end Homestead

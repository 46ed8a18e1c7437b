import Homestead.Model.HssConnection
import Homestead.Model.ImpuRegDataTask

/-!
# `Homestead.Model.ImpiTasks`: the requests that only ask the HSS

The embedding of `ImpiDigestTask`, `ImpiAvTask`, `ImpiRegistrationStatusTask` and
`ImpuLocationInfoTask` (the first part of `src/http_handlers.cpp`). They send one request to the
HSS, turn its answer into a reply and delete themselves. They do not use the cache.

A task is a program over `ImpiTaskCall`. The paths that reach a task match the expressions that it is
registered with, so that a prefix is always there to be cut off. The replies are rapidjson's text
of a `Json`, which ends every string at its first NUL.
-/

set_option autoImplicit false

namespace Homestead

def httpForbidden : HttpCode := 403

/-- What the tasks read of an `HttpStack::Request`. A parameter that is missing is empty. -/
structure ImpiHttpRequest where
  path : String
  file : String
  param : String → String

/-- What the tasks are configured with, and `base64_decode` of cpp-common. -/
structure ImpiConfig where
  schemeUnknown : String
  schemes : AuthSchemes
  defaultRealm : String
  configuredServerName : String
  healthChecker : Bool
  base64Decode : String → String

/-- The calls of a task. `undefinedBehaviour` is what a null pointer or one to the wrong class of
`AuthVector` leads to. The task is not followed any further. -/
inductive ImpiTaskCall
  | sendMultimediaAuthRequest (request : MultimediaAuthRequest)
  | sendUserAuthRequest (request : UserAuthRequest)
  | sendLocationInfoRequest (request : LocationInfoRequest)
  | recordPenalty
  | healthCheckPassed
  | sendHttpReply (rc : HttpCode) (content : Option Json)
  | deleteThis
  | undefinedBehaviour

def ImpiTaskCall.Resp : ImpiTaskCall → Type
  | .sendMultimediaAuthRequest _ => MultimediaAuthAnswer
  | .sendUserAuthRequest _ => UserAuthAnswer
  | .sendLocationInfoRequest _ => LocationInfoAnswer
  | _ => Unit

/-- A program of a task. -/
abbrev ImpiProg := Prog ImpiTaskCall ImpiTaskCall.Resp

namespace ImpiProg

def sendMultimediaAuthRequest (request : MultimediaAuthRequest) : ImpiProg MultimediaAuthAnswer :=
  .call (.sendMultimediaAuthRequest request) .ret

def sendUserAuthRequest (request : UserAuthRequest) : ImpiProg UserAuthAnswer :=
  .call (.sendUserAuthRequest request) .ret

def sendLocationInfoRequest (request : LocationInfoRequest) : ImpiProg LocationInfoAnswer :=
  .call (.sendLocationInfoRequest request) .ret

def recordPenalty : ImpiProg Unit := .call .recordPenalty .ret

def healthCheckPassed : ImpiProg Unit := .call .healthCheckPassed .ret

def sendHttpReply (rc : HttpCode) (content : Option Json) : ImpiProg Unit :=
  .call (.sendHttpReply rc content) .ret

def deleteThis : ImpiProg Unit := .call .deleteThis .ret

def undefinedBehaviour : ImpiProg Unit := .call .undefinedBehaviour .ret

end ImpiProg

open ImpiProg

/-- What a task rejects a request with. -/
def rejectImpi (rc : HttpCode) : ImpiProg Unit := do
  sendHttpReply rc none
  deleteThis

/-- The ends that the tasks have in common. A timeout of the HSS counts as overload. -/
def ResultCode.reject : ResultCode → ImpiProg Unit
  | .notFound => rejectImpi httpNotFound
  | .timeout => do
    recordPenalty
    rejectImpi httpGatewayTimeout
  | .serverUnavailable => rejectImpi httpServerUnavailable
  | _ => rejectImpi httpServerError

/-- The part of the path between `/impi/` and the next slash. -/
def impiOfPath (path : String) : String :=
  String.ofList ((path.toList.drop "/impi/".length).takeWhile (· ≠ '/'))

/-! ### Authentication vectors -/

/-- `ImpiDigestTask` or `ImpiAvTask`. -/
inductive ImpiTaskKind
  | digest
  | av
  deriving DecidableEq, Repr

/-- The members of an `ImpiTask`. -/
structure ImpiTask where
  kind : ImpiTaskKind
  impi : String
  impu : String
  scheme : String
  authorization : String
  providedServerName : String
  deriving DecidableEq, Repr

namespace ImpiTask

variable (cfg : ImpiConfig)

/-- `ImpiDigestTask::parse_request`. -/
def parseDigest (req : ImpiHttpRequest) : ImpiTask where
  kind := .digest
  impi := impiOfPath req.path
  impu := req.param "public_id"
  scheme := cfg.schemes.digest
  authorization := ""
  providedServerName := req.param "server-name"

/-- `ImpiAvTask::parse_request`. -/
def parseAv (req : ImpiHttpRequest) : Option ImpiTask :=
  let scheme := match req.file with
    | "av" => some cfg.schemeUnknown
    | "digest" => some cfg.schemes.digest
    | "aka" => some cfg.schemes.akav1
    | "aka2" => some cfg.schemes.akav2
    | _ => none
  scheme.map fun scheme =>
    { kind := .av
      impi := impiOfPath req.path
      impu := req.param "impu"
      scheme := scheme
      authorization := cfg.base64Decode (req.param "resync-auth")
      providedServerName := req.param "server-name" }

/-- `parse_request`. -/
def parseRequest (kind : ImpiTaskKind) (req : ImpiHttpRequest) : Option ImpiTask :=
  match kind with
  | .digest => some (parseDigest cfg req)
  | .av => parseAv cfg req

/-- The content of the reply with a digest. An empty quality of protection stands for `auth`. -/
def digestContent (kind : ImpiTaskKind) (av : DigestAuthVector) : Json :=
  match kind with
  | .digest => .object [("digest_ha1", .string (cString av.ha1))]
  | .av => .object [("digest", .object
      [("ha1", .string (cString av.ha1)), ("realm", .string (cString av.realm)),
       ("qop", .string (cString (if av.qop = "" then "auth" else av.qop)))])]

/-- The content of the reply with an AKA vector. -/
def akaContent (av : AkaAuthVector) : Json :=
  .object [("aka", .object
    [("challenge", .string (cString av.challenge)), ("response", .string (cString av.response)),
     ("cryptkey", .string (cString av.cryptKey)),
     ("integritykey", .string (cString av.integrityKey)), ("version", .int64 av.version)])]

/-- `send_reply` with a digest. -/
def sendDigest (t : ImpiTask) (av : DigestAuthVector) : ImpiProg Unit :=
  sendHttpReply httpOk (some (digestContent t.kind av))

/-- `send_reply` with an AKA vector, which a digest task has no use for. -/
def sendAka (t : ImpiTask) (av : AkaAuthVector) : ImpiProg Unit :=
  match t.kind with
  | .digest => sendHttpReply httpNotFound none
  | .av => sendHttpReply httpOk (some (akaContent av))

/-- The `SUCCESS` branch of `on_mar_response`. The class of the vector is not looked at: the
scheme decides what the pointer is cast to. -/
def onAuthVector (t : ImpiTask) (maa : MultimediaAuthAnswer) : ImpiProg Unit :=
  if maa.sipAuthScheme = cfg.schemes.digest then
    match maa.authVector with
    | some (.digest av) => do
      t.sendDigest av
      deleteThis
    | _ => undefinedBehaviour
  else if maa.sipAuthScheme = cfg.schemes.akav1 then
    match maa.authVector with
    | some (.aka av) => do
      t.sendAka av
      deleteThis
    | _ => undefinedBehaviour
  else if maa.sipAuthScheme = cfg.schemes.akav2 then
    match maa.authVector with
    | some (.aka av) => do
      t.sendAka { av with version := 2 }
      deleteThis
    | _ => undefinedBehaviour
  else rejectImpi httpNotFound

/-- `on_mar_response`. -/
def onMarResponse (t : ImpiTask) (maa : MultimediaAuthAnswer) : ImpiProg Unit :=
  match maa.result with
  | .success => t.onAuthVector cfg maa
  | rc => rc.reject

/-- The request of `send_mar`. -/
def request (t : ImpiTask) : MultimediaAuthRequest where
  impi := t.impi
  impu := t.impu
  serverName := if t.providedServerName = "" then cfg.configuredServerName else t.providedServerName
  scheme := t.scheme
  authorization := t.authorization

/-- `run`, with `get_av` and `send_mar`. -/
def run (kind : ImpiTaskKind) (req : ImpiHttpRequest) : ImpiProg Unit :=
  match parseRequest cfg kind req with
  | none => rejectImpi httpNotFound
  | some t =>
    if t.impu = "" then rejectImpi httpNotFound
    else do
      let maa ← sendMultimediaAuthRequest (t.request cfg)
      t.onMarResponse cfg maa

end ImpiTask

/-! ### Registration status and location -/

/-- `write_capabilities`. -/
def ServerCapabilities.members (capabs : ServerCapabilities) : Members :=
  [("mandatory-capabilities", .array (capabs.mandatoryCapabilities.map .int64)),
   ("optional-capabilities", .array (capabs.optionalCapabilities.map .int64))]

/-- The name of the S-CSCF, or else the capabilities that it should have, which may come with a
name of their own. -/
def scscfMembers (serverName : String) (capabs : ServerCapabilities) : Members :=
  if serverName ≠ "" then [("scscf", .string (cString serverName))]
  else (if capabs.serverName ≠ "" then [("scscf", .string (cString capabs.serverName))] else []) ++
    capabs.members

namespace ImpiRegistrationStatusTask

variable (cfg : ImpiConfig)

/-- The request of `run`. -/
def request (req : ImpiHttpRequest) : UserAuthRequest where
  impi := impiOfPath req.path
  impu := req.param "impu"
  visitedNetwork :=
    if req.param "visited-network" = "" then cfg.defaultRealm else req.param "visited-network"
  authorizationType := req.param "auth-type"
  emergency := req.param "sos" = "true"

def content (uaa : UserAuthAnswer) : Json :=
  .object (("result-code", .int64 uaa.jsonResult) ::
    scscfMembers uaa.serverName uaa.serverCapabilities)

/-- `on_uar_response`. A reply with 200 counts for the health check. -/
def onUarResponse (uaa : UserAuthAnswer) : ImpiProg Unit :=
  match uaa.result with
  | .success => do
    sendHttpReply httpOk (some (content uaa))
    if cfg.healthChecker then healthCheckPassed
    deleteThis
  | .forbidden => rejectImpi httpForbidden
  | rc => rc.reject

/-- `run`. -/
def run (req : ImpiHttpRequest) : ImpiProg Unit := do
  let uaa ← sendUserAuthRequest (request cfg req)
  onUarResponse cfg uaa

end ImpiRegistrationStatusTask

namespace ImpuLocationInfoTask

/-- The request of `run`. -/
def request (req : ImpiHttpRequest) : LocationInfoRequest where
  impu := impuOfPath req.path
  originating := req.param "originating"
  authorizationType := req.param "auth-type"

def content (lia : LocationInfoAnswer) : Json :=
  .object (("result-code", .int64 lia.jsonResult) ::
    scscfMembers lia.serverName lia.serverCapabilities ++
    if lia.wildcardImpu ≠ "" then [("wildcard-identity", .string (cString lia.wildcardImpu))] else [])

/-- `on_lir_response`. -/
def onLirResponse (lia : LocationInfoAnswer) : ImpiProg Unit :=
  match lia.result with
  | .success => do
    sendHttpReply httpOk (some (content lia))
    deleteThis
  | rc => rc.reject

/-- `run`. -/
def run (req : ImpiHttpRequest) : ImpiProg Unit := do
  let lia ← sendLocationInfoRequest (request req)
  onLirResponse lia

end ImpuLocationInfoTask

/-- The four kinds of request. -/
inductive ImpiRequestKind
  | digest
  | av
  | registrationStatus
  | location
  deriving DecidableEq, Repr

/-- The task for a request. -/
def ImpiRequestKind.run (cfg : ImpiConfig) (req : ImpiHttpRequest) : ImpiRequestKind → ImpiProg Unit
  | .digest => ImpiTask.run cfg .digest req
  | .av => ImpiTask.run cfg .av req
  | .registrationStatus => ImpiRegistrationStatusTask.run cfg req
  | .location => ImpuLocationInfoTask.run req

/-- The calls of a task on a connection to the HSS. The state is the list of the calls. -/
def serveImpi (hss : HssConnection) : Handler ImpiTaskCall ImpiTaskCall.Resp (List ImpiTaskCall)
  | .sendMultimediaAuthRequest request, calls =>
    (hss.sendMultimediaAuthRequest request, calls ++ [.sendMultimediaAuthRequest request])
  | .sendUserAuthRequest request, calls =>
    (hss.sendUserAuthRequest request, calls ++ [.sendUserAuthRequest request])
  | .sendLocationInfoRequest request, calls =>
    (hss.sendLocationInfoRequest request, calls ++ [.sendLocationInfoRequest request])
  | .recordPenalty, calls => ((), calls ++ [.recordPenalty])
  | .healthCheckPassed, calls => ((), calls ++ [.healthCheckPassed])
  | .sendHttpReply rc content, calls => ((), calls ++ [.sendHttpReply rc content])
  | .deleteThis, calls => ((), calls ++ [.deleteThis])
  | .undefinedBehaviour, calls => ((), calls ++ [.undefinedBehaviour])

end Homestead

import Homestead.Model.Cx

/-!
# `Homestead.Model.HssConnection`: the two connections to an HSS

The embedding of `src/hss_connection.h` with its two subclasses. `DiameterHssConnection` sends a Cx
message and reads the answer. `HsProvHssConnection` stands in for an HSS: it answers from the
Cassandra database that homestead-prov has provisioned (`src/hsprov_store.cpp`).

What the other side answers is a parameter of each: the answer of the HSS to a message, or none
within the timeout, and the columns of a row of the database. Cassandra's client is cpp-common's:
an exception of `ha_get_columns` is the result code of the operation, and the transaction gets its
answer after a failure as well.
-/

set_option autoImplicit false

namespace Homestead

/-! ### Requests and answers -/

/-- `configure_auth_schemes`. -/
structure AuthSchemes where
  digest : String
  akav1 : String
  akav2 : String
  deriving DecidableEq, Repr

/-- `HssConnection::MultimediaAuthRequest`. -/
structure MultimediaAuthRequest where
  impi : String
  impu : String
  serverName : String
  scheme : String
  authorization : String
  deriving DecidableEq, Repr

/-- `HssConnection::UserAuthRequest`. -/
structure UserAuthRequest where
  impi : String
  impu : String
  visitedNetwork : String
  authorizationType : String
  emergency : Bool
  deriving DecidableEq, Repr

/-- `HssConnection::LocationInfoRequest`. -/
structure LocationInfoRequest where
  impu : String
  originating : String
  authorizationType : String
  deriving DecidableEq, Repr

/-- `HssConnection::MultimediaAuthAnswer`. The null pointer is `none`. -/
structure MultimediaAuthAnswer where
  result : ResultCode
  authVector : Option AuthVector := none
  sipAuthScheme : String := ""
  deriving DecidableEq, Repr

/-- `HssConnection::UserAuthAnswer`. -/
structure UserAuthAnswer where
  result : ResultCode
  jsonResult : Int := 0
  serverName : String := ""
  serverCapabilities : ServerCapabilities := {}
  deriving DecidableEq, Repr

/-- `HssConnection::LocationInfoAnswer`. -/
structure LocationInfoAnswer where
  result : ResultCode
  jsonResult : Int := 0
  serverName : String := ""
  serverCapabilities : ServerCapabilities := {}
  wildcardImpu : String := ""
  deriving DecidableEq, Repr

/-- `HssConnection`, with what is answered in place of the callbacks. -/
structure HssConnection where
  sendMultimediaAuthRequest : MultimediaAuthRequest → MultimediaAuthAnswer
  sendUserAuthRequest : UserAuthRequest → UserAuthAnswer
  sendLocationInfoRequest : LocationInfoRequest → LocationInfoAnswer
  sendServerAssignmentRequest : ServerAssignmentRequest → ServerAssignmentAnswer

/-! ### Diameter -/

/-- What a `DiameterHssConnection` is configured with, and the two encodings of cpp-common. -/
structure DiameterHssConnection where
  destRealm : String
  destHost : String
  schemes : AuthSchemes
  base64Encode : String → String
  hex : String → String

namespace DiameterHssConnection

variable (conn : DiameterHssConnection)

def multimediaAuthRequest (request : MultimediaAuthRequest) : CxMessage :=
  Cx.multimediaAuthRequest conn.destRealm conn.destHost request.impi request.impu
    request.serverName request.scheme request.authorization

def userAuthRequest (request : UserAuthRequest) : CxMessage :=
  Cx.userAuthorizationRequest conn.destHost conn.destRealm request.impi request.impu
    request.visitedNetwork request.authorizationType request.emergency

def locationInfoRequest (request : LocationInfoRequest) : CxMessage :=
  Cx.locationInfoRequest conn.destHost conn.destRealm request.originating request.impu
    request.authorizationType

def serverAssignmentRequest (request : ServerAssignmentRequest) : CxMessage :=
  Cx.serverAssignmentRequest conn.destHost conn.destRealm request.impi request.impu
    request.serverName request.type request.supportSharedIfcs request.wildcardImpu

/-- `MarDiameterTransaction::create_answer`. It has no branch for `DIAMETER_TOO_BUSY`. -/
def multimediaAuthAnswer (rsp : CxMessage) : MultimediaAuthAnswer :=
  if rsp.resultCode = diameterSuccess then
    let scheme := Cx.sipAuthScheme rsp.avps
    if scheme = conn.schemes.digest then
      { result := .success, authVector := some (.digest (Cx.digestAuthVector rsp.avps)),
        sipAuthScheme := scheme }
    else if scheme = conn.schemes.akav1 then
      { result := .success,
        authVector := some (.aka (Cx.akaAuthVector conn.base64Encode conn.hex rsp.avps)),
        sipAuthScheme := scheme }
    else if scheme = conn.schemes.akav2 then
      { result := .success,
        authVector := some (.aka (Cx.akav2AuthVector conn.base64Encode conn.hex rsp.avps)),
        sipAuthScheme := scheme }
    else { result := .unknownAuthScheme, sipAuthScheme := scheme }
  else if rsp.resultCode = diameterUnableToDeliver then { result := .serverUnavailable }
  else if rsp.experimentalResult = diameterErrorUserUnknown ∧ rsp.vendorId = vendorId3gpp then
    { result := .notFound }
  else { result := .unknown }

/-- The code that goes into the reply. -/
def jsonResult (rsp : CxMessage) : Int :=
  if rsp.resultCode ≠ 0 then rsp.resultCode else rsp.experimentalResult

/-- The capabilities of an answer, which are not read when there is a server name. -/
def capabilities (rsp : CxMessage) : ServerCapabilities :=
  if (Avp.getStr CxAvpName.serverName rsp.avps).isSome then {} else Cx.serverCapabilities rsp.avps

/-- `UarDiameterTransaction::create_answer`. It does not look at the vendor. -/
def userAuthAnswer (rsp : CxMessage) : UserAuthAnswer :=
  if rsp.resultCode = diameterSuccess ∨ rsp.experimentalResult = diameterFirstRegistration ∨
      rsp.experimentalResult = diameterSubsequentRegistration then
    { result := .success, jsonResult := jsonResult rsp,
      serverName := (Avp.getStr CxAvpName.serverName rsp.avps).getD "",
      serverCapabilities := capabilities rsp }
  else if rsp.experimentalResult = diameterErrorUserUnknown ∨
      rsp.experimentalResult = diameterErrorIdentitiesDontMatch then { result := .notFound }
  else if rsp.resultCode = diameterAuthorizationRejected ∨
      rsp.experimentalResult = diameterErrorRoamingNotAllowed then { result := .forbidden }
  else if rsp.resultCode = diameterTooBusy then { result := .timeout }
  else if rsp.resultCode = diameterUnableToDeliver then { result := .serverUnavailable }
  else { result := .unknown }

/-- `LirDiameterTransaction::create_answer`. -/
def locationInfoAnswer (rsp : CxMessage) : LocationInfoAnswer :=
  if rsp.resultCode = diameterSuccess ∨ rsp.vendorId = vendorId3gpp ∧
      (rsp.experimentalResult = diameterUnregisteredService ∨
        rsp.experimentalResult = diameterErrorIdentityNotRegistered) then
    { result := .success, jsonResult := jsonResult rsp,
      serverName := (Avp.getStr CxAvpName.serverName rsp.avps).getD "",
      serverCapabilities := capabilities rsp,
      wildcardImpu := (Avp.getStr CxAvpName.wildcardedPublicIdentity rsp.avps).getD "" }
  else if rsp.vendorId = vendorId3gpp ∧ rsp.experimentalResult = diameterErrorUserUnknown then
    { result := .notFound }
  else if rsp.resultCode = diameterTooBusy then { result := .timeout }
  else if rsp.resultCode = diameterUnableToDeliver then { result := .serverUnavailable }
  else { result := .unknown }

/-- `SarDiameterTransaction::create_answer`. It has no branch for `DIAMETER_TOO_BUSY`. -/
def serverAssignmentAnswer (rsp : CxMessage) : ServerAssignmentAnswer :=
  if rsp.resultCode = diameterSuccess then
    { result := .success, chargingAddresses := (Cx.chargingAddrs rsp.avps).1,
      serviceProfile := (Avp.getStr CxAvpName.userData rsp.avps).getD "" }
  else if rsp.resultCode = diameterUnableToDeliver then { result := .serverUnavailable }
  else if rsp.experimentalResult = diameterErrorUserUnknown ∧ rsp.vendorId = vendorId3gpp then
    { result := .notFound }
  else if rsp.experimentalResult = diameterErrorInAssignmentType then
    let wildcard := (Avp.getStr CxAvpName.wildcardedPublicIdentity rsp.avps).getD ""
    { result := if wildcard ≠ "" then .newWildcard else .unknown, wildcardImpu := wildcard }
  else { result := .unknown }

/-- The connection to an HSS that answers a message with `hss`, and with `none` not in time. Then
`on_timeout` answers the callback with `SERVER_UNAVAILABLE`. -/
def toHss (hss : CxMessage → Option CxMessage) : HssConnection where
  sendMultimediaAuthRequest request :=
    match hss (conn.multimediaAuthRequest request) with
    | some rsp => conn.multimediaAuthAnswer rsp
    | none => { result := .serverUnavailable }
  sendUserAuthRequest request :=
    match hss (conn.userAuthRequest request) with
    | some rsp => userAuthAnswer rsp
    | none => { result := .serverUnavailable }
  sendLocationInfoRequest request :=
    match hss (conn.locationInfoRequest request) with
    | some rsp => locationInfoAnswer rsp
    | none => { result := .serverUnavailable }
  sendServerAssignmentRequest request :=
    match hss (conn.serverAssignmentRequest request) with
    | some rsp => serverAssignmentAnswer rsp
    | none => { result := .serverUnavailable }

end DiameterHssConnection

/-! ### homestead-prov -/

/-- A column of a Cassandra row. -/
structure Column where
  name : String
  value : String
  deriving DecidableEq, Repr

/-- The failures of `CassandraStore::ResultCode`. -/
inductive CassandraError
  | notFound
  | other
  deriving DecidableEq, Repr

/-- `ha_get_columns`: the column family, the key of the row and the columns that are asked for. -/
abbrev GetColumns := String → String → List String → Except CassandraError (List Column)

namespace HsProvStore

/-- The results of a `GetRegData`. -/
structure GetRegData where
  xml : String := ""
  chargingAddrs : ChargingAddresses := {}
  deriving DecidableEq, Repr

/-- One column of the result. A primary address goes before a secondary one in whatever order the
columns are. -/
def GetRegData.takeColumn (data : GetRegData) (col : Column) : GetRegData :=
  let ccfs := data.chargingAddrs.ccfs
  let ecfs := data.chargingAddrs.ecfs
  if col.name = "ims_subscription_xml" then { data with xml := col.value }
  else if col.name = "primary_ccf" ∧ col.value ≠ "" then
    { data with chargingAddrs := { data.chargingAddrs with ccfs := col.value :: ccfs } }
  else if col.name = "secondary_ccf" ∧ col.value ≠ "" then
    { data with chargingAddrs := { data.chargingAddrs with ccfs := ccfs ++ [col.value] } }
  else if col.name = "primary_ecf" ∧ col.value ≠ "" then
    { data with chargingAddrs := { data.chargingAddrs with ecfs := col.value :: ecfs } }
  else if col.name = "secondary_ecf" ∧ col.value ≠ "" then
    { data with chargingAddrs := { data.chargingAddrs with ecfs := ecfs ++ [col.value] } }
  else data

/-- `GetRegData::perform`. -/
def GetRegData.perform (haGetColumns : GetColumns) (publicId : String) :
    Except CassandraError GetRegData := do
  let results ← haGetColumns "impu" publicId
    ["ims_subscription_xml", "primary_ccf", "secondary_ccf", "primary_ecf", "secondary_ecf"]
  return results.foldl takeColumn {}

/-- The results of a `GetAuthVector`, and whether the column of the public identity was found. -/
structure GetAuthVector where
  authVector : DigestAuthVector := {}
  publicIdFound : Bool := false
  deriving DecidableEq, Repr

def GetAuthVector.takeColumn (publicIdCol : String) (data : GetAuthVector) (col : Column) :
    GetAuthVector :=
  if col.name = "digest_ha1" then
    { data with authVector := { data.authVector with ha1 := col.value } }
  else if col.name = "digest_realm" then
    { data with authVector := { data.authVector with realm := col.value } }
  else if col.name = "digest_qop" then
    { data with authVector := { data.authVector with qop := col.value } }
  else if col.name = publicIdCol then { data with publicIdFound := true }
  else data

/-- `GetAuthVector::perform`. -/
def GetAuthVector.perform (haGetColumns : GetColumns) (privateId publicId : String) :
    Except CassandraError DigestAuthVector := do
  let publicIdCol := if publicId = "" then "" else "public_id_" ++ publicId
  let results ← haGetColumns "impi" privateId
    (["digest_ha1", "digest_realm", "digest_qop"] ++ if publicId = "" then [] else [publicIdCol])
  let data := results.foldl (takeColumn publicIdCol) {}
  if publicId ≠ "" ∧ data.publicIdFound = false then .error .notFound
  else if data.authVector.ha1 = "" then .error .notFound
  else return data.authVector

end HsProvStore

/-- What a `HsProvHssConnection` is configured with. -/
structure HsProvHssConnection where
  serverName : String
  schemes : AuthSchemes
  haGetColumns : GetColumns

/-- The result code for a failure of Cassandra. Any failure but `NOT_FOUND` pretends that there
was a timeout upstream. -/
def CassandraError.resultCode : CassandraError → ResultCode
  | .notFound => .notFound
  | .other => .timeout

namespace HsProvHssConnection

variable (conn : HsProvHssConnection)

/-- `MarHsProvTransaction::create_answer`. The scheme is that of digests, also after a failure. -/
def multimediaAuthAnswer : Except CassandraError DigestAuthVector → MultimediaAuthAnswer
  | .ok av =>
    { result := .success, authVector := some (.digest av), sipAuthScheme := conn.schemes.digest }
  | .error e => { result := e.resultCode, sipAuthScheme := conn.schemes.digest }

/-- `LirHsProvTransaction::create_answer`. -/
def locationInfoAnswer : Except CassandraError HsProvStore.GetRegData → LocationInfoAnswer
  | .ok _ => { result := .success, jsonResult := diameterSuccess, serverName := conn.serverName }
  | .error e => { result := e.resultCode }

/-- `SarHsProvTransaction::create_answer`. -/
def serverAssignmentAnswer : Except CassandraError HsProvStore.GetRegData → ServerAssignmentAnswer
  | .ok data =>
    { result := .success, chargingAddresses := data.chargingAddrs, serviceProfile := data.xml }
  | .error e => { result := e.resultCode }

/-- The connection. Nobody is asked about a UAR, or about an SAR that ends something. -/
def toDatabase : HssConnection where
  sendMultimediaAuthRequest request :=
    conn.multimediaAuthAnswer
      (HsProvStore.GetAuthVector.perform conn.haGetColumns request.impi request.impu)
  sendUserAuthRequest _ :=
    { result := .success, jsonResult := diameterSuccess, serverName := conn.serverName }
  sendLocationInfoRequest request :=
    conn.locationInfoAnswer (HsProvStore.GetRegData.perform conn.haGetColumns request.impu)
  sendServerAssignmentRequest request :=
    match request.type with
    | .registration | .reRegistration | .unregisteredUser =>
      serverAssignmentAnswer (HsProvStore.GetRegData.perform conn.haGetColumns request.impu)
    | _ => { result := .success }

end HsProvHssConnection

end Homestead
